/-
# One request, one whole reply

A request that arrives in any number of pieces is handled once, when its last
byte is there, and the reply goes out whole, over as many interrupts as the
transmit FIFO takes (`one_request_one_reply`). While the request arrives the
buffer begins with the bytes so far (`Receiving`); while the reply goes out
the bytes written are its first ones (`Replying`).
-/
import AjaDriver.Serial
import AjaDriver.Lib.Runs
import Mathlib.Data.List.Basic
import Mathlib.Algebra.Order.Group.Nat

namespace AjaDriver

open Function

variable {D : Type}

/-! ### The UART -/

/-- A status that says there is a byte and no error. -/
def Clean (val : BitVec 4) : Prop := val ≠ 0 ∧ val &&& 0x04 = 0 ∧ val &&& 0x08 = 0

instance (val : BitVec 4) : Decidable (Clean val) := inferInstanceAs (Decidable (_ ∧ _ ∧ _))

/-- With no error, all the bytes of the FIFO are read. -/
theorem uartRx_clean : ∀ (fifo : List (BitVec 4 × Byte)) (n : ℕ) (i : ℤ), fifo.length ≤ n →
    (∀ e ∈ fifo, Clean e.1) →
    uartRx n i fifo = ⟨i + fifo.length, fifo.map Prod.snd, []⟩
  | [], 0, i, _, _ => by simp [uartRx]
  | [], n + 1, i, _, _ => by simp [uartRx]
  | (val, byte) :: fifo, n + 1, i, hn, hc => by
    obtain ⟨h0, h4, h8⟩ := hc (val, byte) (List.mem_cons_self ..)
    have hrest :=
      uartRx_clean fifo n (i + 1) (by simpa using hn) fun e he => hc e (List.mem_cons_of_mem _ he)
    unfold uartRx
    rw [if_neg h0, if_neg (not_not.mpr h4), if_neg (not_not.mpr h8), hrest]
    simp only [List.length_cons, List.map_cons]
    push_cast
    rw [add_assoc, add_comm 1]

/-- The bytes written are the first ones, some of them if the FIFO is not full. -/
theorem uartTx_take (full : ℕ → Bool) (data : Buf) : ∀ n i : ℕ, ∃ k ≤ n,
    uartTx full data n i = (List.range k).map (fun j => data (i + j)) ∧
      (full i = false → 0 < n → 0 < k)
  | 0, _ => ⟨0, le_rfl, rfl, fun _ h => h⟩
  | n + 1, i => by
    unfold uartTx
    by_cases hf : full i = true
    · rw [if_pos hf]
      exact ⟨0, Nat.zero_le _, rfl, fun h => by rw [hf] at h; simp at h⟩
    · rw [if_neg hf]
      obtain ⟨k, hk, hl, -⟩ := uartTx_take full data n (i + 1)
      refine ⟨k + 1, by omega, ?_, fun _ _ => Nat.succ_pos k⟩
      rw [hl, List.range_succ_eq_map, List.map_cons, List.map_map, Nat.add_zero]
      congr 1
      apply List.map_congr_left
      intro j _
      show data (i + 1 + j) = data (i + (j + 1))
      rw [Nat.add_assoc, Nat.add_comm 1]

/-! ### Interrupts -/

/-- `AJA_SlaveRx`, and all four counters 0. -/
structure SlavePkt.Idle (pkt : SlavePkt) : Prop where
  state : pkt.state = .rx
  inpt : pkt.inpt = 0
  insize : pkt.insize = 0
  outpt : pkt.outpt = 0
  outsize : pkt.outsize = 0

/-- Bytes arrive, none of them in error, and no request times out. -/
def Undisturbed (c : Serial D) : SerialIrq → Prop
  | .rx fifo _ => fifo ≠ [] ∧ ∀ e ∈ fifo, Clean e.1
  | .tx _ => True
  | .audioWrap => ¬ (c.pkt.inpt ≠ 0 ∧ c.pkt.tstamp + 2 < c.audioWraps + 1)

instance (c : Serial D) : ∀ q, Decidable (Undisturbed c q)
  | .rx fifo _ =>
    have : Decidable (∀ e ∈ fifo, Clean e.1) := List.decidableBAll _ fifo
    inferInstanceAs (Decidable (_ ∧ _))
  | .tx _ => instDecidableTrue
  | .audioWrap => inferInstanceAs (Decidable (¬ _))

/-- The bytes an interrupt receives. -/
def SerialIrq.received : SerialIrq → List Byte
  | .rx fifo _ => fifo.map Prod.snd
  | .tx _ => []
  | .audioWrap => []

/-- Is the interrupt one of the receiver? -/
def SerialIrq.isRx : SerialIrq → Bool
  | .rx _ _ => true
  | .tx _ => false
  | .audioWrap => false

/-- A tx interrupt that finds room in the FIFO. -/
def SerialIrq.hasRoom : SerialIrq → Bool
  | .tx full => !full 0
  | .rx _ _ => false
  | .audioWrap => false

theorem sent_congr {c d : Serial D} (h : d.io = c.io) : d.sent = c.sent := by
  unfold Serial.sent
  rw [h]

theorem calls_congr {c d : Serial D} (h : d.io = c.io) : d.calls = c.calls := by
  unfold Serial.calls
  rw [h]

/-- Bytes written to the UART, and nothing else. -/
theorem writes_uart {c d : Serial D} {l : List Byte}
    (h : d.io = c.io ++ l.map fun b => .prset uartout b.toNat) :
    d.sent = c.sent ++ l.map (fun b => (b.toNat : ℤ)) ∧ d.calls = c.calls := by
  unfold Serial.sent Serial.calls
  rw [h, List.filterMap_append, List.filterMap_append, List.filterMap_map, List.filterMap_map]
  constructor
  · congr 1
    induction l with
    | nil => rfl
    | cons b l ih => simp
  · simp

/-- An audio wrap with no timeout leaves the packet alone. -/
theorem audioWrap_undisturbed {c : Serial D} (h : Undisturbed c .audioWrap) :
    (audioWrap c).pkt = c.pkt ∧ (audioWrap c).p2slave = c.p2slave ∧ (audioWrap c).sent = c.sent ∧
      (audioWrap c).calls = c.calls := by
  unfold audioWrap
  simp only
  rw [if_neg h]
  split_ifs
  · refine ⟨rfl, rfl, ?_, ?_⟩
    · unfold Serial.sent uartEnable Serial.prset
      simp [List.filterMap_append, uartout, uartenabletx, uartenablerx]
    · unfold Serial.calls uartEnable Serial.prset
      simp [List.filterMap_append]
  · exact ⟨rfl, rfl, rfl, rfl⟩

theorem slavepktTx_rx {c : Serial D} (h : c.pkt.state = .rx) (full : ℕ → Bool) :
    slavepktTx full c = c := by
  unfold slavepktTx
  rw [if_pos (by rw [h]; decide)]

/-! ### Receiving -/

/-- A whole packet: its first byte tells its length. -/
def WholePacket (r : List Byte) : Prop := ∃ b, r[0]? = some b ∧ r.length = (b &&& 0x0F).toNat + 3

theorem WholePacket.length_le {r : List Byte} (h : WholePacket r) :
    3 ≤ r.length ∧ r.length ≤ 18 := by
  obtain ⟨b, -, hlen⟩ := h
  have hle := lowNibble_le b
  omega

/-- The bytes `got` of the packet `r` have arrived. -/
structure Receiving (r got : List Byte) (dev : D) (outb : Buf) (c : Serial D) : Prop where
  attached : c.p2slave = some dev
  state : c.pkt.state = .rx
  inpt : c.pkt.inpt = got.length
  insize : got ≠ [] → c.pkt.insize = r.length
  outpt : c.pkt.outpt = 0
  outb : c.pkt.outb = outb
  begins : c.pkt.inb.Begins got

theorem Receiving.same {r got : List Byte} {dev : D} {outb : Buf} {c d : Serial D}
    (h : Receiving r got dev outb c) (hp : d.pkt = c.pkt) (hd : d.p2slave = c.p2slave) :
    Receiving r got dev outb d := by
  refine ⟨hd.trans h.attached, ?_, ?_, ?_, ?_, ?_, ?_⟩ <;> rw [hp]
  · exact h.state
  · exact h.inpt
  · exact h.insize
  · exact h.outpt
  · exact h.outb
  · exact h.begins

/-- An rx interrupt stores its bytes; with the last byte of the packet, the
P2 slave is called. -/
theorem Receiving.rx {r got : List Byte} {dev : D} {outb : Buf} {c : Serial D}
    (h : Receiving r got dev outb c) (hr : WholePacket r) (handle : D → Buf → Buf → Buf × D)
    {fifo : List (BitVec 4 × Byte)} {full : ℕ → Bool} (hu : Undisturbed c (.rx fifo full))
    {rest : List Byte} (hsplit : got ++ fifo.map Prod.snd ++ rest = r) :
    ∃ d, Receiving r (got ++ fifo.map Prod.snd) dev outb d ∧ d.io = c.io ∧
      slavepktRx handle fifo full c =
        if r.length ≤ (got ++ fifo.map Prod.snd).length then slavepktHandle handle full dev d
          else d := by
  obtain ⟨hne, hclean⟩ := hu
  obtain ⟨-, h18⟩ := hr.length_le
  have hlen := congrArg List.length hsplit
  rw [List.length_append, List.length_append, List.length_map] at hlen
  have hpos : 0 < fifo.length := List.length_pos_iff.mpr hne
  have hread : uartRx (32 - c.pkt.inpt).toNat 0 fifo = ⟨fifo.length, fifo.map Prod.snd, []⟩ := by
    rw [h.inpt, uartRx_clean fifo _ 0 (by omega) hclean, zero_add]
  have hstore :
      (c.pkt.inb.store c.pkt.inpt.toNat (fifo.map Prod.snd)).Begins (got ++ fifo.map Prod.snd) := by
    rw [h.inpt, Int.toNat_natCast]
    exact h.begins.store _
  set inb := c.pkt.inb.store c.pkt.inpt.toNat (fifo.map Prod.snd)
  have hsize : slavepktSize inb = r.length := by
    obtain ⟨b, hb, hlen'⟩ := hr
    have hfirst : (got ++ fifo.map Prod.snd)[0]? = some b := by
      rw [← hsplit, List.getElem?_append_left
        (by rw [List.length_append, List.length_map]; omega)] at hb
      exact hb
    unfold slavepktSize
    rw [hstore 0 b hfirst, hlen']
  refine ⟨{ c with pkt := { c.pkt with
      tstamp := c.audioWraps, inb := inb, insize := r.length, inpt := c.pkt.inpt + fifo.length } },
    ⟨h.attached, h.state, ?_, fun _ => rfl, h.outpt, h.outb, hstore⟩, rfl, ?_⟩
  · show c.pkt.inpt + fifo.length = _
    rw [h.inpt, List.length_append, List.length_map]
    push_cast
    rfl
  · -- the size was set with the first byte, now or before
    have hfirst :
      (if c.pkt.inpt = 0
        then { c.pkt with tstamp := c.audioWraps, inb := inb, insize := slavepktSize inb }
        else { c.pkt with tstamp := c.audioWraps, inb := inb } : SlavePkt) =
        { c.pkt with tstamp := c.audioWraps, inb := inb, insize := r.length } := by
      by_cases h0 : c.pkt.inpt = 0
      · rw [if_pos h0, hsize]
      · have hgot : got ≠ [] := fun hnil => h0 (by rw [h.inpt, hnil]; rfl)
        rw [if_neg h0, ← h.insize hgot]
    have hcmp : c.pkt.inpt + fifo.length ≥ (r.length : ℤ) ↔
        r.length ≤ (got ++ fifo.map Prod.snd).length := by
      rw [h.inpt, List.length_append, List.length_map]
      omega
    unfold slavepktRx
    rw [h.attached]
    simp only
    rw [if_neg (by rw [h.state]; decide), hread]
    simp only [List.append_nil]
    rw [if_pos (by exact_mod_cast hpos), hfirst]
    simp only [hcmp]

/-- Before the packet's last byte, no interrupt calls the P2 slave or sends. -/
theorem receiving_run {handle : D → Buf → Buf → Buf × D} {r : List Byte} (hr : WholePacket r)
    {dev : D} {outb : Buf} :
    ∀ (irqs : List SerialIrq) {got rest : List Byte} {c : Serial D}, Receiving r got dev outb c →
    Runs.Along (Serial.step handle) Undisturbed c irqs →
      got ++ irqs.flatMap SerialIrq.received ++ rest = r → rest ≠ [] →
    Receiving r (got ++ irqs.flatMap SerialIrq.received) dev outb
      (irqs.foldl (Serial.step handle) c) ∧
      (irqs.foldl (Serial.step handle) c).sent = c.sent ∧
      (irqs.foldl (Serial.step handle) c).calls = c.calls
  | [], got, rest, c, h, _, _, _ => ⟨by simpa using h, rfl, rfl⟩
  | q :: irqs, got, rest, c, h, hrun, hsplit, hne => by
    obtain ⟨hu, hrun⟩ := hrun
    rw [List.flatMap_cons, ← List.append_assoc] at hsplit ⊢
    rw [List.foldl_cons]
    -- one interrupt, whichever it is
    have hone : Receiving r (got ++ q.received) dev outb (Serial.step handle c q) ∧
        (Serial.step handle c q).sent = c.sent ∧ (Serial.step handle c q).calls = c.calls := by
      cases q with
      | rx fifo full =>
        have hcut : got ++ fifo.map Prod.snd ++ (irqs.flatMap SerialIrq.received ++ rest) = r := by
          rw [← hsplit]
          simp [SerialIrq.received]
        obtain ⟨d, hd, hio, hrx⟩ := h.rx hr handle hu hcut
        have hshort : ¬ r.length ≤ (got ++ fifo.map Prod.snd).length := by
          have hlen := congrArg List.length hsplit
          have hpos := List.length_pos_iff.mpr hne
          simp only [List.length_append, SerialIrq.received] at hlen ⊢
          omega
        rw [if_neg hshort] at hrx
        have hstep : Serial.step handle c (.rx fifo full) = d := hrx
        rw [hstep]
        exact ⟨hd, sent_congr hio, calls_congr hio⟩
      | tx full =>
        have hstep : Serial.step handle c (.tx full) = c := slavepktTx_rx h.state full
        rw [hstep]
        rw [show got ++ SerialIrq.received (.tx full) = got from List.append_nil got]
        exact ⟨h, rfl, rfl⟩
      | audioWrap =>
        obtain ⟨hp, hdev, hsent, hcalls⟩ := audioWrap_undisturbed hu
        refine ⟨?_, hsent, hcalls⟩
        rw [show got ++ SerialIrq.received .audioWrap = got from List.append_nil got]
        exact h.same hp hdev
    obtain ⟨h1, hs1, hc1⟩ := hone
    obtain ⟨h2, hs2, hc2⟩ := receiving_run hr irqs h1 hrun hsplit hne
    exact ⟨h2, hs2.trans hs1, hc2.trans hc1⟩

/-! ### Replying -/

/-- The bytes of a reply, as they are written to the UART. -/
def replyBytes (pout : Buf) : List ℤ :=
  (List.range (slavepktSize pout)).map fun i => ((pout i).toNat : ℤ)

theorem take_replyBytes {pout : Buf} {n k : ℕ} (h : n + k ≤ slavepktSize pout) :
    (replyBytes pout).take n ++ (List.range k).map (fun i => ((pout (n + i)).toNat : ℤ)) =
      (replyBytes pout).take (n + k) := by
  unfold replyBytes
  rw [← List.map_take, ← List.map_take, List.take_range, List.take_range, min_eq_left (by omega),
    min_eq_left h, List.range_add, List.map_append, List.map_map]
  rfl

/-- The first `n` bytes of the reply have gone out; `sent` went out before. -/
structure Replying (sent : List ℤ) (pout : Buf) (n : ℕ) (c : Serial D) : Prop where
  le : n ≤ slavepktSize pout
  sent : c.sent = sent ++ (replyBytes pout).take n
  busy : n < slavepktSize pout →
    c.pkt.state = .tx ∧ c.pkt.outb = pout ∧ c.pkt.outpt = n ∧ c.pkt.outsize = slavepktSize pout
  idle : n = slavepktSize pout → c.pkt.Idle

/-- A reply of `size` bytes, `n` of which have gone out, goes on by some bytes,
at least one if the FIFO has room. -/
theorem slavepktTx_busy {c : Serial D} {n size : ℕ} (hstate : c.pkt.state = .tx)
    (houtpt : c.pkt.outpt = n) (houtsize : c.pkt.outsize = size) (hn : n < size) (full : ℕ → Bool) :
    ∃ k, n + k ≤ size ∧ (full 0 = false → 0 < k) ∧
      (slavepktTx full c).io =
        c.io ++ ((List.range k).map fun i => c.pkt.outb (n + i)).map
          (fun b => .prset uartout b.toNat) ∧
      (slavepktTx full c).pkt =
        if n + k = size then slavepktReset { c.pkt with outpt := ((n + k : ℕ) : ℤ) }
        else { c.pkt with outpt := ((n + k : ℕ) : ℤ) } := by
  obtain ⟨k, hk, hbytes, hroom⟩ := uartTx_take full (fun i => c.pkt.outb (n + i)) (size - n) 0
  have hsent : uartTx full (fun i => c.pkt.outb (c.pkt.outpt.toNat + i))
    (c.pkt.outsize - c.pkt.outpt).toNat 0 =
      (List.range k).map fun i => c.pkt.outb (n + i) := by
    have hsize : ((size : ℤ) - n).toNat = size - n := by omega
    rw [houtpt, houtsize, Int.toNat_natCast, hsize, hbytes]
    simp
  refine ⟨k, by omega, fun hf => hroom hf (by omega), ?_, ?_⟩
  · unfold slavepktTx
    rw [if_neg (not_not.mpr hstate)]
    simp only [hsent]
    split_ifs <;> rfl
  · have hdone : ((n : ℤ) + k ≥ size) ↔ n + k = size := by omega
    unfold slavepktTx
    rw [if_neg (not_not.mpr hstate)]
    simp only [hsent, List.length_map, List.length_range]
    by_cases h0 : k = 0
    · have hne : ¬ n = size := by omega
      rw [h0, if_neg (by decide), Nat.add_zero, if_neg hne, ← houtpt]
    · rw [if_pos (by omega)]
      simp only [houtpt, houtsize, hdone, Nat.cast_add]

/-- A tx interrupt goes on with the reply, at least by a byte if the FIFO has
room. -/
theorem Replying.tx {sent : List ℤ} {pout : Buf} {n : ℕ} {c : Serial D}
    (h : Replying sent pout n c) (full : ℕ → Bool) :
    ∃ m, n ≤ m ∧ (full 0 = false → min (slavepktSize pout) (n + 1) ≤ m) ∧
      Replying sent pout m (slavepktTx full c) ∧
      (slavepktTx full c).calls = c.calls := by
  rcases h.le.lt_or_eq with hlt | heq
  · obtain ⟨hstate, houtb, houtpt, houtsize⟩ := h.busy hlt
    obtain ⟨k, hk, hroom, hio, hpkt⟩ := slavepktTx_busy hstate houtpt houtsize hlt full
    rw [houtb] at hio
    obtain ⟨hsent, hcalls⟩ := writes_uart hio
    refine ⟨n + k, Nat.le_add_right n k, fun hf => ?_,
      ⟨hk, ?_, fun hbusy => ?_, fun hdone => ?_⟩, hcalls⟩
    · have := hroom hf
      omega
    · rw [hsent, h.sent, List.map_map, List.append_assoc, ← take_replyBytes hk]
      rfl
    · rw [hpkt, if_neg hbusy.ne]
      exact ⟨hstate, houtb, rfl, houtsize⟩
    · rw [hpkt, if_pos hdone]
      exact ⟨rfl, rfl, rfl, rfl, rfl⟩
  · have hsame : slavepktTx full c = c := slavepktTx_rx (h.idle heq).state full
    rw [hsame]
    exact ⟨n, le_rfl, fun _ => by omega, h, rfl⟩

/-- The last byte of a request: the P2 slave is called, and the reply begins. -/
theorem Receiving.handled {r : List Byte} {dev : D} {outb : Buf} {c : Serial D}
    (h : Receiving r r dev outb c) (handle : D → Buf → Buf → Buf × D) (full : ℕ → Bool) :
    ∃ m, Replying c.sent (handle dev outb c.pkt.inb).1 m (slavepktHandle handle full dev c) ∧
      (slavepktHandle handle full dev c).calls =
        c.calls ++ [(c.pkt.inb, (handle dev outb c.pkt.inb).1)] := by
  unfold slavepktHandle
  rw [h.outb]
  simp only
  set pout := (handle dev outb c.pkt.inb).1
  set d : Serial D := { c with
    p2slave := some (handle dev outb c.pkt.inb).2
    io := c.io ++ [.handlePkt c.pkt.inb pout]
    pkt := { c.pkt with outb := pout, outsize := slavepktSize pout, state := .tx } } with hd
  have hsent : d.sent = c.sent := by
    unfold Serial.sent
    simp [hd]
  have hcalls : d.calls = c.calls ++ [(c.pkt.inb, pout)] := by
    unfold Serial.calls
    simp [hd]
  have hbegin : Replying c.sent pout 0 d := by
    refine ⟨Nat.zero_le _, ?_, fun _ => ⟨rfl, rfl, h.outpt, rfl⟩, fun h0 => ?_⟩
    · rw [hsent, List.take_zero, List.append_nil]
    · unfold slavepktSize at h0
      omega
  obtain ⟨m, -, -, hm, hc⟩ := hbegin.tx full
  exact ⟨m, hm, hc.trans hcalls⟩

/-- While no request arrives, the reply goes on, by at least a byte at every
interrupt that finds room. -/
theorem replying_run {handle : D → Buf → Buf → Buf × D} {sent : List ℤ} {pout : Buf} :
    ∀ (irqs : List SerialIrq) {n : ℕ}
    {c : Serial D}, Replying sent pout n c → Runs.Along (Serial.step handle) Undisturbed c irqs →
    (∀ q ∈ irqs, q.isRx = false) →
    ∃ m, min (slavepktSize pout) (n + irqs.countP SerialIrq.hasRoom) ≤ m ∧
      Replying sent pout m (irqs.foldl (Serial.step handle) c) ∧
      (irqs.foldl (Serial.step handle) c).calls = c.calls
  | [], n, c, h, _, _ => ⟨n, min_le_right _ _, h, rfl⟩
  | q :: irqs, n, c, h, hrun, hrx => by
    obtain ⟨hu, hrun⟩ := hrun
    have hq := hrx q (List.mem_cons_self ..)
    rw [List.foldl_cons, List.countP_cons]
    have hone : ∃ m, n ≤ m ∧ (q.hasRoom = true → min (slavepktSize pout) (n + 1) ≤ m) ∧
        Replying sent pout m (Serial.step handle c q) ∧
          (Serial.step handle c q).calls = c.calls := by
      cases q with
      | rx fifo full => simp [SerialIrq.isRx] at hq
      | tx full =>
        obtain ⟨m, hle, hroom, hm, hc⟩ := h.tx full
        exact ⟨m, hle, fun hf => hroom (by simpa [SerialIrq.hasRoom] using hf), hm, hc⟩
      | audioWrap =>
        obtain ⟨hp, -, hsent, hcalls⟩ := audioWrap_undisturbed hu
        refine ⟨n, le_rfl,
          fun hf => by simp [SerialIrq.hasRoom] at hf, ⟨h.le, hsent.trans h.sent, ?_, ?_⟩, hcalls⟩
        · rw [show (Serial.step handle c .audioWrap).pkt = c.pkt from hp]
          exact h.busy
        · rw [show (Serial.step handle c .audioWrap).pkt = c.pkt from hp]
          exact h.idle
    obtain ⟨m, hle, hroom, hm, hc⟩ := hone
    obtain ⟨m', hle', hm', hc'⟩ :=
      replying_run irqs hm hrun fun q hq => hrx q (List.mem_cons_of_mem _ hq)
    refine ⟨m', ?_, hm', hc'.trans hc⟩
    split_ifs with hf
    · have := hroom hf
      omega
    · omega

/-- From the idle state, a request that arrives in any pieces, the last of
them in the rx interrupt `rx fifo full`: the P2 slave is not called before
that interrupt and once in the whole run, with a buffer that begins with the
request; the bytes sent are the first ones of its reply, at least one more at
every later tx interrupt that finds room; and when the reply is out the state
is idle again. -/
theorem one_request_one_reply {handle : D → Buf → Buf → Buf × D} {c : Serial D} {dev : D}
    (hidle : c.pkt.Idle) (hslave : c.p2slave = some dev) {r : List Byte} (hr : WholePacket r)
    {before after : List SerialIrq} {fifo : List (BitVec 4 × Byte)} {full : ℕ → Bool}
    (hrun : Runs.Along (Serial.step handle) Undisturbed c (before ++ .rx fifo full :: after))
    (hsplit : before.flatMap SerialIrq.received ++ fifo.map Prod.snd = r)
    (hafter : ∀ q ∈ after, q.isRx = false) :
    (before.foldl (Serial.step handle) c).calls = c.calls ∧
      ∃ pin pout, pin.Begins r ∧ pout = (handle dev c.pkt.outb pin).1 ∧
        ((before ++ .rx fifo full :: after).foldl (Serial.step handle) c).calls =
          c.calls ++ [(pin, pout)] ∧
        ∃ n ≤ slavepktSize pout,
          ((before ++ .rx fifo full :: after).foldl (Serial.step handle) c).sent =
              c.sent ++ (replyBytes pout).take n ∧
            min (slavepktSize pout) (after.countP SerialIrq.hasRoom) ≤ n ∧
            (n = slavepktSize pout →
              ((before ++ .rx fifo full :: after).foldl (Serial.step handle) c).pkt.Idle) ∧
            (n < slavepktSize pout →
              ((before ++ .rx fifo full :: after).foldl (Serial.step handle) c).pkt.state =
                .tx) := by
  obtain ⟨hbefore, hu, hrest⟩ := (Runs.along_append _ _).mp hrun
  have hstart : Receiving r [] dev c.pkt.outb c :=
    ⟨hslave, hidle.state, hidle.inpt, fun h => absurd rfl h, hidle.outpt, rfl,
      fun j b hj => by simp at hj⟩
  have hne : fifo.map Prod.snd ≠ [] := fun h => hu.1 (List.map_eq_nil_iff.mp h)
  obtain ⟨hrecv, hsent, hcalls⟩ := receiving_run hr before hstart hbefore hsplit hne
  rw [List.nil_append] at hrecv
  set s := before.foldl (Serial.step handle) c
  obtain ⟨d, hd, hio, hstep⟩ := hrecv.rx hr handle hu ((List.append_nil _).trans hsplit)
  rw [hsplit] at hd hstep
  rw [if_pos le_rfl] at hstep
  obtain ⟨m, hm, hmcalls⟩ := hd.handled handle full
  have hrx : Serial.step handle s (.rx fifo full) = slavepktHandle handle full dev d := hstep
  rw [hrx] at hrest
  obtain ⟨n, hmin, hn, hncalls⟩ := replying_run after hm hrest hafter
  rw [List.foldl_append, List.foldl_cons, hrx]
  refine ⟨hcalls, d.pkt.inb, _, hd.begins, rfl, ?_, n,
    hn.le, ?_, by omega, hn.idle, fun h => (hn.busy h).1⟩
  · rw [hncalls, hmcalls, calls_congr hio, hcalls]
  · rw [hn.sent, sent_congr hio, hsent]

/-- A card whose serial port has just been set up. -/
def Serial.new {D : Type} (dev : D) : Serial D where
  pkt := ⟨fun _ => 0, fun _ => 0, 0, .rx, 0, 0, 0, 0⟩
  p2slave := some dev
  audioWraps := 0
  flags := 0
  io := []

/-- A STOP command, its first byte alone, acknowledged over a FIFO that is
full at first. -/
theorem one_request_one_reply_stop :
    (([SerialIrq.rx [(1, 0x20)] fun _ => false] ++
      SerialIrq.rx [(1, 0x00), (1, 0x20)] (fun _ => true) ::
        [SerialIrq.tx fun i => i == 2, SerialIrq.tx fun _ => false]).foldl
          (Serial.step (p2slaveHandlePkt ⟨0, fun _ => 0⟩))
          (Serial.new (P2Slave.new : P2Slave ℕ))).calls.length = 1 := by
  have hidle : (Serial.new (P2Slave.new : P2Slave ℕ)).pkt.Idle := ⟨rfl, rfl, rfl, rfl, rfl⟩
  have hstop : WholePacket [0x20, 0x00, 0x20] := ⟨0x20, rfl, rfl⟩
  have hrun : Runs.Along (Serial.step (p2slaveHandlePkt ⟨0, fun _ => 0⟩)) Undisturbed
      (Serial.new (P2Slave.new : P2Slave ℕ))
      ([SerialIrq.rx [(1, 0x20)] fun _ => false] ++
        SerialIrq.rx [(1, 0x00), (1, 0x20)] (fun _ => true) ::
        [SerialIrq.tx fun i => i == 2, SerialIrq.tx fun _ => false]) := by
    decide
  obtain ⟨-, pin, pout, -, -, hcalls, -⟩ :=
    one_request_one_reply hidle rfl hstop hrun rfl (by decide)
  rw [hcalls]
  rfl

end AjaDriver
