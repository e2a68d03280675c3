/-
# Nothing behind the packet buffers

The packet buffers have 32 bytes. No interrupt writes behind them, whatever comes
in (`Serial.Sound.inb`, `Inside.outb`), and none reads there either: two ports that
differ only in what lies behind their buffers write the same to the card's registers
and leave the P2 slave the same (`Same.step`). What is asked of the P2 slave is
`Inside`, and `p2slaveHandlePkt` has it.
-/
import AjaDriver.P2Slave.Respond
import AjaDriver.Serial.Bounds

namespace AjaDriver

open Function

variable {D : Type}

/-! ### The P2 slave's side -/

/-- A P2 slave that keeps to the packets: it stores a reply of at most 18 bytes at the
start of its buffer, and looks at the first 18 bytes of a request. -/
structure Inside (handle : D → Buf → Buf → Buf × D) : Prop where
  stores : ∀ dev pin, ∃ (l : List Byte) (dev' : D), l.length ≤ 18 ∧
    ∀ pout, handle dev pout pin = (pout.store 0 l, dev')
  looks : ∀ dev pout {pin pin' : Buf}, (∀ i < 18, pin i = pin' i) →
    handle dev pout pin = handle dev pout pin'

theorem p2slave_inside {TC : Type} [Timecode TC] (x : P2SlaveIn) :
    Inside (p2slaveHandlePkt x : P2Slave TC → Buf → Buf → Buf × P2Slave TC) where
  stores dev pin := by
    obtain ⟨l, dev', hl, h⟩ := handle_stores x dev pin
    exact ⟨sealPacket l, dev', hl.whole.length_le.2, h⟩
  looks dev pout pin pin' h :=
    handle_congr x dev pout fun i hi => h i (hi.trans_le (p2slavePktSize_le pin))

/-! ### Writing -/

theorem slavepktTx_outb (full : ℕ → Bool) (c : Serial D) :
    (slavepktTx full c).pkt.outb = c.pkt.outb := by
  unfold slavepktTx
  split_ifs
  · rfl
  · simp only
    split_ifs <;> rfl

variable {handle : D → Buf → Buf → Buf × D}

theorem Inside.handled (h : Inside handle) (full : ℕ → Bool) (dev : D) (c : Serial D) {i : ℕ}
    (hi : 18 ≤ i) :
    (slavepktHandle handle full dev c).pkt.outb i = c.pkt.outb i := by
  obtain ⟨l, dev', hl, hstores⟩ := h.stores dev c.pkt.inb
  unfold slavepktHandle
  rw [slavepktTx_outb, hstores]
  exact store_of_ge l _ (by omega)

/-- No interrupt writes behind the first 18 bytes of the reply's buffer. -/
theorem Inside.outb (h : Inside handle) (c : Serial D) (q : SerialIrq) {i : ℕ} (hi : 18 ≤ i) :
    (Serial.step handle c q).pkt.outb i = c.pkt.outb i := by
  cases q with
  | tx full => exact congrFun (slavepktTx_outb full c) i
  | audioWrap =>
    show (audioWrap c).pkt.outb i = _
    rw [(audioWrap_does c).2.1]
    split_ifs <;> rfl
  | rx fifo full =>
    show (slavepktRx handle fifo full c).pkt.outb i = _
    unfold slavepktRx
    cases c.p2slave with
    | none => rfl
    | some dev =>
      simp only
      split_ifs
      · rfl
      · exact h.handled full dev _ hi
      · rfl
      · exact h.handled full dev _ hi
      · rfl
      · rfl

/-! ### Reading -/

/-- The register something is written to, with the value. -/
def SerialIo.write : SerialIo → Option (Register × ℤ)
  | .prset preg value => some (preg, value)
  | .handlePkt _ _ => none

/-- The registers written, with their values. -/
def Serial.writes (c : Serial D) : List (Register × ℤ) := c.io.filterMap SerialIo.write

/-- Two ports that differ only in what lies behind their buffers. -/
def Serial.Same (c d : Serial D) : Prop :=
  ∃ (inb outb : Buf) (io : List SerialIo),
    d = { c with pkt := { c.pkt with inb := inb, outb := outb }, io := io } ∧
    (∀ i < 32, inb i = c.pkt.inb i) ∧ (∀ i < 32, outb i = c.pkt.outb i) ∧
      io.filterMap SerialIo.write = c.writes

theorem Buf.store_congr : ∀ (l : List Byte) {data data' : Buf} (i : ℕ)
    {n : ℕ}, (∀ j < n, data' j = data j) →
    ∀ j < n, data'.store i l j = data.store i l j
  | [], _, _, _, _, h => h
  | b :: l, data, data', i, n, h => by
    refine Buf.store_congr l (i + 1) fun j hj => ?_
    rcases eq_or_ne j i with rfl | hne
    · rw [update_self, update_self]
    · rw [update_of_ne hne, update_of_ne hne, h j hj]

theorem uartTx_congr (full : ℕ → Bool) {data data' : Buf} :
    ∀ (n i : ℕ), (∀ j < n, data' (i + j) = data (i + j)) →
    uartTx full data' n i = uartTx full data n i
  | 0, _, _ => rfl
  | n + 1, i, h => by
    have hrest : uartTx full data' n (i + 1) = uartTx full data n (i + 1) :=
      uartTx_congr full n (i + 1) fun j hj => by
      have hnext := h (j + 1) (Nat.succ_lt_succ hj)
      rwa [← Nat.add_assoc, Nat.add_right_comm] at hnext
    unfold uartTx
    rw [hrest, show data' i = data i from h 0 (Nat.succ_pos n)]

/-- The same writes after the same writes. -/
theorem writes_congr {c : Serial D} {io : List SerialIo}
    (h : io.filterMap SerialIo.write = c.writes) {l m : List SerialIo}
    (hlm : m.filterMap SerialIo.write = l.filterMap SerialIo.write) :
    (io ++ m).filterMap SerialIo.write = (c.io ++ l).filterMap SerialIo.write := by
  rw [List.filterMap_append, List.filterMap_append, h, hlm]
  rfl

/-- The UART is enabled or disabled with the same writes. -/
theorem writes_enable {io io' : List SerialIo}
    (h : io'.filterMap SerialIo.write = io.filterMap SerialIo.write) {c d : Serial D}
    (hc : c.io = io) (hd : d.io = io') (val : ℤ) :
    (uartEnable d val).io.filterMap SerialIo.write = (uartEnable c val).io.filterMap
      SerialIo.write := by
  unfold uartEnable Serial.prset
  simp only [List.filterMap_append, hc, hd, h]

namespace Serial.Same

theorem refl (c : Serial D) : c.Same c := ⟨_, _, _, rfl, fun _ _ => rfl, fun _ _ => rfl, rfl⟩

/-- A reply inside its buffer is sent the same. -/
theorem tx {c d : Serial D} (h : c.Same d) (hout : 0 ≤ c.pkt.outpt) (hsize : c.pkt.outsize ≤ 32)
    (full : ℕ → Bool) :
    (slavepktTx full c).Same (slavepktTx full d) := by
  obtain ⟨inb, outb, io, rfl, hinb, houtb, hwrites⟩ := h
  have hsent : uartTx full (fun i => outb (c.pkt.outpt.toNat + i))
    (c.pkt.outsize - c.pkt.outpt).toNat 0 =
      uartTx full (fun i => c.pkt.outb (c.pkt.outpt.toNat + i))
        (c.pkt.outsize - c.pkt.outpt).toNat 0 :=
    uartTx_congr full _ 0 fun j hj => houtb _ (by omega)
  unfold slavepktTx
  simp only
  rw [hsent]
  split_ifs
  · exact ⟨inb, outb, io, rfl, hinb, houtb, hwrites⟩
  · exact ⟨inb, outb, _, rfl, hinb, houtb, writes_congr hwrites rfl⟩
  · exact ⟨inb, outb, _, rfl, hinb, houtb, writes_congr hwrites rfl⟩
  · exact ⟨inb, outb, _, rfl, hinb, houtb, writes_congr hwrites rfl⟩

/-- The same request is answered with the same reply. -/
theorem handled {c d : Serial D} (h : c.Same d) (hin : Inside handle) (hout : c.pkt.outpt = 0)
    (full : ℕ → Bool) (dev : D) :
    (slavepktHandle handle full dev c).Same (slavepktHandle handle full dev d) := by
  obtain ⟨inb, outb, io, rfl, hinb, houtb, hwrites⟩ := h
  obtain ⟨l, dev', -, hstores⟩ := hin.stores dev c.pkt.inb
  have hd : handle dev outb inb = (outb.store 0 l, dev') := by
    rw [hin.looks dev outb fun i hi => hinb i (by omega), hstores]
  have hsame := Buf.store_congr l 0 houtb
  have hsize : slavepktSize (outb.store 0 l) = slavepktSize (c.pkt.outb.store 0 l) := by
    unfold slavepktSize
    rw [hsame 0 (by decide)]
  unfold slavepktHandle
  simp only
  refine tx ?_ ?_ ?_ full
  · rw [hd, hstores, hsize]
    exact ⟨inb, _, _, rfl, hinb, hsame, writes_congr hwrites rfl⟩
  · exact hout.ge
  · have hle := slavepktSize_le (handle dev c.pkt.outb c.pkt.inb).1
    show ((slavepktSize _ : ℕ) : ℤ) ≤ 32
    omega

theorem rx {c d : Serial D} (h : c.Same d) (hbounds : c.pkt.Bounded) (hin : Inside handle)
    (fifo : List (BitVec 4 × Byte)) (full : ℕ → Bool) :
    (slavepktRx handle fifo full c).Same (slavepktRx handle fifo full d) := by
  obtain ⟨inb, outb, io, rfl, hinb, houtb, hwrites⟩ := h
  cases hdev : c.p2slave with
  | none =>
    unfold slavepktRx
    simp only [hdev]
    exact ⟨inb, outb, io, by rw [← hdev], hinb, houtb, hwrites⟩
  | some dev =>
    unfold slavepktRx
    simp only [hdev]
    set r := uartRx (32 - c.pkt.inpt).toNat 0 fifo
    have hread := Buf.store_congr r.data c.pkt.inpt.toNat hinb
    have hio : (io ++ r.io).filterMap SerialIo.write = (c.io ++ r.io).filterMap SerialIo.write :=
      writes_congr hwrites rfl
    have hsize : slavepktSize (inb.store c.pkt.inpt.toNat r.data) =
        slavepktSize (c.pkt.inb.store c.pkt.inpt.toNat r.data) := by
      unfold slavepktSize
      rw [hread 0 (by decide)]
    rw [hsize]
    by_cases hstate : c.pkt.state = .tx
    · rw [if_pos hstate, if_pos hstate]
      exact ⟨inb, outb, io, by rw [← hdev], hinb, houtb, hwrites⟩
    have hrx : c.pkt.state = .rx := by
      cases hs : c.pkt.state with
      | rx => rfl
      | tx => exact absurd hs hstate
    have hout := (hbounds.rx hrx).1
    rw [if_neg hstate, if_neg hstate]
    by_cases hgot : r.ret > 0
    · rw [if_pos hgot, if_pos hgot]
      by_cases hfirst : c.pkt.inpt = 0
      · simp only [if_pos hfirst]
        split_ifs
        · refine handled ?_ hin ?_ full dev
          · exact ⟨_, outb, _, rfl, hread, houtb, hio⟩
          · exact hout
        · exact ⟨_, outb, _, rfl, hread, houtb, hio⟩
      · simp only [if_neg hfirst]
        split_ifs
        · refine handled ?_ hin ?_ full dev
          · exact ⟨_, outb, _, rfl, hread, houtb, hio⟩
          · exact hout
        · exact ⟨_, outb, _, rfl, hread, houtb, hio⟩
    · rw [if_neg hgot, if_neg hgot]
      exact ⟨_, outb, _, rfl, hread, houtb, writes_enable hio rfl rfl 0⟩

theorem wrap {c d : Serial D} (h : c.Same d) : (audioWrap c).Same (audioWrap d) := by
  obtain ⟨inb, outb, io, rfl, hinb, houtb, hwrites⟩ := h
  unfold audioWrap
  simp only
  split_ifs
  · exact ⟨inb, outb, _, rfl, hinb, houtb,
      writes_enable (writes_enable hwrites rfl rfl 0) rfl rfl 1⟩
  · exact ⟨inb, outb, _, rfl, hinb, houtb, writes_enable hwrites rfl rfl 0⟩
  · exact ⟨inb, outb, _, rfl, hinb, houtb, writes_enable hwrites rfl rfl 1⟩
  · exact ⟨inb, outb, io, rfl, hinb, houtb, hwrites⟩

/-- No interrupt looks behind the buffers. -/
theorem step {c d : Serial D} (h : c.Same d) (hbounds : c.pkt.Bounded) (hin : Inside handle)
    (q : SerialIrq) :
    (Serial.step handle c q).Same (Serial.step handle d q) := by
  cases q with
  | rx fifo full => exact h.rx hbounds hin fifo full
  | audioWrap => exact h.wrap
  | tx full =>
    cases hstate : c.pkt.state with
    | tx => exact h.tx (hbounds.tx hstate).2.1 (hbounds.outsize.trans (by decide)) full
    | rx =>
      have hstate' : d.pkt.state = .rx := by
        obtain ⟨inb, outb, io, rfl, -⟩ := h
        exact hstate
      show (slavepktTx full c).Same (slavepktTx full d)
      rwa [slavepktTx_rx hstate, slavepktTx_rx hstate']

end Serial.Same

end AjaDriver
