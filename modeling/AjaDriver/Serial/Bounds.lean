/-
# The serial port stays in bounds and recovers

Whatever arrives on the line and in whatever order the interrupts come, the
places in the packet buffers stay inside them (`slavepkt_in_bounds`), and the
driver never leaves the UART disabled: an error sets the flag that has the next
audio wrap enable it again, and three audio wraps in a row end a request that
has stalled (`serial_recovers`). Both are read off one invariant, `Sound`.
-/
import AjaDriver.Serial.Reply
import AjaDriver.P2Slave.Handle

namespace AjaDriver

open Function

variable {D : Type}

/-! ### The UART's registers -/

/-- The value last written to a register, if it was written. -/
def Serial.setTo (c : Serial D) (preg : Register) : Option ℤ :=
  (c.io.filterMap fun
    | .prset p value => if p = preg then some value else none
    | .handlePkt _ _ => none).getLast?

/-- The driver has the UART enabled. -/
def Serial.Enabled (c : Serial D) : Prop :=
  c.setTo uartenabletx = some 1 ∧ c.setTo uartenablerx = some 1

/-- No write to the two registers that enable the UART. -/
def EnableFree (l : List SerialIo) : Prop :=
  ∀ value, .prset uartenabletx value ∉ l ∧ .prset uartenablerx value ∉ l

theorem setTo_append {c d : Serial D} {l : List SerialIo} (h : d.io = c.io ++ l) {preg : Register}
    (hl : ∀ value, SerialIo.prset preg value ∉ l) : d.setTo preg = c.setTo preg := by
  have hnone : (l.filterMap fun
      | .prset p value => if p = preg then some value else none
      | .handlePkt _ _ => none : List ℤ) = [] := by
    apply List.filterMap_eq_nil_iff.mpr
    rintro (⟨p, value⟩ | ⟨pin, pout⟩) he
    · refine if_neg fun hp => hl value ?_
      rwa [← hp]
    · rfl
  unfold Serial.setTo
  rw [h, List.filterMap_append]
  exact congrArg List.getLast? ((congrArg _ hnone).trans (List.append_nil _))

theorem Enabled.append {c d : Serial D} {l : List SerialIo} (h : d.io = c.io ++ l)
    (hl : EnableFree l) :
    d.Enabled ↔ c.Enabled := by
  unfold Serial.Enabled
  rw [setTo_append h fun v => (hl v).1, setTo_append h fun v => (hl v).2]

theorem setTo_enable (c : Serial D) (val : ℤ) :
    (uartEnable c val).setTo uartenabletx = some val ∧
      (uartEnable c val).setTo uartenablerx = some val := by
  unfold uartEnable Serial.prset Serial.setTo
  simp [List.filterMap_append, uartenabletx, uartenablerx]

theorem uartRx_free :
    ∀ (n : ℕ) (i : ℤ) (fifo : List (BitVec 4 × Byte)), EnableFree (uartRx n i fifo).io
  | 0, i, _ => fun _ => ⟨List.not_mem_nil, List.not_mem_nil⟩
  | _ + 1, i, [] => fun _ => ⟨List.not_mem_nil, List.not_mem_nil⟩
  | n + 1, i, (val, byte) :: fifo => by
    unfold uartRx
    split_ifs
    · exact fun _ => ⟨List.not_mem_nil, List.not_mem_nil⟩
    · intro value
      simp [uartrxparityerror, uartenabletx, uartenablerx]
    · intro value
      simp [uartrxoverrun, uartenabletx, uartenablerx]
    · exact uartRx_free n (i + 1) fifo

/-- No more bytes are read and stored than asked for. -/
theorem uartRx_le : ∀ (n : ℕ) (i : ℤ) (fifo : List (BitVec 4 × Byte)), 0 ≤ i →
    (uartRx n i fifo).ret ≤ i + n ∧ (uartRx n i fifo).data.length ≤ n
  | 0, i, _, _ => ⟨by simp [uartRx], le_rfl⟩
  | n + 1, i, [], _ => by
    constructor
    · show i ≤ _
      omega
    · exact Nat.zero_le _
  | n + 1, i, (val, byte) :: fifo, hi => by
    obtain ⟨hret, hlen⟩ := uartRx_le n (i + 1) fifo (by omega)
    unfold uartRx
    split_ifs
    · exact ⟨by simp only; omega, Nat.zero_le _⟩
    · exact ⟨by simp only; omega, Nat.zero_le _⟩
    · exact ⟨by simp only; omega, Nat.zero_le _⟩
    · refine ⟨by simp only; omega, ?_⟩
      simp only [List.length_cons]
      omega

/-! ### The invariant -/

theorem slavepktSize_le (data : Buf) : slavepktSize data ≤ 18 :=
  Nat.add_le_add_right (lowNibble_le _) 3

/-- The places in a packet between interrupts. -/
structure SlavePkt.Bounded (pkt : SlavePkt) : Prop where
  inpt : 0 ≤ pkt.inpt
  insize : pkt.insize ≤ 18
  outsize : pkt.outsize ≤ 18
  rx : pkt.state = .rx → pkt.outpt = 0 ∧ (pkt.inpt = 0 ∨ pkt.inpt < pkt.insize)
  tx : pkt.state = .tx → pkt.inpt ≠ 0 ∧ 0 ≤ pkt.outpt ∧ pkt.outpt < pkt.outsize

theorem SlavePkt.Idle.bounded {pkt : SlavePkt} (h : pkt.Idle) : pkt.Bounded where
  inpt := h.inpt.ge
  insize := by rw [h.insize]; decide
  outsize := by rw [h.outsize]; decide
  rx _ := ⟨h.outpt, .inl h.inpt⟩
  tx hstate := by rw [h.state] at hstate; simp at hstate

theorem slavepktReset_idle (pkt : SlavePkt) : (slavepktReset pkt).Idle := ⟨rfl, rfl, rfl, rfl, rfl⟩

/-- What stays of the card `c₀` apart from the packet: its flags, but for the
one that asks for the UART's reset, and that the UART is enabled, or about to
be. -/
structure Serial.UartKept (c₀ c : Serial D) : Prop where
  enabled : c₀.Enabled → c.Enabled ∨ c.flags &&& ajaResetUART ≠ 0
  flags : c.flags &&& ~~~ajaResetUART = c₀.flags &&& ~~~ajaResetUART

theorem Serial.UartKept.append {c₀ c d : Serial D} (h : c₀.UartKept c) {l : List SerialIo}
    (hio : d.io = c.io ++ l) (hl : EnableFree l) (hflags : d.flags = c.flags) : c₀.UartKept d := by
  constructor
  · rw [Enabled.append hio hl, hflags]
    exact h.enabled
  · rw [hflags]
    exact h.flags

theorem resetFlag_set (flags : BitVec 32) :
    (flags ||| ajaResetUART) &&& ajaResetUART ≠ 0 ∧
      (flags ||| ajaResetUART) &&& ~~~ajaResetUART = flags &&& ~~~ajaResetUART := by
  constructor
  · have hand : (flags ||| ajaResetUART) &&& ajaResetUART = ajaResetUART := by
      ext i
      simp only [BitVec.getElem_and, BitVec.getElem_or]
      cases flags[i] <;> cases ajaResetUART[i] <;> rfl
    rw [hand]
    decide
  · ext i
    simp only [BitVec.getElem_and, BitVec.getElem_or, BitVec.getElem_not]
    cases flags[i] <;> cases ajaResetUART[i] <;> rfl

theorem resetFlag_clear (flags : BitVec 32) :
    (flags &&& ~~~ajaResetUART) &&& ajaResetUART = 0 ∧
      (flags &&& ~~~ajaResetUART) &&& ~~~ajaResetUART = flags &&& ~~~ajaResetUART := by
  constructor <;> ext i
  · simp
  · simp

/-- The way out of an error keeps what is to be kept. -/
theorem Serial.UartKept.disable {c₀ c : Serial D}
    (h : c.flags &&& ~~~ajaResetUART = c₀.flags &&& ~~~ajaResetUART) (d : Serial D)
    (hflags : d.flags = c.flags ||| ajaResetUART) : c₀.UartKept d := by
  obtain ⟨hset, hrest⟩ := resetFlag_set c.flags
  constructor
  · rw [hflags]
    exact fun _ => .inr hset
  · rw [hflags, hrest, h]

/-- What every interrupt keeps, from the card `c₀` on. -/
structure Serial.Sound (c₀ c : Serial D) : Prop where
  pkt : c.pkt.Bounded
  since : c.pkt.inpt ≠ 0 → c.pkt.tstamp ≤ c.audioWraps
  inb : ∀ i, 32 ≤ i → c.pkt.inb i = c₀.pkt.inb i
  uart : c₀.UartKept c

theorem Serial.Sound.start {c₀ : Serial D} (h : c₀.pkt.Idle) : c₀.Sound c₀ where
  pkt := h.bounded
  since hne := absurd h.inpt hne
  inb _ _ := rfl
  uart := ⟨.inl, rfl⟩

/-- With a packet just reset, only the rest is to be looked at. -/
theorem Serial.Sound.of_idle {c₀ c : Serial D} (h : c.pkt.Idle)
    (hinb : ∀ i, 32 ≤ i → c.pkt.inb i = c₀.pkt.inb i) (huart : c₀.UartKept c) : c₀.Sound c where
  pkt := h.bounded
  since hne := absurd h.inpt hne
  inb := hinb
  uart := huart

/-- The packet of a sound card is reset. -/
theorem Serial.Sound.of_reset {c₀ c d : Serial D} (h : c₀.Sound c)
    (hpkt : d.pkt = slavepktReset c.pkt) (huart : c₀.UartKept d) : c₀.Sound d := by
  apply Serial.Sound.of_idle
  · rw [hpkt]
    exact slavepktReset_idle _
  · rw [hpkt]
    exact h.inb
  · exact huart

/-! ### The interrupts -/

theorem slavepktTx_frame (full : ℕ → Bool) (c : Serial D) :
    (slavepktTx full c).flags = c.flags ∧ (slavepktTx full c).audioWraps = c.audioWraps ∧
      (slavepktTx full c).p2slave = c.p2slave := by
  unfold slavepktTx
  split_ifs
  · exact ⟨rfl, rfl, rfl⟩
  · simp only
    split_ifs <;> exact ⟨rfl, rfl, rfl⟩

theorem Serial.Sound.tx {c₀ c : Serial D} (h : c₀.Sound c) (full : ℕ → Bool) :
    c₀.Sound (slavepktTx full c) := by
  cases hstate : c.pkt.state with
  | rx => rwa [slavepktTx_rx hstate]
  | tx =>
    obtain ⟨hne, hout, hlt⟩ := h.pkt.tx hstate
    obtain ⟨n, hn⟩ := Int.eq_ofNat_of_zero_le hout
    obtain ⟨size, hsize⟩ := Int.eq_ofNat_of_zero_le (hout.trans hlt.le)
    obtain ⟨k, hk, -, hio, hpkt⟩ := slavepktTx_busy hstate hn hsize (by omega) full
    obtain ⟨hflags, hwraps, -⟩ := slavepktTx_frame full c
    have hfree : EnableFree (((List.range k).map fun i => c.pkt.outb (n + i)).map fun b =>
        SerialIo.prset uartout b.toNat) := by
      intro value
      simp [uartout, uartenabletx, uartenablerx]
    have huart := h.uart.append hio hfree hflags
    split_ifs at hpkt with hdone
    · exact h.of_reset hpkt huart
    · refine ⟨?_, ?_, ?_, huart⟩ <;> rw [hpkt]
      · refine ⟨h.pkt.inpt, h.pkt.insize, h.pkt.outsize, fun hrx => ?_,
          fun _ => ⟨hne, Int.natCast_nonneg _, ?_⟩⟩
        · rw [hstate] at hrx
          simp at hrx
        · simp only
          omega
      · rw [hwraps]
        exact h.since
      · exact h.inb

/-- The end of a request. -/
theorem Serial.Sound.handle {c₀ c : Serial D} (hinpt : 0 < c.pkt.inpt)
    (hinsize : c.pkt.insize ≤ 18) (houtpt : c.pkt.outpt = 0)
    (hsince : c.pkt.tstamp ≤ c.audioWraps) (hinb : ∀ i, 32 ≤ i → c.pkt.inb i = c₀.pkt.inb i)
    (huart : c₀.UartKept c) (handle : D → Buf → Buf → Buf × D) (full : ℕ → Bool) (dev : D) :
    c₀.Sound (slavepktHandle handle full dev c) := by
  unfold slavepktHandle
  have hsize := slavepktSize_le (handle dev c.pkt.outb c.pkt.inb).1
  have hfree : EnableFree [.handlePkt c.pkt.inb (handle dev c.pkt.outb c.pkt.inb).1] := by
    intro value
    simp
  apply Serial.Sound.tx
  refine ⟨⟨hinpt.le, hinsize, by simp only; exact_mod_cast hsize, fun hrx => ?_, fun _ => ?_⟩,
    fun _ => hsince, hinb, ?_⟩
  · simp at hrx
  · refine ⟨hinpt.ne', houtpt.ge, ?_⟩
    show c.pkt.outpt < ((slavepktSize _ : ℕ) : ℤ)
    unfold slavepktSize
    omega
  · exact huart.append rfl hfree rfl

theorem Serial.Sound.rx {c₀ c : Serial D} (h : c₀.Sound c) (handle : D → Buf → Buf → Buf × D)
    (fifo : List (BitVec 4 × Byte)) (full : ℕ → Bool) : c₀.Sound
      (slavepktRx handle fifo full c) := by
  unfold slavepktRx
  cases c.p2slave with
  | none => exact h
  | some dev =>
    simp only
    by_cases hstate : c.pkt.state = .tx
    · rwa [if_pos hstate]
    have hrx : c.pkt.state = .rx := by
      cases hs : c.pkt.state with
      | rx => rfl
      | tx => exact absurd hs hstate
    obtain ⟨hout, hin⟩ := h.pkt.rx hrx
    have hle18 := h.pkt.insize
    have hpos := h.pkt.inpt
    obtain ⟨hret, hlen⟩ := uartRx_le (32 - c.pkt.inpt).toNat 0 fifo le_rfl
    have hfree := uartRx_free (32 - c.pkt.inpt).toNat 0 fifo
    rw [if_neg hstate]
    set r := uartRx (32 - c.pkt.inpt).toNat 0 fifo
    set inb := c.pkt.inb.store c.pkt.inpt.toNat r.data
    -- what is read goes to places before 32
    have hinb : ∀ i, 32 ≤ i → inb i = c₀.pkt.inb i := fun i hi =>
      (store_of_ge r.data c.pkt.inb (by omega)).trans (h.inb i hi)
    by_cases hgot : r.ret > 0
    · rw [if_pos hgot]
      set insize : ℤ := if c.pkt.inpt = 0 then (slavepktSize inb : ℤ) else c.pkt.insize with hinsize
      have hpkt : (if c.pkt.inpt = 0 then
            { c.pkt with tstamp := c.audioWraps, inb := inb, insize := (slavepktSize inb : ℤ) }
          else { c.pkt with tstamp := c.audioWraps, inb := inb } : SlavePkt) =
          { c.pkt with tstamp := c.audioWraps, inb := inb, insize := insize } := by
        rw [hinsize]
        split_ifs <;> rfl
      have hsize : insize ≤ 18 := by
        rw [hinsize]
        split_ifs
        · exact_mod_cast slavepktSize_le inb
        · exact hle18
      rw [hpkt]
      simp only
      split_ifs with hfull
      · apply Serial.Sound.handle
        · show 0 < c.pkt.inpt + r.ret
          omega
        · exact hsize
        · exact hout
        · exact le_rfl
        · exact hinb
        · exact h.uart.append rfl hfree rfl
      · refine ⟨⟨by simp only; omega, hsize, h.pkt.outsize, fun _ => ⟨hout, .inr (not_le.mp hfull)⟩,
          fun htx => ?_⟩, fun _ => le_rfl, hinb, h.uart.append rfl hfree rfl⟩
        exact absurd htx hstate
    · rw [if_neg hgot]
      exact .of_idle (slavepktReset_idle _) hinb (.disable h.uart.flags _ rfl)

/-- An audio wrap: a stalled packet is dropped, and the UART is enabled again if
that was asked for, before or by this. -/
theorem audioWrap_does (c : Serial D) :
    (audioWrap c).audioWraps = c.audioWraps + 1 ∧
      (audioWrap c).pkt =
        (if c.pkt.inpt ≠ 0 ∧ c.pkt.tstamp + 2 < c.audioWraps + 1 then slavepktReset c.pkt
          else c.pkt) ∧
      (audioWrap c).flags &&& ajaResetUART = 0 ∧
      (audioWrap c).flags &&& ~~~ajaResetUART = c.flags &&& ~~~ajaResetUART ∧
      (c.Enabled ∨ c.flags &&& ajaResetUART ≠ 0 → (audioWrap c).Enabled) := by
  obtain ⟨hset, hrest⟩ := resetFlag_set c.flags
  unfold audioWrap
  simp only
  by_cases hlate : c.pkt.inpt ≠ 0 ∧ c.pkt.tstamp + 2 < c.audioWraps + 1
  · rw [if_pos hlate, if_pos hlate]
    simp only
    rw [if_pos hset]
    obtain ⟨hclear, hkeep⟩ := resetFlag_clear (c.flags ||| ajaResetUART)
    exact ⟨rfl, rfl, hclear, hkeep.trans hrest, fun _ => setTo_enable _ 1⟩
  · rw [if_neg hlate, if_neg hlate]
    obtain ⟨hclear, hkeep⟩ := resetFlag_clear c.flags
    by_cases hflag : c.flags &&& ajaResetUART ≠ 0
    · rw [if_pos hflag]
      exact ⟨rfl, rfl, hclear, hkeep, fun _ => setTo_enable _ 1⟩
    · rw [if_neg hflag]
      exact ⟨rfl, rfl, not_not.mp hflag, rfl, fun h => h.resolve_right hflag⟩

theorem Serial.Sound.wrap {c₀ c : Serial D} (h : c₀.Sound c) : c₀.Sound (audioWrap c) := by
  obtain ⟨hwraps, hpkt, -, hflags, henabled⟩ := audioWrap_does c
  have huart : c₀.UartKept (audioWrap c) :=
    ⟨fun h0 => .inl (henabled (h.uart.enabled h0)), hflags.trans h.uart.flags⟩
  split_ifs at hpkt
  · exact h.of_reset hpkt huart
  · refine ⟨?_, ?_, ?_, huart⟩ <;> rw [hpkt]
    · exact h.pkt
    · rw [hwraps]
      intro hne
      have := h.since hne
      omega
    · exact h.inb

theorem Serial.Sound.step {c₀ c : Serial D} (h : c₀.Sound c) (handle : D → Buf → Buf → Buf × D) :
    ∀ q, c₀.Sound (Serial.step handle c q)
  | .rx fifo full => h.rx handle fifo full
  | .tx full => h.tx full
  | .audioWrap => h.wrap

theorem Serial.Sound.run {c₀ c : Serial D} (h : c₀.Sound c) (handle : D → Buf → Buf → Buf × D)
    (irqs : List SerialIrq) : c₀.Sound (irqs.foldl (Serial.step handle) c) := by
  induction irqs generalizing c with
  | nil => exact h
  | cons q irqs ih => exact ih (h.step handle q)

/-! ### What the P2 slave keeps -/

/-- What every call of the P2 slave keeps, every interrupt keeps. -/
theorem p2slave_step {handle : D → Buf → Buf → Buf × D} {P : D → Prop}
    (hP : ∀ dev pout pin, P dev → P (handle dev pout pin).2) {c : Serial D}
    (h : ∀ dev, c.p2slave = some dev → P dev) (q : SerialIrq) :
    ∀ dev, (Serial.step handle c q).p2slave = some dev → P dev := by
  cases q with
  | tx full =>
    rw [show (Serial.step handle c (.tx full)).p2slave =
      c.p2slave from (slavepktTx_frame full c).2.2]
    exact h
  | audioWrap =>
    have hsame : (Serial.step handle c .audioWrap).p2slave = c.p2slave := by
      show (audioWrap c).p2slave = c.p2slave
      unfold audioWrap uartEnable Serial.prset
      simp only
      split_ifs <;> rfl
    rw [hsame]
    exact h
  | rx fifo full =>
    show ∀ dev, (slavepktRx handle fifo full c).p2slave = some dev → P dev
    unfold slavepktRx
    cases hslave : c.p2slave with
    | none => simp [hslave]
    | some dev =>
      have hkept : ∀ d, some dev = some d → P d := by
        rw [← hslave]
        exact h
      have hhandled : ∀ (c' : Serial D) (d : D), (slavepktHandle handle full dev c').p2slave =
          some d → P d := by
        intro c' d hd
        unfold slavepktHandle at hd
        rw [(slavepktTx_frame ..).2.2] at hd
        obtain rfl := Option.some.inj hd
        exact hP _ _ _ (h dev hslave)
      simp only
      split_ifs
      · exact h
      · exact hhandled _
      · exact hkept
      · exact hhandled _
      · exact hkept
      · exact hkept

theorem p2slave_run {handle : D → Buf → Buf → Buf × D} {P : D → Prop}
    (hP : ∀ dev pout pin, P dev → P (handle dev pout pin).2) (irqs : List SerialIrq) {c : Serial D}
    (h : ∀ dev, c.p2slave = some dev → P dev) :
    ∀ dev, (irqs.foldl (Serial.step handle) c).p2slave = some dev → P dev := by
  induction irqs generalizing c with
  | nil => exact h
  | cons q irqs ih => exact ih (p2slave_step hP h q)

/-! ### Bounds and recovery -/

/-- The number of bytes `aja_slavepkt_rx` asks of `aja_uart_rx`. -/
def SlavePkt.room (pkt : SlavePkt) : ℤ := 32 - pkt.inpt

/-- Whatever arrives, between interrupts: a request being received is shorter
than its size, what is asked for fits the buffer, a reply being sent has bytes
left, and nothing is written behind the 32 bytes of the buffer or of a record
of the P2 slave's ring, to which no packet of more bytes is copied. -/
theorem slavepkt_in_bounds {TC : Type} [Timecode TC] (x : P2Slave TC → P2SlaveIn)
    {c₀ : Serial (P2Slave TC)} (hidle : c₀.pkt.Idle) (irqs : List SerialIrq) :
    let c := irqs.foldl (Serial.step fun dev => p2slaveHandlePkt (x dev) dev) c₀
    (c.pkt.state = .rx →
      (c.pkt.inpt = 0 ∨ c.pkt.inpt < c.pkt.insize) ∧ c.pkt.insize ≤ 18 ∧
        0 < c.pkt.room ∧ 0 ≤ c.pkt.inpt ∧ c.pkt.inpt + c.pkt.room ≤ 32) ∧
    (c.pkt.state = .tx → 0 ≤ c.pkt.outpt ∧ c.pkt.outpt < c.pkt.outsize ∧ c.pkt.outsize ≤ 18) ∧
    (∀ i, 32 ≤ i → c.pkt.inb i = c₀.pkt.inb i) ∧
    ∀ dev, c.p2slave = some dev →
      (∀ pin l, forwarded dev pin = some l → l.length ≤ 32) ∧
        ∃ dev₀, c₀.p2slave = some dev₀ ∧
          ∀ i j, 32 ≤ j → (dev.buffer.buf i).data j = (dev₀.buffer.buf i).data j := by
  intro c
  have hsound : c₀.Sound c := (Serial.Sound.start hidle).run _ irqs
  refine ⟨fun hrx => ?_, fun htx => ?_, hsound.inb, fun dev hdev => ⟨fun pin l hl => ?_, ?_⟩⟩
  · have hin := (hsound.pkt.rx hrx).2
    have hsize := hsound.pkt.insize
    have hpos := hsound.pkt.inpt
    unfold SlavePkt.room
    exact ⟨hin, hsize, by omega, hpos, by omega⟩
  · obtain ⟨-, hout, hlt⟩ := hsound.pkt.tx htx
    exact ⟨hout, hlt, hsound.pkt.outsize⟩
  · have hlen := forwarded_length hl
    omega
  · let P (d : P2Slave TC) : Prop := ∃ dev₀, c₀.p2slave = some dev₀ ∧
      ∀ i j, 32 ≤ j → (d.buffer.buf i).data j = (dev₀.buffer.buf i).data j
    have hP : ∀ d pout pin, P d → P (p2slaveHandlePkt (x d) d pout pin).2 := by
      rintro d pout pin ⟨dev₀, h0, hkept⟩
      exact ⟨dev₀, h0, fun i j hj => (handle_record (x d) d pout pin i (by omega)).trans
        (hkept i j hj)⟩
    exact p2slave_run hP irqs (fun dev₀ h0 => ⟨dev₀, h0, fun _ _ _ => rfl⟩) dev hdev

/-- A request announces 18 bytes and breaks off in a parity error. -/
theorem slavepkt_in_bounds_parity :
    0 < (([SerialIrq.rx [(1, 0x0F), (1, 0x00)] fun _ => false, .rx [(5, 0x00)] fun _ => false].foldl
      (Serial.step fun dev => p2slaveHandlePkt ⟨0, fun _ => 0⟩ dev)
      (Serial.new (P2Slave.new : P2Slave ℕ))).pkt.room) := by
  have hbounds := slavepkt_in_bounds (fun _ => ⟨0, fun _ => 0⟩)
    (show (Serial.new (P2Slave.new : P2Slave ℕ)).pkt.Idle from ⟨rfl, rfl, rfl, rfl, rfl⟩)
    [SerialIrq.rx [(1, 0x0F), (1, 0x00)] fun _ => false, .rx [(5, 0x00)] fun _ => false]
  exact (hbounds.1 (by decide)).2.2.1

/-- After three audio wraps the packet is idle, whatever came before. -/
theorem Serial.Sound.three_wraps {c₀ c : Serial D} (h : c₀.Sound c) :
    (audioWrap (audioWrap (audioWrap c))).pkt.state = .rx ∧
      (audioWrap (audioWrap (audioWrap c))).pkt.inpt = 0 := by
  obtain ⟨hw1, hp1, -⟩ := audioWrap_does c
  obtain ⟨hw2, hp2, -⟩ := audioWrap_does (audioWrap c)
  obtain ⟨-, hp3, -⟩ := audioWrap_does (audioWrap (audioWrap c))
  have hidle : (audioWrap (audioWrap (audioWrap c))).pkt.inpt = 0 := by
    -- a packet still there at the third wrap is the one from before the first
    rw [hp3]
    split_ifs with hlate
    · rfl
    by_contra hne
    refine hlate ⟨hne, ?_⟩
    have hsame2 : (audioWrap (audioWrap c)).pkt = (audioWrap c).pkt := by
      rw [hp2]
      refine if_neg fun hl => hne ?_
      rw [hp2, if_pos hl]
      rfl
    rw [hsame2] at hne ⊢
    have hsame1 : (audioWrap c).pkt = c.pkt := by
      rw [hp1]
      refine if_neg fun hl => hne ?_
      rw [hp1, if_pos hl]
      rfl
    rw [hsame1] at hne ⊢
    have hsince := h.since hne
    omega
  have hsound := h.wrap.wrap.wrap
  refine ⟨?_, hidle⟩
  cases hs : (audioWrap (audioWrap (audioWrap c))).pkt.state with
  | rx => rfl
  | tx => exact absurd hidle (hsound.pkt.tx hs).1

/-- The UART enabled at the start is never disabled without the flag that asks
for its reset, and three audio wraps in a row leave the port idle and enabled
and the flag clear; no other flag changes. -/
theorem serial_recovers {handle : D → Buf → Buf → Buf × D} {c₀ : Serial D} (hidle : c₀.pkt.Idle)
    (henabled : c₀.Enabled) (irqs : List SerialIrq) :
    let c := irqs.foldl (Serial.step handle) c₀
    let d := [.audioWrap, .audioWrap, .audioWrap].foldl (Serial.step handle) c
    (¬ c.Enabled → c.flags &&& ajaResetUART ≠ 0) ∧
      c.flags &&& ~~~ajaResetUART = c₀.flags &&& ~~~ajaResetUART ∧
      d.pkt.state = .rx ∧ d.pkt.inpt = 0 ∧ d.flags &&& ajaResetUART = 0 ∧ d.Enabled := by
  intro c d
  have hsound : c₀.Sound c := (Serial.Sound.start hidle).run handle irqs
  obtain ⟨hstate, hinpt⟩ := hsound.three_wraps
  have htwo := hsound.wrap.wrap
  obtain ⟨-, -, hclear, -, henable⟩ := audioWrap_does (audioWrap (audioWrap c))
  exact ⟨(hsound.uart.enabled henabled).resolve_left, hsound.uart.flags, hstate, hinpt, hclear,
    henable (htwo.uart.enabled henabled)⟩

/-- An overrun, from a port whose UART is enabled. -/
theorem serial_recovers_overrun :
    ([SerialIrq.rx [(9, 0x00)] fun _ => false].foldl
      (Serial.step (p2slaveHandlePkt ⟨0, fun _ => 0⟩))
        (uartEnable (Serial.new (P2Slave.new : P2Slave ℕ)) 1)).flags &&& ~~~ajaResetUART = 0 := by
  obtain ⟨-, hflags, -⟩ := @serial_recovers _ (p2slaveHandlePkt ⟨0, fun _ => 0⟩) _
    (show (uartEnable (Serial.new (P2Slave.new : P2Slave ℕ))
      1).pkt.Idle from ⟨rfl, rfl, rfl, rfl, rfl⟩)
    (setTo_enable _ 1) [SerialIrq.rx [(9, 0x00)] fun _ => false]
  exact hflags

end AjaDriver
