/-
# The timecode on the P2 line

The frame's timecode goes from the frame handler into the P2 slave's data, and from
there into the replies to the requests for the current time. Between the frame and
the request anything may come: interrupts, the client's calls, other requests, calls
of the P2 slave's device file. Unless one of these sets the current time by hand, the
reply carries the wire timecode of the card's frame (`timecode_sensed`).
-/
import AjaDriver.Service

namespace AjaDriver

open Function AjaCard

variable {TC : Type} [Timecode TC] {a : AjaCard TC}

/-- The card has a P2 slave, which has the wire timecode of the card's frame. -/
structure AjaCard.Told (a : AjaCard TC) : Prop where
  p2slave : a.card.p2slave = true
  tc : (a.serial.p2slave.map fun dev => dev.data.tc) =
    some (Timecode.makevalidwire a.card.frame.time.tcg)

/-- The card has a P2 slave. -/
structure AjaCard.HasSlave (a : AjaCard TC) : Prop where
  p2slave : a.card.p2slave = true
  dev : a.serial.p2slave.isSome = true

/-- The port leaves the data of the device alone. -/
theorem data_port (x : IrqIn TC) (c : Serial (P2Slave TC)) (q : SerialIrq) :
    ((Serial.step (p2slaveHandlePkt x.p2) c q).p2slave.map fun dev => dev.data) =
      c.p2slave.map fun dev => dev.data := by
  have hdata :
    ∀ {d : Serial (P2Slave TC)}, (d.p2slave = c.p2slave ∨ ∃ dev pout pin, c.p2slave = some dev ∧
      d.p2slave = some (p2slaveHandlePkt x.p2 dev pout pin).2) →
      (d.p2slave.map fun dev => dev.data) = c.p2slave.map fun dev => dev.data := by
    rintro d (hsame | ⟨dev, pout, pin, hc, hd⟩)
    · rw [hsame]
    · rw [hc, hd, Option.map_some, Option.map_some, data_handle]
  cases q with
  | rx fifo full => exact hdata (slavepktRx_frame _ fifo full c).2
  | tx full => exact hdata (.inl (slavepktTx_frame full c).2.2)
  | audioWrap =>
    refine hdata (.inl ?_)
    show (AjaDriver.audioWrap c).p2slave = _
    unfold AjaDriver.audioWrap uartEnable Serial.prset
    simp only
    split_ifs <;> rfl

/-- What the frame handler gives the P2 slave. -/
theorem given_handleFrame (irq : FrameIrq TC) (hp : a.card.p2slave = true) :
    ((AjaDriver.handleFrame irq a.card).messages.drop a.card.messages.length).filterMap setTc =
      if irq.field then []
        else [Timecode.makevalidwire (AjaDriver.handleFrame irq a.card).frame.time.tcg] := by
  have hheard := (hears_handleFrame irq a.card).heard
  rw [hheard.messages, List.drop_left, setTc_heard {} hp]
  cases hf : irq.field with
  | true => rw [if_neg (by simp [Op.isNewFrame, hf]), if_pos rfl]
  | false =>
    rw [if_pos (by simp [Op.isNewFrame, hf]), if_neg Bool.false_ne_true]
    rfl

/-- The P2 slave after the frame handler. -/
theorem slave_handleFrame (irq : FrameIrq TC) (hp : a.card.p2slave = true) :
    (AjaCard.handleFrame irq a).serial.p2slave = if irq.field then a.serial.p2slave
      else a.serial.p2slave.map fun dev =>
      p2slaveSet dev
        (.timecode .tc
          (Timecode.makevalidwire (AjaDriver.handleFrame irq a.card).frame.time.tcg)) := by
  have hslave : (AjaCard.handleFrame irq a).serial.p2slave = a.serial.p2slave.map fun dev =>
      (((AjaDriver.handleFrame irq a.card).messages.drop a.card.messages.length).filterMap
        setTc).foldl
        (fun dev tc => p2slaveSet dev (.timecode .tc tc)) dev := rfl
  rw [hslave, given_handleFrame irq hp]
  cases irq.field with
  | true => exact Option.map_id'
  | false => rfl

/-- A new frame tells the P2 slave. -/
theorem told_newFrame (h : a.HasSlave) {irq : FrameIrq TC} (hf : irq.field = false) :
    (AjaCard.handleFrame irq a).Told := by
  obtain ⟨dev, hdev⟩ := Option.isSome_iff_exists.mp h.dev
  refine ⟨(hears_handleFrame irq a.card).heard.p2slave.trans h.p2slave, ?_⟩
  rw [slave_handleFrame irq h.p2slave, hf, if_neg Bool.false_ne_true, hdev]
  rfl

theorem AjaCard.Told.hasSlave (h : a.Told) : a.HasSlave where
  p2slave := h.p2slave
  dev := by
    have hsome := congrArg Option.isSome h.tc
    rwa [Option.isSome_map] at hsome

/-- Nothing in a service takes the timecode back. -/
theorem AjaCard.Told.perform (h : a.Told) (x : IrqIn TC) (e : ServiceIo) :
    (x.perform a e).Told := by
  have hport : ∀ (q : SerialIrq) (e : ServiceIo), (port x q e a).Told := fun q e => by
    refine ⟨h.p2slave, ?_⟩
    have hdata := congrArg (Option.map P2SlaveData.tc) (data_port x a.serial q)
    rw [Option.map_map, Option.map_map] at hdata
    exact hdata.trans h.tc
  cases e with
  | handleFrame =>
    cases hf : x.frame.field with
    | false => exact told_newFrame h.hasSlave hf
    | true =>
      obtain ⟨hheard, -, hshown⟩ := hears_handleFrame x.frame a.card
      refine ⟨hheard.p2slave.trans h.p2slave, ?_⟩
      have hframe :
          (AjaDriver.handleFrame x.frame a.card).frame.time.tcg = a.card.frame.time.tcg := by
        rw [hshown, Op.shown, if_pos hf]
      show Option.map _ (AjaCard.handleFrame x.frame a).serial.p2slave =
        some (Timecode.makevalidwire (AjaDriver.handleFrame x.frame a.card).frame.time.tcg)
      rw [slave_handleFrame x.frame h.p2slave, hf, if_pos rfl, hframe]
      exact h.tc
  | audioWrap => exact hport _ _
  | slavepktTx => exact hport _ _
  | slavepktRx => exact hport _ _
  | count t => exact ⟨h.p2slave, h.tc⟩
  | clear preg => exact ⟨h.p2slave, h.tc⟩
  | wake t => exact ⟨h.p2slave, h.tc⟩

theorem AjaCard.HasSlave.perform (h : a.HasSlave) (x : IrqIn TC) (e : ServiceIo) :
    (x.perform a e).HasSlave := by
  have hport : ∀ (q : SerialIrq) (e : ServiceIo), (port x q e a).HasSlave := fun q e => by
    refine ⟨h.p2slave, ?_⟩
    have hdata := congrArg Option.isSome (data_port x a.serial q)
    rw [Option.isSome_map, Option.isSome_map] at hdata
    exact hdata.trans h.dev
  cases e with
  | handleFrame =>
    refine ⟨(hears_handleFrame x.frame a.card).heard.p2slave.trans h.p2slave, ?_⟩
    show (Option.map _ a.serial.p2slave).isSome = true
    rw [Option.isSome_map]
    exact h.dev
  | audioWrap => exact hport _ _
  | slavepktTx => exact hport _ _
  | slavepktRx => exact hport _ _
  | count t => exact ⟨h.p2slave, h.dev⟩
  | clear preg => exact ⟨h.p2slave, h.dev⟩
  | wake t => exact ⟨h.p2slave, h.dev⟩

theorem AjaCard.Told.script (x : IrqIn TC) : ∀ (l : List ServiceIo) {a : AjaCard TC}, a.Told →
    (l.foldl x.perform a).Told
  | [], _, h => h
  | e :: l, _, h => AjaCard.Told.script x l (h.perform x e)

/-- A service with a new frame in it. -/
theorem told_script (x : IrqIn TC) (hf : x.frame.field = false) :
    ∀ (l : List ServiceIo) {a : AjaCard TC}, a.HasSlave →
    .handleFrame ∈ l → (l.foldl x.perform a).Told
  | [], _, _, hmem => absurd hmem List.not_mem_nil
  | e :: l, a, h, hmem => by
    rcases List.mem_cons.mp hmem with rfl | hmem
    · exact AjaCard.Told.script x l (told_newFrame h hf)
    · exact told_script x hf l (h.perform x e) hmem

/-- The field and the value an event sets in the P2 slave by hand. -/
def DriverEvent.given : DriverEvent TC → Option (P2Set TC)
  | .deck e _ => e.given
  | _ => none

theorem AjaCard.HasSlave.step (M : ModParams) (h : a.HasSlave) (e : DriverEvent TC) :
    (a.step M e).HasSlave := by
  cases e with
  | ioctl op hop => exact ⟨(hears_exec M a.card op).heard.p2slave.trans h.p2slave, h.dev⟩
  | deck e he =>
    refine ⟨h.p2slave, ?_⟩
    show (Option.map _ a.serial.p2slave).isSome = true
    rw [Option.isSome_map]
    exact h.dev
  | irq x =>
    have hscript : ∀ (l : List ServiceIo) {a : AjaCard TC}, a.HasSlave →
        (l.foldl x.perform a).HasSlave := by
      intro l
      induction l with
      | nil => exact fun h => h
      | cons e l ih => exact fun h => ih (h.perform x e)
    show ((irqService x a).2).HasSlave
    rw [irqService_eq]
    exact hscript _ h

theorem AjaCard.Told.step (M : ModParams) (h : a.Told) {e : DriverEvent TC}
    (he : ∀ s, e.given = some s → s.sets .tc = false) : (a.step M e).Told := by
  cases e with
  | ioctl op hop =>
    obtain ⟨hheard, -, hshown⟩ := hears_exec M a.card op
    have hsame : (exec M a.card op).2.frame.time.tcg = a.card.frame.time.tcg := by
      rw [hshown]
      cases op with
      | frame irq => cases hop
      | _ => rfl
    refine ⟨hheard.p2slave.trans h.p2slave, ?_⟩
    show _ = some (Timecode.makevalidwire (exec M a.card op).2.frame.time.tcg)
    rw [hsame]
    exact h.tc
  | deck e hrequest =>
    refine ⟨h.p2slave, Eq.trans ?_ h.tc⟩
    show Option.map (fun dev => dev.data.tc) (Option.map e.step a.serial.p2slave) = _
    rw [Option.map_map]
    have hone : ((fun dev : P2Slave TC => dev.data.tc) ∘ e.step) = fun dev => dev.data.tc := by
      funext dev
      show (e.step dev).data.tc = _
      rw [data_step]
      cases hs : e.given with
      | none => rfl
      | some s => exact get_set_of_not (he s hs) dev.data
    rw [hone]
  | irq x =>
    show ((irqService x a).2).Told
    rw [irqService_eq]
    exact AjaCard.Told.script x _ h

/-- A driver with a P2 slave, an interrupt with a new frame in it, and any events
before and after it that do not set the current time by hand: a request for the
current time is answered with the wire timecode of the card's frame. -/
theorem timecode_sensed (M : ModParams) (pcitc : Bool) {serial : Serial (P2Slave TC)}
    (hslave : serial.p2slave.isSome = true) (before after : List (DriverEvent TC)) {x : IrqIn TC}
    (hframe : .handleFrame ∈ x.script) (hf : x.frame.field = false)
    (hafter : ∀ e ∈ after, ∀ s, e.given = some s → s.sets .tc = false) {q : TcSense}
    (hq : q ∈ tcSenses) (htc : q.field = .tc) (y : P2SlaveIn) (pout : Buf) {pin : Buf}
    (hpin : pin.Begins (sealPacket q.request)) :
    let a := (AjaCard.new pcitc serial).run M (before ++ .irq x :: after)
    ∃ dev, a.serial.p2slave = some dev ∧
      packetBytes (p2slaveHandlePkt y dev pout pin).1 =
        sealPacket (q.header ++ q.words (Timecode.makevalidwire a.card.frame.time.tcg)) := by
  intro a
  have hbefore : ∀ (l : List (DriverEvent TC)) {b : AjaCard TC}, b.HasSlave →
      (b.run M l).HasSlave := by
    intro l
    induction l with
    | nil => exact fun h => h
    | cons e l ih => exact fun h => ih (h.step M e)
  have hrest : ∀ (l : List (DriverEvent TC)) {b : AjaCard TC}, b.Told →
    (∀ e ∈ l, ∀ s, e.given = some s → s.sets .tc = false) →
      (b.run M l).Told := by
    intro l
    induction l with
    | nil => exact fun h _ => h
    | cons e l ih =>
      intro b h hl
      rw [List.forall_mem_cons] at hl
      exact ih (h.step M hl.1) hl.2
  have htold : a.Told := by
    have hsplit : a = (((AjaCard.new pcitc serial).run M before).step M (.irq x)).run M after := by
      show List.foldl _ _ _ = _
      rw [List.foldl_append]
      rfl
    rw [hsplit]
    refine hrest after ?_ hafter
    show ((irqService x _).2).Told
    rw [irqService_eq]
    exact told_script x hf _ (hbefore before ⟨hslave, hslave⟩) hframe
  obtain ⟨dev, hdev⟩ := Option.isSome_iff_exists.mp htold.hasSlave.dev
  have hdata := htold.tc
  rw [hdev, Option.map_some, Option.some.injEq] at hdata
  obtain ⟨-, hbody⟩ := tcSenses_shape q hq
  have hget : q.field.get dev.data = Timecode.makevalidwire a.card.frame.time.tcg := by
    rw [htc]
    exact hdata
  refine ⟨dev, hdev, ?_⟩
  rw [(handle_respond y dev hbody.whole pout hpin).1, (respond_sense hq y dev).2, hget]

/-- An output interrupt comes together with a bus error, then userspace sets the in
point and the generator's timecode; the line asks for the current time. -/
theorem timecode_sensed_output :
    let x : IrqIn ℕ :=
      { pending := fun r => r = buserrorirq || r = viv || r = outputirq
        frame := ⟨false, 0, 0, 0, 0, (0, 0), (0, 0), 0, 0, none⟩
        p2 := ⟨0, fun _ => 0⟩
        fifo := []
        rxFull := fun _ => false
        txFull := fun _ => false }
    let before : List (DriverEvent ℕ) :=
      [.ioctl (.timecodeSet 41) rfl, .ioctl (.timecodeSetflags ajaTcgRunning) rfl]
    let after : List (DriverEvent ℕ) :=
      [.deck (.ioctl 0 (some (.timecode .tcIn 7))) rfl, .ioctl (.timecodeSet 99) rfl]
    ∃ dev, ((AjaCard.new false (Serial.new P2Slave.new)).run {}
      (before ++ .irq x :: after)).serial.p2slave = some dev ∧
      packetBytes (p2slaveHandlePkt ⟨0, fun _ => 0⟩ dev (fun _ => 0)
        (Buf.store (fun _ => 0) 0 [0x61, 0x0C, 0x01, 0x6E])).1 =
        sealPacket [0x74, 0x04, 42, 0, 0, 0] := by
  intro x before after
  have hq : (⟨[0x61, 0x0C, 0x01], [0x74, 0x04], .tc, true, false⟩ : TcSense) ∈ tcSenses := by decide
  have hpin : Buf.Begins (Buf.store (fun _ => 0) 0 [0x61, 0x0C, 0x01, 0x6E])
      (sealPacket [0x61, 0x0C, 0x01]) := begins_store _ _
  have hafter : ∀ e ∈ after, ∀ s, e.given = some s → s.sets .tc = false := by
    simp [after, DriverEvent.given, DeckEvent.given, P2Set.sets]
  have hslave : (Serial.new (P2Slave.new : P2Slave ℕ)).p2slave.isSome = true := rfl
  have hframe : ServiceIo.handleFrame ∈ x.script := by decide
  obtain ⟨dev, hdev, hreply⟩ :=
    timecode_sensed {} false hslave before after hframe rfl hafter hq rfl ⟨0, fun _ => 0⟩
      (fun _ => 0) hpin
  have htcg :
      ((AjaCard.new false (Serial.new P2Slave.new)).run {}
        (before ++ .irq x :: after)).card.frame.time.tcg = 42 := by
    decide +kernel
  rw [htcg] at hreply
  exact ⟨dev, hdev, hreply⟩

end AjaDriver
