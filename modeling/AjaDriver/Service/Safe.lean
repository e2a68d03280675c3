/-
# The whole driver stays in bounds

The page tables of the streams and the packet buffers of the serial port are worked
on by the same interrupts, with the client's calls in between. A service may find any
sources at once; in whatever order things come, every index into the tables and every
place in the buffers is in range, nothing behind the buffers is written or read, and
the UART is never left disabled (`driver_safe`).
-/
import AjaDriver.Safety
import AjaDriver.Serial.Buffers
import AjaDriver.Service

namespace AjaDriver

open Function AjaCard

variable {TC : Type} [Timecode TC]

/-- The port with another P2 slave. -/
theorem Serial.Sound.slave {D : Type} {c₀ c : Serial D} (h : c₀.Sound c) (p2slave : Option D) :
    c₀.Sound { c with p2slave := p2slave } :=
  ⟨h.pkt, h.since, h.inb, ⟨h.uart.enabled, h.uart.flags⟩⟩

/-- What a driver keeps: its streams and its port are sound. -/
structure AjaCard.Safe (c₀ : Serial (P2Slave TC)) (a : AjaCard TC) : Prop where
  card : a.card.Sound
  serial : c₀.Sound a.serial
  outb : ∀ i, 18 ≤ i → a.serial.pkt.outb i = c₀.pkt.outb i

/-- Two drivers that differ only in what lies behind the packet buffers. -/
structure AjaCard.Alike (a b : AjaCard TC) : Prop where
  card : b.card = a.card
  serial : a.serial.Same b.serial
  service : b.service = a.service

/-- What is done to the P2 slave does not tell the two apart. -/
theorem Serial.Same.slave {D : Type} {c d : Serial D} (h : c.Same d) (f : Option D → Option D) :
    Serial.Same { c with p2slave := f c.p2slave } { d with p2slave := f d.p2slave } := by
  obtain ⟨inb, outb, io, rfl, hrest⟩ := h
  exact ⟨inb, outb, io, rfl, hrest⟩

variable {c₀ : Serial (P2Slave TC)} {a b : AjaCard TC}

theorem AjaCard.Safe.perform (h : a.Safe c₀) (x : IrqIn TC) (e : ServiceIo) :
    (x.perform a e).Safe c₀ := by
  have hport : ∀ (q : SerialIrq) (e : ServiceIo), (port x q e a).Safe c₀ := fun q _ =>
    ⟨h.card, h.serial.step (p2slaveHandlePkt x.p2) q,
      fun i hi => ((p2slave_inside x.p2).outb a.serial q hi).trans (h.outb i hi)⟩
  cases e with
  | handleFrame => exact ⟨Card.Sound.kept.handleFrame h.card x.frame, h.serial.slave _, h.outb⟩
  | audioWrap => exact hport _ _
  | slavepktTx => exact hport _ _
  | slavepktRx => exact hport _ _
  | count t => exact ⟨h.card, h.serial, h.outb⟩
  | clear preg => exact ⟨h.card, h.serial, h.outb⟩
  | wake t => exact ⟨h.card, h.serial, h.outb⟩

theorem AjaCard.Alike.perform (h : a.Alike b) (hsafe : a.Safe c₀) (x : IrqIn TC) (e : ServiceIo) :
    (x.perform a e).Alike (x.perform b e) := by
  have hdone : ∀ e : ServiceIo, b.service ++ [e] = a.service ++ [e] := fun e => by rw [h.service]
  have hport : ∀ (q : SerialIrq) (e : ServiceIo), (port x q e a).Alike (port x q e b) :=
    fun q e => ⟨h.card, h.serial.step hsafe.serial.pkt (p2slave_inside x.p2) q, hdone e⟩
  cases e with
  | handleFrame =>
    constructor
    · show AjaDriver.handleFrame x.frame b.card = AjaDriver.handleFrame x.frame a.card
      rw [h.card]
    · show Serial.Same _ (AjaCard.handleFrame x.frame b).serial
      unfold AjaCard.handleFrame
      rw [h.card]
      exact h.serial.slave _
    · exact hdone .handleFrame
  | audioWrap => exact hport _ _
  | slavepktTx => exact hport _ _
  | slavepktRx => exact hport _ _
  | count t => exact ⟨h.card, h.serial, hdone (.count t)⟩
  | clear preg => exact ⟨h.card, h.serial, hdone (.clear preg)⟩
  | wake t => exact ⟨h.card, h.serial, hdone (.wake t)⟩

/-- A whole service. -/
theorem AjaCard.Safe.service (x : IrqIn TC) :
    ∀ (l : List ServiceIo) {a b : AjaCard TC}, a.Safe c₀ → a.Alike b →
    (l.foldl x.perform a).Safe c₀ ∧ (l.foldl x.perform a).Alike (l.foldl x.perform b)
  | [], _, _, h, hb => ⟨h, hb⟩
  | e :: l, _, _, h, hb => AjaCard.Safe.service x l (h.perform x e) (hb.perform h x e)

theorem AjaCard.Safe.step (M : ModParams) (h : a.Safe c₀) (hb : a.Alike b) (e : DriverEvent TC) :
    (a.step M e).Safe c₀ ∧ (a.step M e).Alike (b.step M e) := by
  cases e with
  | ioctl op hop =>
    refine ⟨⟨Card.Sound.kept.exec h.card M op, h.serial, h.outb⟩, ?_, hb.serial, hb.service⟩
    show (exec M b.card op).2 = (exec M a.card op).2
    rw [hb.card]
  | deck e he => exact ⟨⟨h.card, h.serial.slave _, h.outb⟩, hb.card, hb.serial.slave _, hb.service⟩
  | irq x =>
    have hservice := AjaCard.Safe.service x x.script h hb
    show ((irqService x a).2).Safe c₀ ∧ ((irqService x a).2).Alike ((irqService x b).2)
    rwa [irqService_eq, irqService_eq]

theorem AjaCard.Safe.run (M : ModParams) : ∀ (events : List (DriverEvent TC))
    {a b : AjaCard TC}, a.Safe c₀ → a.Alike b →
    (a.run M events).Safe c₀ ∧ (a.run M events).Alike (b.run M events)
  | [], _, _, h, hb => ⟨h, hb⟩
  | e :: events, _, _, h, hb =>
    have hone := h.step M hb e
    AjaCard.Safe.run M events hone.1 hone.2

/-- In every run of the driver from an idle port: every index used into the page
tables is in range and the list of pages has no cycle; between two events a request
being received and a reply being sent are inside their buffers, and behind the 32
bytes of the two nothing was written; nothing was read there either, for whatever lies
there the streams, the P2 slave, what the services do and all register writes are the
same; and a UART that was enabled at the start is enabled, or its reset is asked for. -/
theorem driver_safe (M : ModParams) (pcitc : Bool) {serial : Serial (P2Slave TC)}
    (hidle : serial.pkt.Idle) (events : List (DriverEvent TC)) :
    let a := (AjaCard.new pcitc serial).run M events
    (∀ e ∈ a.card.stream.pool.touched, 0 ≤ e.2 ∧ e.2 < e.1.size) ∧
      Intrusive.Acyclic (fun i => (a.card.stream.pool.pagealloc i).next) ∧
      (a.serial.pkt.state = .rx →
        (a.serial.pkt.inpt = 0 ∨ a.serial.pkt.inpt < a.serial.pkt.insize) ∧
          0 ≤ a.serial.pkt.inpt ∧ a.serial.pkt.insize ≤ 18) ∧
      (a.serial.pkt.state = .tx → 0 ≤ a.serial.pkt.outpt ∧
        a.serial.pkt.outpt < a.serial.pkt.outsize ∧ a.serial.pkt.outsize ≤ 18) ∧
      (∀ i, 32 ≤ i →
        a.serial.pkt.inb i = serial.pkt.inb i ∧ a.serial.pkt.outb i = serial.pkt.outb i) ∧
      (∀ serial', serial.Same serial' →
        let b := (AjaCard.new pcitc serial').run M events
        b.card = a.card ∧ b.serial.p2slave = a.serial.p2slave ∧
          b.serial.writes = a.serial.writes ∧ b.service = a.service) ∧
      (serial.Enabled → a.serial.Enabled ∨ a.serial.flags &&& ajaResetUART ≠ 0) := by
  intro a
  have hsound := Serial.Sound.start hidle
  have hstart : (AjaCard.new pcitc serial).Safe serial :=
    ⟨.new _ _, ⟨hsound.pkt, fun hne => absurd hidle.inpt hne, hsound.inb,
      ⟨hsound.uart.enabled, hsound.uart.flags⟩⟩,
      fun _ _ => rfl⟩
  have hrun : ∀ serial', serial.Same serial' →
      a.Safe serial ∧ a.Alike ((AjaCard.new pcitc serial').run M events) := by
    rintro serial' ⟨inb, outb, io, rfl, hrest⟩
    exact AjaCard.Safe.run M events hstart ⟨rfl, ⟨inb, outb, io, rfl, hrest⟩, rfl⟩
  obtain ⟨hcard, hserial, houtb⟩ := (hrun serial (.refl serial)).1
  refine ⟨hcard.pool.touched, hcard.pool.safe.acyclic, fun hrx => ?_, fun htx => ?_, fun i hi => ?_,
    fun serial' hsame => ?_, hserial.uart.enabled⟩
  · exact ⟨(hserial.pkt.rx hrx).2, hserial.pkt.inpt, hserial.pkt.insize⟩
  · obtain ⟨-, hout, hlt⟩ := hserial.pkt.tx htx
    exact ⟨hout, hlt, hserial.pkt.outsize⟩
  · exact ⟨hserial.inb i hi, houtb i (by omega)⟩
  · obtain ⟨hcard', ⟨inb, outb, io, hb, -, -, hwrites⟩, hservice⟩ := (hrun serial' hsame).2
    refine ⟨hcard', ?_, ?_, hservice⟩
    · rw [hb]
    · rw [hb]
      exact hwrites

/-- A request breaks off in a parity error while a frame comes, whatever lies behind
the request's buffer. -/
theorem driver_safe_parity :
    let x : IrqIn ℕ :=
      { pending := fun r => r = viv || r = outputirq || r = uartrxirq
        frame := ⟨false, 0, 0, 0, 0, (0, 0), (0, 0), 0, 0, none⟩
        p2 := ⟨0, fun _ => 0⟩
        fifo := [(1, 0x0F), (5, 0x00)]
        rxFull := fun _ => false
        txFull := fun _ => false }
    let serial := uartEnable (Serial.new (P2Slave.new : P2Slave ℕ)) 1
    let inb : Buf := fun i => if i < 32 then serial.pkt.inb i else 0xEE
    let a := (AjaCard.new false serial).run {} [.irq x]
    let b := (AjaCard.new false { serial with pkt := { serial.pkt with inb := inb } }).run {}
      [.irq x]
    (a.serial.Enabled ∨ a.serial.flags &&& ajaResetUART ≠ 0) ∧ a.serial.pkt.inb 32 = 0 ∧
      b.serial.writes = a.serial.writes := by
  intro x serial inb a b
  have hidle : serial.pkt.Idle := ⟨rfl, rfl, rfl, rfl, rfl⟩
  have hsame : serial.Same { serial with pkt := { serial.pkt with inb := inb } } :=
    ⟨inb, serial.pkt.outb, serial.io, rfl, fun i hi => if_pos hi, fun _ _ => rfl, rfl⟩
  obtain ⟨-, -, -, -, hbehind, hread, henabled⟩ := driver_safe {} false hidle [.irq x]
  exact ⟨henabled (setTo_enable _ 1), (hbehind 32 le_rfl).1, (hread _ hsame).2.2.1⟩

end AjaDriver
