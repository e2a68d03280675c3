/-
# The interrupt service

One interrupt line tells the driver that something happened on the card. The
service reads the status registers one after the other, in a fixed order, and for
each that is up counts the interrupt, takes it down, does what belongs to it and
wakes its sleepers; all but the bus error's and the DMA engines' are looked at only
while `ajareg_viv` is up. `AjaCard` is the card with its streams, its serial port
and its counts together, and a driver's run interleaves interrupts, the client's
calls and the P2 slave's device file in any order.
-/
import AjaDriver.Ltc
import AjaDriver.P2Slave.Data
import AjaDriver.Serial.Bounds

namespace AjaDriver

open Function

/-! ### The registers of the service -/

def buserrorirq : Register := ⟨0xC0, 31, 0x80000000⟩
def buserrorirqclear : Register := ⟨0xC4, 31, 0x80000000⟩
def dma1irq : Register := ⟨0xC0, 27, 0x08000000⟩
def dma1irqclear : Register := ⟨0xC4, 27, 0x08000000⟩
def dma2irq : Register := ⟨0xC0, 28, 0x10000000⟩
def dma2irqclear : Register := ⟨0xC4, 28, 0x10000000⟩
def dma3irq : Register := ⟨0xC0, 29, 0x20000000⟩
def dma3irqclear : Register := ⟨0xC4, 29, 0x20000000⟩
def dma4irq : Register := ⟨0xC0, 30, 0x40000000⟩
def dma4irqclear : Register := ⟨0xC4, 30, 0x40000000⟩
def viv : Register := ⟨0xC0, 26, 0x04000000⟩
def outputirq : Register := ⟨0x54, 31, 0x80000000⟩
def outputirqclear : Register := ⟨0x50, 31, 0x80000000⟩
def input1irq : Register := ⟨0x54, 30, 0x40000000⟩
def input1irqclear : Register := ⟨0x50, 30, 0x40000000⟩
def input2irq : Register := ⟨0x54, 29, 0x20000000⟩
def input2irqclear : Register := ⟨0x50, 29, 0x20000000⟩
def audiowrapirq : Register := ⟨0x54, 25, 0x02000000⟩
def audiowrapirqclear : Register := ⟨0x50, 25, 0x02000000⟩
def uarttxirq : Register := ⟨0x54, 24, 0x01000000⟩
def uarttxirqclear : Register := ⟨0x50, 24, 0x01000000⟩
def uartrxirq : Register := ⟨0x54, 15, 0x00008000⟩
def uartrxirqclear : Register := ⟨0x50, 15, 0x00008000⟩
def audioirq : Register := ⟨0x54, 28, 0x10000000⟩
def audioirqclear : Register := ⟨0x50, 28, 0x10000000⟩
def aplaywrapirq : Register := ⟨0x54, 27, 0x08000000⟩
def aplaywrapirqclear : Register := ⟨0x50, 27, 0x08000000⟩
def acapwrapirq : Register := ⟨0x54, 26, 0x04000000⟩
def acapwrapirqclear : Register := ⟨0x50, 26, 0x04000000⟩

/-! ### The card -/

/-- `enum aja_interrupt`. -/
inductive IrqType
  | busError
  | output
  | input1
  | input2
  | audioWrap
  | dma1
  | dma2
  | dma3
  | dma4
  | uartTx
  | uartRx
  deriving DecidableEq, Repr

/-- What the service does, in order: it counts, clears, calls a handler, wakes. -/
inductive ServiceIo
  | count (t : IrqType)
  | clear (preg : Register)
  | handleFrame
  | audioWrap
  | slavepktTx
  | slavepktRx
  | wake (t : IrqType)
  deriving DecidableEq, Repr

/-- `aja_card_t`: the streams, the serial port with the P2 slave, the counts of the
interrupts, and what the service did. -/
structure AjaCard (TC : Type) where
  card : Card TC
  serial : Serial (P2Slave TC)
  irqcount : IrqType → ℤ
  service : List ServiceIo

/-- What a service finds: the status registers that read other than 0, and what the
handlers read. -/
structure IrqIn (TC : Type) where
  pending : Register → Bool
  frame : FrameIrq TC
  p2 : P2SlaveIn
  fifo : List (BitVec 4 × Byte)
  rxFull : ℕ → Bool
  txFull : ℕ → Bool

variable {TC : Type}

namespace AjaCard

/-- Something the service does. -/
def does (a : AjaCard TC) (e : ServiceIo) : AjaCard TC := { a with service := a.service ++ [e] }

/-- `card->irqcount[t]++`. -/
def count (a : AjaCard TC) (t : IrqType) : AjaCard TC :=
  { a.does (.count t) with irqcount := update a.irqcount t (a.irqcount t + 1) }

/-- `p2slave_set_tc`, once for every timecode the card gave away. -/
def giveTc (a : AjaCard TC) (tcs : List TC) : AjaCard TC :=
  { a with
    serial := { a.serial with
      p2slave := a.serial.p2slave.map fun dev =>
        tcs.foldl (fun dev tc => p2slaveSet dev (.timecode .tc tc)) dev } }

variable [Timecode TC]

/-- `aja_handle_frame`, with what it does to the P2 slave. -/
def handleFrame (irq : FrameIrq TC) (a : AjaCard TC) : AjaCard TC :=
  let card := AjaDriver.handleFrame irq a.card
  { a.giveTc ((card.messages.drop a.card.messages.length).filterMap setTc) with card := card }.does
    .handleFrame

/-- An interrupt of the serial port. -/
def port (x : IrqIn TC) (q : SerialIrq) (e : ServiceIo) (a : AjaCard TC) : AjaCard TC :=
  { a with serial := Serial.step (p2slaveHandlePkt x.p2) a.serial q }.does e

end AjaCard

open AjaCard

/-- An interrupt that is only counted. -/
def plainIrq (t : IrqType) (clear : Register) (a : AjaCard TC) : AjaCard TC :=
  ((a.count t).does (.clear clear)).does (.wake t)

/-- An interrupt that nothing is done with. -/
def legacyIrq (clear : Register) (a : AjaCard TC) : AjaCard TC := a.does (.clear clear)

section Service

variable [Timecode TC]

/-- The output interrupt. -/
def outputIrq (x : IrqIn TC) (a : AjaCard TC) : AjaCard TC :=
  (AjaCard.handleFrame x.frame ((a.count .output).does (.clear outputirqclear))).does
    (.wake .output)

/-- The audio wrap; `Serial.audioWraps` is the count. -/
def audioWrapIrq (x : IrqIn TC) (a : AjaCard TC) : AjaCard TC :=
  (port x .audioWrap .audioWrap ((a.count .audioWrap).does (.clear audiowrapirqclear))).does
    (.wake .audioWrap)

/-- The UART sends; its interrupt is cleared after the handler. -/
def uartTxIrq (x : IrqIn TC) (a : AjaCard TC) : AjaCard TC :=
  ((port x (.tx x.txFull) .slavepktTx (a.count .uartTx)).does (.clear uarttxirqclear)).does
    (.wake .uartTx)

/-- The UART received. -/
def uartRxIrq (x : IrqIn TC) (a : AjaCard TC) : AjaCard TC :=
  ((port x (.rx x.fifo x.rxFull) .slavepktRx (a.count .uartRx)).does (.clear uartrxirqclear)).does
    (.wake .uartRx)

/-- One status register: `handled`, and the card. -/
def service (x : IrqIn TC) (irq : Register) (f : AjaCard TC → AjaCard TC) (s : Bool × AjaCard TC) :
    Bool × AjaCard TC :=
  if x.pending irq then (true, f s.2) else s

/-- The registers that count only while `ajareg_viv` is up. -/
def serviceStatus (x : IrqIn TC) (s : Bool × AjaCard TC) : Bool × AjaCard TC :=
  let s := service x outputirq (outputIrq x) s
  let s := service x input1irq (plainIrq .input1 input1irqclear) s
  let s := service x input2irq (plainIrq .input2 input2irqclear) s
  let s := service x audiowrapirq (audioWrapIrq x) s
  let s := service x uarttxirq (uartTxIrq x) s
  let s := service x uartrxirq (uartRxIrq x) s
  let s := service x audioirq (legacyIrq audioirqclear) s
  let s := service x aplaywrapirq (legacyIrq aplaywrapirqclear) s
  service x acapwrapirq (legacyIrq acapwrapirqclear) s

/-- `aja_irq_service`: whether the interrupt was the card's, and the card after. -/
def irqService (x : IrqIn TC) (a : AjaCard TC) : Bool × AjaCard TC :=
  let s := (false, a)
  let s := service x buserrorirq (plainIrq .busError buserrorirqclear) s
  let s := service x dma4irq (plainIrq .dma4 dma4irqclear) s
  let s := service x dma3irq (plainIrq .dma3 dma3irqclear) s
  let s := service x dma2irq (plainIrq .dma2 dma2irqclear) s
  let s := service x dma1irq (plainIrq .dma1 dma1irqclear) s
  if x.pending viv then serviceStatus x s else s

end Service

/-! ### The sources -/

/-- A source of interrupts: its status register, its clear register, the type it is
counted as, whether `ajareg_viv` must be up, and what is done with it. -/
structure IrqSource where
  irq : Register
  clear : Register
  type : Option IrqType
  status : Bool
  done : List ServiceIo
  deriving DecidableEq, Repr

def plainSource (t : IrqType) (irq clear : Register) (status : Bool) : IrqSource :=
  ⟨irq, clear, some t, status, [.count t, .clear clear, .wake t]⟩

def legacySource (irq clear : Register) : IrqSource := ⟨irq, clear, none, true, [.clear clear]⟩

/-- The sources that are always looked at, in the order of the service. -/
def dmaSources : List IrqSource :=
  [plainSource .busError buserrorirq buserrorirqclear false,
    plainSource .dma4 dma4irq dma4irqclear false,
    plainSource .dma3 dma3irq dma3irqclear false, plainSource .dma2 dma2irq dma2irqclear false,
    plainSource .dma1 dma1irq dma1irqclear false]

/-- The sources of the status register. -/
def statusSources : List IrqSource :=
  [⟨outputirq, outputirqclear, some .output, true,
    [.count .output, .clear outputirqclear, .handleFrame, .wake .output]⟩,
    plainSource .input1 input1irq input1irqclear true,
      plainSource .input2 input2irq input2irqclear true,
    ⟨audiowrapirq, audiowrapirqclear, some .audioWrap, true,
      [.count .audioWrap, .clear audiowrapirqclear, .audioWrap, .wake .audioWrap]⟩,
    ⟨uarttxirq, uarttxirqclear, some .uartTx, true,
      [.count .uartTx, .slavepktTx, .clear uarttxirqclear, .wake .uartTx]⟩,
    ⟨uartrxirq, uartrxirqclear, some .uartRx, true,
      [.count .uartRx, .slavepktRx, .clear uartrxirqclear, .wake .uartRx]⟩,
    legacySource audioirq audioirqclear, legacySource aplaywrapirq aplaywrapirqclear,
      legacySource acapwrapirq acapwrapirqclear]

def irqSources : List IrqSource := dmaSources ++ statusSources

/-- Is the source seen? -/
def IrqIn.sees (x : IrqIn TC) (s : IrqSource) : Bool :=
  x.pending s.irq && (!s.status || x.pending viv)

/-- The sources seen, in order. -/
def IrqIn.seen (x : IrqIn TC) : List IrqSource := irqSources.filter x.sees

/-- What a service does, from the first to the last. -/
def IrqIn.script (x : IrqIn TC) : List ServiceIo := x.seen.flatMap IrqSource.done

variable [Timecode TC]

/-- One thing of it done to the card. -/
def IrqIn.perform (x : IrqIn TC) (a : AjaCard TC) : ServiceIo → AjaCard TC
  | .count t => a.count t
  | .clear preg => a.does (.clear preg)
  | .handleFrame => AjaCard.handleFrame x.frame a
  | .audioWrap => port x .audioWrap .audioWrap a
  | .slavepktTx => port x (.tx x.txFull) .slavepktTx a
  | .slavepktRx => port x (.rx x.fifo x.rxFull) .slavepktRx a
  | .wake t => a.does (.wake t)

/-- One source in its turn. -/
def serviceSource (x : IrqIn TC) (s : Bool × AjaCard TC) (src : IrqSource) : Bool × AjaCard TC :=
  if x.sees src then (true, src.done.foldl x.perform s.2) else s

theorem serviceSources_eq (x : IrqIn TC) : ∀ (l : List IrqSource) (s : Bool × AjaCard TC),
    l.foldl (serviceSource x) s = (s.1 || l.any x.sees,
      ((l.filter x.sees).flatMap IrqSource.done).foldl x.perform s.2)
  | [], s => by simp
  | src :: l, s => by
    rw [List.foldl_cons, serviceSources_eq x l, serviceSource]
    cases h : x.sees src with
    | true =>
      rw [if_pos rfl, List.filter_cons_of_pos h, List.flatMap_cons, List.foldl_append,
        List.any_cons, h]
      simp
    | false =>
      rw [if_neg Bool.false_ne_true, List.filter_cons_of_neg (by simp [h]), List.any_cons, h,
        Bool.false_or]

/-- Sources none of which is seen. -/
theorem serviceSources_none (x : IrqIn TC) {l : List IrqSource}
    (h : ∀ src ∈ l, x.sees src = false) (s : Bool × AjaCard TC) :
    l.foldl (serviceSource x) s = s := by
  have hfilter : l.filter x.sees = [] := List.filter_eq_nil_iff.mpr fun src hsrc => by
    simp [h src hsrc]
  rw [serviceSources_eq, hfilter, List.any_eq_false.mpr fun src hsrc => by simp [h src hsrc]]
  simp

/-- The service is its script. -/
theorem irqService_eq (x : IrqIn TC) (a : AjaCard TC) :
    irqService x a = (irqSources.any x.sees, x.script.foldl x.perform a) := by
  have hsources : irqService x a = irqSources.foldl (serviceSource x) (false, a) := by
    have hdma : ∀ {src : IrqSource} {f : AjaCard TC → AjaCard TC}
      (s : Bool × AjaCard TC), src.status = false →
        (∀ b, src.done.foldl x.perform b = f b) →
          service x src.irq f s = serviceSource x s src := by
      intro src f s hstatus hf
      unfold service serviceSource IrqIn.sees
      rw [hf, hstatus]
      simp
    have hviv : x.pending viv = true → ∀ {src : IrqSource} {f : AjaCard TC → AjaCard TC}
      (s : Bool × AjaCard TC), (∀ b, src.done.foldl x.perform b = f b) →
          service x src.irq f s = serviceSource x s src := by
      intro hp src f s hf
      unfold service serviceSource IrqIn.sees
      rw [hf, hp]
      simp
    unfold irqService irqSources
    rw [List.foldl_append]
    have hearly : dmaSources.foldl (serviceSource x) (false, a) =
        service x dma1irq (plainIrq .dma1 dma1irqclear)
          (service x dma2irq (plainIrq .dma2 dma2irqclear)
          (service x dma3irq (plainIrq .dma3 dma3irqclear)
            (service x dma4irq (plainIrq .dma4 dma4irqclear)
            (service x buserrorirq (plainIrq .busError buserrorirqclear) (false, a))))) := by
      simp only [dmaSources, List.foldl_cons, List.foldl_nil]
      iterate 5 rw [← hdma _ rfl fun _ => rfl]
      rfl
    rw [hearly]
    simp only
    cases hp : x.pending viv with
    | true =>
      rw [if_pos rfl, serviceStatus]
      simp only [statusSources, List.foldl_cons, List.foldl_nil]
      iterate 9 rw [← hviv hp _ fun _ => rfl]
      rfl
    | false =>
      have hnone : ∀ src ∈ statusSources, x.sees src = false := by
        intro src hsrc
        have hstatus : ∀ src ∈ statusSources, src.status = true := by decide
        unfold IrqIn.sees
        rw [hstatus src hsrc, hp]
        simp
      rw [if_neg Bool.false_ne_true, serviceSources_none x hnone]
  rw [hsources, serviceSources_eq]
  rfl

/-! ### The driver's runs -/

/-- The operation is an interrupt. -/
def Op.isFrame : Op TC → Bool
  | .frame _ => true
  | _ => false

/-- The event is a packet from the line. -/
def DeckEvent.isRequest : DeckEvent TC → Bool
  | .request _ _ _ => true
  | _ => false

/-- What happens to the driver: a client's call, an interrupt, or a call of the P2
slave's device file. Frames and packets come with the interrupts only. -/
inductive DriverEvent (TC : Type)
  | ioctl (op : Op TC) (h : op.isFrame = false)
  | irq (x : IrqIn TC)
  | deck (e : DeckEvent TC) (h : e.isRequest = false)

/-- One event. -/
def AjaCard.step (M : ModParams) (a : AjaCard TC) : DriverEvent TC → AjaCard TC
  | .ioctl op _ => { a with card := (exec M a.card op).2 }
  | .irq x => (irqService x a).2
  | .deck e _ => { a with serial := { a.serial with p2slave := a.serial.p2slave.map e.step } }

/-- The driver after the events, in order. -/
def AjaCard.run (M : ModParams) (a : AjaCard TC) (events : List (DriverEvent TC)) : AjaCard TC :=
  events.foldl (AjaCard.step M) a

/-- A driver that serves a card, with the P2 slave `dev` if there is one. -/
def AjaCard.new (pcitc : Bool) (serial : Serial (P2Slave TC)) : AjaCard TC where
  card := Card.new pcitc serial.p2slave.isSome
  serial := { serial with audioWraps := 0 }
  irqcount := fun _ => 0
  service := []

/-! ### What an interrupt is to the streams -/

/-- The operation of the streams something in the service is. -/
def IrqIn.op (x : IrqIn TC) : ServiceIo → Option (Op TC)
  | .handleFrame => some (.frame x.frame)
  | _ => none

/-- The operations of the streams an event is. -/
def DriverEvent.ops : DriverEvent TC → List (Op TC)
  | .ioctl op _ => [op]
  | .irq x => x.script.filterMap x.op
  | .deck _ _ => []

/-- The sources seen in an event. -/
def DriverEvent.seen : DriverEvent TC → List IrqSource
  | .irq x => x.seen
  | _ => []

/-- The service of an event. -/
def DriverEvent.script : DriverEvent TC → List ServiceIo
  | .irq x => x.script
  | _ => []

theorem card_perform (M : ModParams) (x : IrqIn TC) : ∀ (l : List ServiceIo) (a : AjaCard TC),
    (l.foldl x.perform a).card = a.card.run M (l.filterMap x.op)
  | [], _ => rfl
  | e :: l, a => by
    rw [List.foldl_cons, card_perform M x l]
    cases e <;> rfl

theorem service_perform (x : IrqIn TC) : ∀ (l : List ServiceIo) (a : AjaCard TC),
    (l.foldl x.perform a).service = a.service ++ l
  | [], _ => (List.append_nil _).symm
  | e :: l, a => by
    have hone : (x.perform a e).service = a.service ++ [e] := by cases e <;> rfl
    rw [List.foldl_cons, service_perform x l, hone, List.append_assoc]
    rfl

theorem irqcount_perform (x : IrqIn TC) (t : IrqType) : ∀ (l : List ServiceIo) (a : AjaCard TC),
    (l.foldl x.perform a).irqcount t = a.irqcount t + l.count (.count t)
  | [], _ => (add_zero _).symm
  | e :: l, a => by
    have hone : (x.perform a e).irqcount t = a.irqcount t + if e = .count t then 1 else 0 := by
      cases e with
      | count t' =>
        show update a.irqcount t' (a.irqcount t' + 1) t = _
        by_cases ht : t = t'
        · subst ht
          rw [update_self, if_pos rfl]
        · rw [update_of_ne ht, if_neg (fun h => ht (ServiceIo.count.inj h).symm), add_zero]
      | _ => exact (add_zero _).symm
    rw [List.foldl_cons, irqcount_perform x t l, hone, List.count_cons]
    by_cases he : e = .count t
    · rw [if_pos he, if_pos (beq_iff_eq.mpr he)]
      omega
    · rw [if_neg he, if_neg (mt beq_iff_eq.mp he)]
      omega

/-- The end of a request keeps the count of audio wraps; its reply comes from the device. -/
theorem slavepktRx_frame {D : Type} (handle : D → Buf → Buf → Buf × D)
    (fifo : List (BitVec 4 × Byte)) (full : ℕ → Bool) (c : Serial D) :
    (slavepktRx handle fifo full c).audioWraps = c.audioWraps ∧
      ((slavepktRx handle fifo full c).p2slave = c.p2slave ∨
        ∃ dev pout pin, c.p2slave = some dev ∧
        (slavepktRx handle fifo full c).p2slave = some (handle dev pout pin).2) := by
  cases hdev : c.p2slave with
  | none =>
    have hsame : slavepktRx handle fifo full c = c := by
      unfold slavepktRx
      rw [hdev]
    rw [hsame]
    exact ⟨rfl, .inl hdev⟩
  | some dev =>
    unfold slavepktRx
    rw [hdev]
    simp only
    split_ifs
    · exact ⟨rfl, .inl hdev⟩
    iterate 2
      · unfold slavepktHandle
        obtain ⟨-, hwraps, hslave⟩ := slavepktTx_frame full _
        rw [hwraps, hslave]
        exact ⟨rfl, .inr ⟨dev, _, _, rfl, rfl⟩⟩
      · exact ⟨rfl, .inl rfl⟩
    · exact ⟨rfl, .inl rfl⟩

theorem audioWraps_perform (x : IrqIn TC) (a : AjaCard TC) (e : ServiceIo) :
    (x.perform a e).serial.audioWraps = a.serial.audioWraps + if e = .audioWrap then 1 else 0 := by
  cases e with
  | audioWrap =>
    show (AjaDriver.audioWrap a.serial).audioWraps = _
    unfold AjaDriver.audioWrap uartEnable Serial.prset
    simp only
    split_ifs <;> rfl
  | slavepktTx => exact ((slavepktTx_frame x.txFull a.serial).2.1).trans (add_zero _).symm
  | slavepktRx => exact (slavepktRx_frame _ _ _ _).1.trans (add_zero _).symm
  | _ => exact (add_zero _).symm

/-! ### Every interrupt accounted for -/

section Script

omit [Timecode TC]

/-- Is an interrupt of the type seen? -/
def IrqIn.counts (x : IrqIn TC) (t : IrqType) : Bool :=
  irqSources.any fun src => src.type = some t && x.sees src

/-- The register the service takes down. -/
def ServiceIo.cleared : ServiceIo → Option Register
  | .clear preg => some preg
  | _ => none

/-- After every count of a type its sleepers are woken. -/
def Woken : List ServiceIo → Prop
  | [] => True
  | .count t :: l => .wake t ∈ l ∧ Woken l
  | _ :: l => Woken l

instance Woken.decidable : ∀ l : List ServiceIo, Decidable (Woken l)
  | [] => instDecidableTrue
  | .count t :: l =>
    have := Woken.decidable l
    inferInstanceAs (Decidable (.wake t ∈ l ∧ Woken l))
  | .clear _ :: l | .handleFrame :: l | .audioWrap :: l | .slavepktTx :: l | .slavepktRx :: l
    | .wake _ :: l =>
    Woken.decidable l

theorem Woken.append : ∀ {l m : List ServiceIo}, Woken l → Woken m → Woken (l ++ m)
  | [], _, _, hm => hm
  | .count _ :: _, _, hl, hm => ⟨List.mem_append_left _ hl.1, hl.2.append hm⟩
  | .clear _ :: l, _, hl, hm | .handleFrame :: l, _, hl, hm | .audioWrap :: l, _, hl, hm
    | .slavepktTx :: l, _, hl, hm
  | .slavepktRx :: l, _, hl, hm | .wake _ :: l, _, hl, hm => Woken.append (l := l) hl hm

theorem Woken.flatMap {α : Type} {f : α → List ServiceIo} :
    ∀ {l : List α}, (∀ b ∈ l, Woken (f b)) → Woken (l.flatMap f)
  | [], _ => trivial
  | b :: l, h => by
    rw [List.flatMap_cons]
    exact (h b (List.mem_cons_self ..)).append
      (Woken.flatMap fun c hc => h c (List.mem_cons_of_mem _ hc))

theorem seen_sub (x : IrqIn TC) : ∀ src ∈ x.seen, src ∈ irqSources :=
  fun _ h => (List.mem_filter.mp h).1

theorem script_woken (x : IrqIn TC) : Woken x.script :=
  have hall : ∀ src ∈ irqSources, Woken src.done := by decide
  .flatMap fun src hsrc => hall src (seen_sub x src hsrc)

/-- The service takes down what it saw, each once. -/
theorem script_cleared (x : IrqIn TC) :
    x.script.filterMap ServiceIo.cleared = x.seen.map IrqSource.clear := by
  have hall : ∀ src ∈ irqSources, src.done.filterMap ServiceIo.cleared = [src.clear] := by decide
  unfold IrqIn.script
  rw [List.filterMap_flatMap, List.map_eq_flatMap]
  exact List.flatMap_congr fun src hsrc => hall src (seen_sub x src hsrc)

/-- A source counts its own type. -/
theorem done_counts (src : IrqSource) (hsrc : src ∈ irqSources) (t : IrqType) :
    src.done.count (.count t) = if src.type = some t then 1 else 0 := by
  have hall :
    ∀ src ∈ irqSources, ∀ t ∈ [IrqType.busError, .output, .input1, .input2, .audioWrap, .dma1,
      .dma2, .dma3, .dma4,
      .uartTx, .uartRx], src.done.count (.count t) = if src.type = some t then 1 else 0 := by decide
  exact hall src hsrc t (by cases t <;> decide)

/-- No type has two sources, so a service counts it at most once. -/
theorem script_counts (x : IrqIn TC) (t : IrqType) :
    x.script.count (.count t) = if x.counts t then 1 else 0 := by
  have hlist : ∀ l : List IrqSource, (∀ src ∈ l, src ∈ irqSources) →
    (l.filterMap IrqSource.type).Nodup →
      ((l.filter x.sees).flatMap IrqSource.done).count (.count t) =
        if (l.any fun src => src.type = some t && x.sees src) then 1 else 0 := by
    intro l
    induction l with
    | nil => exact fun _ _ => rfl
    | cons src l ih =>
      intro hl hnodup
      rw [List.forall_mem_cons] at hl
      have hrest : (l.filterMap IrqSource.type).Nodup := by
        rw [List.filterMap_cons] at hnodup
        split at hnodup
        · exact hnodup
        · exact (List.nodup_cons.mp hnodup).2
      have hih := ih hl.2 hrest
      rw [List.any_cons]
      cases hsees : x.sees src with
      | false =>
        rw [List.filter_cons_of_neg (by simp [hsees]), hih, Bool.and_false, Bool.false_or]
      | true =>
        rw [List.filter_cons_of_pos hsees, List.flatMap_cons, List.count_append,
          done_counts src hl.1, hih, Bool.and_true]
        by_cases ht : src.type = some t
        · have hnone : (l.any fun src => src.type = some t && x.sees src) = false := by
            rw [List.any_eq_false]
            intro s hs hand
            rw [Bool.and_eq_true, decide_eq_true_iff] at hand
            rw [List.filterMap_cons, ht] at hnodup
            exact (List.nodup_cons.mp hnodup).1 (List.mem_filterMap.mpr ⟨s, hs, hand.1⟩)
          rw [if_pos ht, hnone, decide_eq_true ht]
          rfl
        · rw [if_neg ht, decide_eq_false ht, Bool.false_or, Nat.zero_add]
  exact hlist irqSources (fun _ h => h) (by decide)

end Script

/-- The count of an event. -/
def DriverEvent.counts (t : IrqType) : DriverEvent TC → Bool
  | .irq x => x.counts t
  | _ => false

/-- One event: what it is to the streams, to the counts and to the service. -/
theorem step_accounts (M : ModParams) (a : AjaCard TC) (e : DriverEvent TC) :
    (a.step M e).card = a.card.run M e.ops ∧ (a.step M e).service = a.service ++ e.script ∧
      (∀ t, (a.step M e).irqcount t = a.irqcount t + if e.counts t then 1 else 0) ∧
      (a.step M e).serial.audioWraps = a.serial.audioWraps + if e.counts .audioWrap then 1
        else 0 := by
  cases e with
  | ioctl op h =>
    exact ⟨rfl, (List.append_nil _).symm, fun _ => (add_zero _).symm, (add_zero _).symm⟩
  | deck e h => exact ⟨rfl, (List.append_nil _).symm, fun _ => (add_zero _).symm, (add_zero _).symm⟩
  | irq x =>
    have hstep : a.step M (.irq x) = x.script.foldl x.perform a := by
      show (irqService x a).2 = _
      rw [irqService_eq]
    have hcount : ∀ t, ((x.script.count (.count t) : ℕ) : ℤ) = if x.counts t then 1 else 0 := by
      intro t
      rw [script_counts]
      split_ifs <;> rfl
    have hwraps : ∀ (l : List ServiceIo) (a : AjaCard TC),
        (l.foldl x.perform a).serial.audioWraps = a.serial.audioWraps + l.count .audioWrap := by
      intro l
      induction l with
      | nil => exact fun _ => (add_zero _).symm
      | cons e l ih =>
        intro a
        rw [List.foldl_cons, ih, audioWraps_perform, List.count_cons]
        by_cases he : e = .audioWrap
        · rw [if_pos he, if_pos (beq_iff_eq.mpr he)]
          omega
        · rw [if_neg he, if_neg (mt beq_iff_eq.mp he)]
          omega
    -- every audio wrap that is counted is handled
    have hwrap : x.script.count .audioWrap = x.script.count (.count .audioWrap) := by
      have hall : ∀ src ∈ irqSources, src.done.count .audioWrap =
          src.done.count (.count .audioWrap) := by decide
      unfold IrqIn.script
      rw [List.count_flatMap, List.count_flatMap]
      exact congrArg List.sum (List.map_congr_left fun src hsrc => hall src (seen_sub x src hsrc))
    rw [hstep]
    refine ⟨card_perform M x _ a, service_perform x _ a, fun t => ?_, ?_⟩
    · rw [irqcount_perform, hcount]
      rfl
    · rw [hwraps, hwrap, hcount]
      rfl

/-- The service says that the interrupt was the card's exactly when it saw a source. -/
theorem handled_iff (x : IrqIn TC) (a : AjaCard TC) : (irqService x a).1 = true ↔ x.seen ≠ [] := by
  rw [irqService_eq, List.any_eq_true, Ne, IrqIn.seen, List.filter_eq_nil_iff]
  push Not
  rfl

/-- In every run of the driver, from a card just probed: the streams are as after
the run of the stream engine alone that has a frame for every output interrupt seen;
each type was counted once for every service that saw its source, and its sleepers
woken after each count; what was taken down is what was seen, each once and in the
order of the sources; the serial port's clock is the count of audio wraps; and the
next interrupt is taken for the card's exactly when a source is seen. -/
theorem irqs_accounted (M : ModParams) (pcitc : Bool) (serial : Serial (P2Slave TC))
    (events : List (DriverEvent TC)) :
    let a := (AjaCard.new pcitc serial).run M events
    a.card = (Card.new pcitc serial.p2slave.isSome).run M (events.flatMap DriverEvent.ops) ∧
      (∀ t, a.irqcount t = events.countP (DriverEvent.counts t)) ∧ Woken a.service ∧
      a.service.filterMap ServiceIo.cleared =
        (events.flatMap DriverEvent.seen).map IrqSource.clear ∧
      a.serial.audioWraps = a.irqcount .audioWrap ∧
      ∀ x, (irqService x a).1 = true ↔ x.seen ≠ [] := by
  intro a
  have hrun :
    a.card = (Card.new pcitc serial.p2slave.isSome).run M (events.flatMap DriverEvent.ops) ∧
      (∀ t, a.irqcount t = events.countP (DriverEvent.counts t)) ∧ Woken a.service ∧
      a.service.filterMap ServiceIo.cleared = (events.flatMap DriverEvent.seen).map
        IrqSource.clear ∧
      a.serial.audioWraps = events.countP (DriverEvent.counts .audioWrap) := by
    induction events using List.reverseRecOn with
    | nil => exact ⟨rfl, fun _ => rfl, trivial, rfl, rfl⟩
    | append_singleton events e ih =>
      obtain ⟨hcard, hcount, hwoken, hcleared, hwraps⟩ := ih
      set b := (AjaCard.new pcitc serial).run M events
      have ha : a = b.step M e := List.foldl_concat ..
      obtain ⟨hcard', hservice', hcount', hwraps'⟩ := step_accounts M b e
      have hsum : ∀ t, ((events ++ [e]).countP (DriverEvent.counts t) : ℤ) =
          events.countP (DriverEvent.counts t) + if e.counts t then 1 else 0 := by
        intro t
        rw [List.countP_append, List.countP_singleton]
        split_ifs <;> rfl
      rw [ha]
      have hscript :
          Woken e.script ∧ e.script.filterMap ServiceIo.cleared = e.seen.map IrqSource.clear := by
        cases e with
        | irq x => exact ⟨script_woken x, script_cleared x⟩
        | ioctl op h => exact ⟨trivial, rfl⟩
        | deck e h => exact ⟨trivial, rfl⟩
      refine ⟨?_, fun t => ?_, ?_, ?_, ?_⟩
      · rw [hcard', hcard, ← Card.run_append, List.flatMap_append, List.flatMap_singleton]
      · rw [hcount', hcount, hsum]
      · rw [hservice']
        exact hwoken.append hscript.1
      · rw [hservice', List.filterMap_append, hcleared, hscript.2, List.flatMap_append,
          List.map_append, List.flatMap_singleton]
      · rw [hwraps', hwraps, hsum]
  obtain ⟨hcard, hcount, hwoken, hcleared, hwraps⟩ := hrun
  exact ⟨hcard, hcount, hwoken, hcleared, hwraps.trans (hcount .audioWrap).symm,
    fun x => handled_iff x a⟩

end AjaDriver
