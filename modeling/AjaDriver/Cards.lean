/-
# The cards, from probe to removal

A probe takes what a card needs one by one and undoes it when a step fails; a removal
gives it all back in another order. Meanwhile interrupts come in, files are opened and
closed, and other cards are probed and removed. The life of one card is looked at in
`Cards.Life`, and every run of the driver in `Cards.Runs`.
-/
import AjaDriver.Ioctls
import AjaDriver.Lib.Ledger

namespace AjaDriver

open Function Ledger

/-! ### What a card holds -/

/-- What the driver takes for a card; `pages`, `sgl` and `list` are the buffers of a DMA
engine. -/
inductive CardRes
  | device
  | region
  | mapping
  | memory
  | pages (i : Fin 3)
  | sgl (i : Fin 3)
  | list (i : Fin 3)
  | irq
  | node
  | cdev
  | slave
  deriving DecidableEq, Repr

/-- What it needs as long as it is held: the handler and the calls of a file work on the
card's memory and its registers, which only an enabled device has; the rest is kept in
the memory. -/
def CardRes.needs : CardRes → Finset CardRes
  | device => ∅
  | region => ∅
  | mapping => {device, region}
  | memory => ∅
  | irq => {memory, mapping}
  | cdev => {memory, mapping}
  | pages _ => {memory}
  | sgl _ => {memory}
  | list _ => {memory}
  | node => {memory}
  | slave => {memory}

/-- The buffers of the engines, in order. -/
def dmaRes : List CardRes := (List.finRange 3).flatMap fun i => [.pages i, .sgl i, .list i]

/-! ### Probe and removal -/

/-- What `DEVICE_CREATE` returns: a device, a null pointer, or an error as a pointer. -/
inductive DeviceNode
  | created
  | null
  | err
  deriving DecidableEq, Repr

/-- What a probe meets: the results of the kernel's calls, which buffers are refused, and
the device's interrupt and length of registers. -/
structure CardEnv where
  enable : ℤ := 0
  region : Bool := true
  mapping : Bool := true
  reglen : ℕ := 0x1000
  alloc : Bool := true
  refused : List CardRes := []
  requestIrq : ℤ := 0
  irq : ℕ := 16
  node : DeviceNode := .created
  cdevAdd : ℤ := 0
  slave : Bool := true
  deriving DecidableEq, Repr

/-- A step of a probe or of a removal. -/
inductive CardStep
  | entry (e : Entry CardRes)
  /-- The memory of a card, cleared, and its index. -/
  | create
  | free
  | drvdata (set : Bool)
  | cdevAdd
  | cdevDel
  /-- `card->p2slave` is set. -/
  | register
  deriving DecidableEq, Repr

/-- What it takes, uses or gives back. -/
def CardStep.entries : CardStep → List (Entry CardRes)
  | entry e => [e]
  | create => [.take .memory]
  | free => [.give .memory]
  | drvdata _ => []
  | cdevAdd => [.use .cdev]
  | cdevDel => [.give .cdev]
  | register => [.take .slave]

def CardStep.take (r : CardRes) : CardStep := .entry (.take r)
def CardStep.give (r : CardRes) : CardStep := .entry (.give r)
def CardStep.use (r : CardRes) : CardStep := .entry (.use r)

/-- The buffers that were allocated. -/
def CardEnv.buffers (env : CardEnv) : List CardRes := dmaRes.filter (· ∉ env.refused)

/-- `aja_card_create`, once it has memory. -/
def ajaCardCreate (env : CardEnv) : List CardStep :=
  [.create, .drvdata true] ++ env.buffers.map .take

/-- `aja_card_free`. -/
def ajaCardFree (env : CardEnv) : List CardStep :=
  [.use .memory] ++ env.buffers.map .give ++ [.free]

/-- `aja_device_create`. -/
def ajaDeviceCreate (env : CardEnv) : List CardStep :=
  let rest := [.use .node, .take .cdev] ++ if env.cdevAdd = 0 then [.cdevAdd] else []
  match env.node with
  | .null => []
  | .created => .take .node :: rest
  | .err => rest

/-- `aja_device_destroy`. -/
def ajaDeviceDestroy (env : CardEnv) : List CardStep :=
  (if env.node = .null then [] else [.give .node]) ++ [.cdevDel]

/-! What a probe takes first, its reads of the card's id, and the labels it leaves
through. -/

def probeGot : List CardStep := [.take .device, .take .region, .take .mapping]
def probeRead : List CardStep := [.use .mapping, .use .mapping]

def probeErr0 : List CardStep := [.drvdata false, .give .device]
def probeErr1 : List CardStep := .give .region :: probeErr0
def probeErr2 : List CardStep := .give .mapping :: probeErr1
def probeErr3 (env : CardEnv) : List CardStep := ajaCardFree env ++ probeErr2

/-- `aja_pci_probe`: what it returns and the steps it takes. The card is counted when a
probe that returns 0 is over (`CardPhase.counts`). -/
def ajaPciProbe (M : ModParams) (env : CardEnv) : ℤ × List CardStep :=
  if env.enable ≠ 0 then (env.enable, [])
  else if env.region = false then (-ENOMEM, .take .device :: probeErr0)
  else if env.mapping = false then (-ENOMEM, [CardStep.take .device, .take .region] ++ probeErr1)
  else if env.reglen < 0xC8 then (-ENOMEM, probeGot ++ probeErr2)
  else if env.alloc = false then (-ENOMEM, probeGot ++ probeRead ++ probeErr2)
  else if env.requestIrq ≠ 0 then
    (env.requestIrq, probeGot ++ probeRead ++ ajaCardCreate env ++ [CardStep.use .memory] ++
      probeErr3 env)
  else
    (0, probeGot ++ probeRead ++ ajaCardCreate env ++ [CardStep.use .memory, .take .irq] ++
      ajaDeviceCreate env ++ (if M.force64 then [CardStep.use .mapping] else []) ++
      (if env.slave then [CardStep.register] else []))

/-- `aja_pci_remove` of a card whose probe met `env`. -/
def ajaPciRemove (env : CardEnv) : List CardStep :=
  [CardStep.use .memory, .use .mapping] ++ (if env.slave then [CardStep.give .slave] else []) ++
    ajaDeviceDestroy env ++ (if env.irq ≠ 0 then [CardStep.give .irq] else []) ++
    [CardStep.give .mapping, .use .memory, .give .region, .drvdata false, .give .device] ++
      ajaCardFree env

/-- What a probe and the removal after it enter in the ledger. -/
def CardEnv.life (M : ModParams) (env : CardEnv) : List CardStep :=
  (ajaPciProbe M env).2 ++ if (ajaPciProbe M env).1 = 0 then ajaPciRemove env else []

/-- The kernel creates the device, and gives no interrupt 0. -/
def CardEnv.Says (env : CardEnv) : Prop := env.node = .created ∧ (env.requestIrq = 0 → env.irq ≠ 0)

instance (env : CardEnv) : Decidable env.Says :=
  inferInstanceAs (Decidable (env.node = .created ∧ (env.requestIrq = 0 → env.irq ≠ 0)))

/-! ### The driver -/

/-- Where the driver is with a device, and what it has still to do. -/
inductive CardPhase
  | idle
  | probing (env : CardEnv) (error : ℤ) (todo : List CardStep)
  | bound (env : CardEnv)
  | removing (env : CardEnv) (todo : List CardStep)
  deriving DecidableEq, Repr

/-- A probe or a removal with nothing left to do is over. -/
def CardPhase.settled : CardPhase → CardPhase
  | probing env error [] => if error = 0 then bound env else idle
  | removing _ [] => idle
  | p => p

/-- A probe that ends with 0 counts its card. -/
def CardPhase.counts : CardPhase → ℕ
  | probing _ error [] => if error = 0 then 1 else 0
  | _ => 0

/-- A device: what is held for it, its card's index, whether it has driver data, whether
its files can be opened, whether `card->p2slave` is set, and its open files. -/
structure CardDev where
  phase : CardPhase
  held : Finset CardRes
  index : ℕ
  drvdata : Bool
  added : Bool
  slave : Bool
  files : ℕ
  deriving DecidableEq

/-- The driver with `n` devices on the bus: `aja_cards`, the devices, and the entries that
were out of order. -/
structure Cards (n : ℕ) where
  count : ℕ
  dev : Fin n → CardDev
  faults : List (Fin n × Entry CardRes)

/-- The entries of a step: those that fit count, the others are faults. -/
def CardDev.enter (d : CardDev) : List (Entry CardRes) → List (Entry CardRes) × CardDev
  | [] => ([], d)
  | e :: l =>
    if e.Fits CardRes.needs d.held then CardDev.enter { d with held := e.after d.held } l
    else ((e :: (d.enter l).1), (d.enter l).2)

/-- The rest of a step of a probe or a removal; `count` is `aja_cards`. -/
def CardDev.does (count : ℕ) (d : CardDev) : CardStep → CardDev
  | .entry _ => d
  | .create => { d with index := count, added := false, slave := false }
  | .free => { d with slave := false }
  | .drvdata set => { d with drvdata := set }
  | .cdevAdd => { d with added := true }
  | .cdevDel => { d with added := false }
  | .register => { d with slave := true }

inductive CardEvent (n : ℕ)
  | probe (i : Fin n) (env : CardEnv)
  | remove (i : Fin n)
  /-- The next step of a probe or a removal. -/
  | step (i : Fin n)
  /-- An interrupt, and whether it has something for the P2 slave: a packet or a frame's
  timecode. -/
  | irq (i : Fin n) (slave : Bool)
  | opens (i : Fin n)
  /-- Any call of an open file. -/
  | call (i : Fin n)
  | closes (i : Fin n)
  deriving DecidableEq, Repr

namespace Cards

variable {n : ℕ}

/-- Device `i` becomes `d` after the entries `l`. -/
def enter (s : Cards n) (i : Fin n) (d : CardDev) (l : List (Entry CardRes)) : Cards n :=
  { s with
    dev := update s.dev i (d.enter l).2
    faults := s.faults ++ (d.enter l).1.map (i, ·) }

/-- Step `x` of device `i`, which goes on in phase `p`. -/
def advance (s : Cards n) (i : Fin n) (x : CardStep) (p : CardPhase) : Cards n :=
  { s.enter i { (s.dev i).does s.count x with phase := p.settled }
    x.entries with count := s.count + p.counts }

def step (M : ModParams) (s : Cards n) : CardEvent n → Cards n
  | .probe i env =>
    let p : CardPhase := .probing env (ajaPciProbe M env).1 (ajaPciProbe M env).2
    { s with count := s.count + p.counts, dev := update s.dev i { s.dev i with phase := p.settled } }
  | .remove i =>
    match (s.dev i).phase with
    | .bound env =>
      let p := if (s.dev i).drvdata then .removing env (ajaPciRemove env) else .idle
      { s with dev := update s.dev i { s.dev i with phase := p } }
    | _ => s
  | .step i =>
    match (s.dev i).phase with
    | .probing env error (x :: todo) => s.advance i x (.probing env error todo)
    | .removing env (x :: todo) => s.advance i x (.removing env todo)
    | _ => s
  | .irq i slave =>
    s.enter i (s.dev i) ([.use .memory, .use .mapping] ++ if slave && (s.dev i).slave
      then [.use .slave] else [])
  | .opens i =>
    s.enter i { s.dev i with files := (s.dev i).files + 1 } [.use .memory, .use .mapping]
  | .call i => s.enter i (s.dev i) [.use .memory, .use .mapping]
  | .closes i =>
    s.enter i { s.dev i with files := (s.dev i).files - 1 } [.use .memory, .use .mapping]

def init (n : ℕ) : Cards n := ⟨0, fun _ => ⟨.idle, ∅, 0, false, false, false, 0⟩, []⟩

end Cards

/-- Something is left to do. -/
def CardPhase.Busy : CardPhase → Prop
  | probing _ _ todo => todo ≠ []
  | removing _ todo => todo ≠ []
  | _ => False

def CardPhase.Probing : CardPhase → Prop
  | probing _ _ _ => True
  | _ => False

def CardPhase.Bound : CardPhase → Prop
  | bound _ => True
  | _ => False

def CardPhase.Removing : CardPhase → Prop
  | removing _ _ => True
  | _ => False

instance : ∀ p : CardPhase, Decidable p.Busy
  | .probing _ _ todo => inferInstanceAs (Decidable (todo ≠ []))
  | .removing _ todo => inferInstanceAs (Decidable (todo ≠ []))
  | .idle => instDecidableFalse
  | .bound _ => instDecidableFalse

instance : ∀ p : CardPhase, Decidable p.Probing
  | .probing _ _ _ => instDecidableTrue
  | .idle => instDecidableFalse
  | .removing _ _ => instDecidableFalse
  | .bound _ => instDecidableFalse

instance : ∀ p : CardPhase, Decidable p.Bound
  | .bound _ => instDecidableTrue
  | .idle => instDecidableFalse
  | .probing _ _ _ => instDecidableFalse
  | .removing _ _ => instDecidableFalse

instance : ∀ p : CardPhase, Decidable p.Removing
  | .removing _ _ => instDecidableTrue
  | .idle => instDecidableFalse
  | .probing _ _ _ => instDecidableFalse
  | .bound _ => instDecidableFalse

/-- What the kernel sees to: cards are probed one at a time; one is removed with the
module, when no file of it is open, and then none is opened; an interrupt comes in when
a handler is requested for it, and a file can be opened when its device is added. -/
def CardsOk {n : ℕ} (s : Cards n) : CardEvent n → Prop
  | .probe i env => (s.dev i).phase = .idle ∧ (∀ j, ¬ (s.dev j).phase.Probing) ∧ env.Says
  | .remove i => (s.dev i).phase.Bound ∧ (s.dev i).files = 0
  | .step i => (s.dev i).phase.Busy
  | .irq i _ => .irq ∈ (s.dev i).held
  | .opens i => (s.dev i).added = true ∧ ¬ (s.dev i).phase.Removing
  | .call i => 0 < (s.dev i).files
  | .closes i => 0 < (s.dev i).files

instance {n : ℕ} (s : Cards n) : ∀ e, Decidable (CardsOk s e)
  | .probe i env =>
    inferInstanceAs
      (Decidable ((s.dev i).phase = .idle ∧ (∀ j, ¬ (s.dev j).phase.Probing) ∧ env.Says))
  | .remove i => inferInstanceAs (Decidable ((s.dev i).phase.Bound ∧ (s.dev i).files = 0))
  | .step i => inferInstanceAs (Decidable (s.dev i).phase.Busy)
  | .irq i _ => inferInstanceAs (Decidable (.irq ∈ (s.dev i).held))
  | .opens i => inferInstanceAs (Decidable ((s.dev i).added = true ∧ ¬ (s.dev i).phase.Removing))
  | .call i => inferInstanceAs (Decidable (0 < (s.dev i).files))
  | .closes i => inferInstanceAs (Decidable (0 < (s.dev i).files))

end AjaDriver
