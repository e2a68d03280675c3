/-
# Probing the LTC boards

A probe of a board enables the device, requests its region, maps the registers
and registers with the timecode module; when a step fails one cleanup undoes what
was done, and finds out what that is from the pointer to the registers. It does
not know a region that was requested and could not be mapped, nor that a device
was not enabled: the probes that leave everything balanced are the others
(`probes_balanced_iff`). The reads of the card info and of the serial number and
the setup of the board, whose results a probe ignores, are left out.
-/
import AjaDriver.Ioctls
import AjaDriver.Lib.Runs
import Mathlib.Logic.Function.Basic
import Mathlib.Tactic.SplitIfs

namespace AjaDriver

open Function Runs

/-! ### What is held -/

/-- What the driver holds of a device; `unheld` records that something was
released that it did not hold. -/
structure PcitcHeld where
  region : Bool
  mapping : Bool
  enabled : Bool
  unheld : Bool
  deriving DecidableEq, Repr

namespace PcitcHeld

/-- `request_region` and `request_mem_region`: a region that is held is not given
twice. -/
def request (h : PcitcHeld) (granted : Bool) : Bool × PcitcHeld :=
  if granted && !h.region then (true, { h with region := true }) else (false, h)

def release (h : PcitcHeld) : PcitcHeld :=
  if h.region then { h with region := false } else { h with unheld := true }

/-- `ioport_map` and `ioremap_nocache`. -/
def map (h : PcitcHeld) (mapped : Bool) : Bool × PcitcHeld :=
  if mapped then (true, { h with mapping := true }) else (false, h)

def unmap (h : PcitcHeld) : PcitcHeld :=
  if h.mapping then { h with mapping := false } else { h with unheld := true }

/-- `pci_enable_device`. -/
def enable (h : PcitcHeld) (enables : Bool) : Bool × PcitcHeld :=
  if enables then (true, { h with enabled := true }) else (false, h)

def disable (h : PcitcHeld) : PcitcHeld :=
  if h.enabled then { h with enabled := false } else { h with unheld := true }

end PcitcHeld

/-! ### The boards -/

/-- What a probe meets: the memory, the kernel's calls, and whether the device
comes out of reset and becomes stable in time. -/
structure ProbeEnv where
  alloc : Bool
  enable : Bool
  region : Bool
  map : Bool
  reset : Bool
  stable : Bool
  tcio : Bool
  deriving DecidableEq, Repr

/-- `pcitc_pci_dops` and `pcitc_pcie_dops`. -/
inductive PcitcOps
  | pci
  | pcie
  deriving DecidableEq, Repr

/-- The device ids: the two that `pcitc_pci_device_ids` lists, and the rest. -/
inductive PcitcId
  | pci
  | pcie
  | other
  deriving DecidableEq, Repr

/-- The operations `pcitc_pci_probe` chooses. -/
def PcitcId.ops : PcitcId → Option PcitcOps
  | pci => some .pci
  | pcie => some .pcie
  | other => none

/-- The part of `struct pcitc_t` that the cleanup reads: which of its pointers are
set. -/
structure PcitcCard where
  ops : Option PcitcOps
  reg : Bool
  tcio : Bool
  deriving DecidableEq, Repr

/-- The request and the map that both inits begin with: whether they succeed and
whether `card->reg` is set. -/
def regInit (env : ProbeEnv) (h : PcitcHeld) : Bool × Bool × PcitcHeld :=
  let r := h.request env.region
  if !r.1 then (false, false, r.2)
  else
    let m := r.2.map env.map
    (m.1, m.1, m.2)

/-- `pcitc_pci_init`. -/
def pcitcPciInit (env : ProbeEnv) (h : PcitcHeld) : Bool × Bool × PcitcHeld := regInit env h

/-- `pcitc_pcie_init`: the board may time out afterwards. -/
def pcitcPcieInit (env : ProbeEnv) (h : PcitcHeld) : Bool × Bool × PcitcHeld :=
  let r := regInit env h
  if !r.1 then r
  else if !env.reset then (false, r.2)
  else if !env.stable then (false, r.2)
  else r

/-- The cleanup of both. -/
def regCleanup (card : PcitcCard) (h : PcitcHeld) : PcitcCard × PcitcHeld :=
  if card.reg then ({ card with reg := false }, h.unmap.release) else (card, h)

def pcitcPciCleanup : PcitcCard → PcitcHeld → PcitcCard × PcitcHeld := regCleanup
def pcitcPcieCleanup : PcitcCard → PcitcHeld → PcitcCard × PcitcHeld := regCleanup

def PcitcOps.init : PcitcOps → ProbeEnv → PcitcHeld → Bool × Bool × PcitcHeld
  | pci => pcitcPciInit
  | pcie => pcitcPcieInit

def PcitcOps.cleanup : PcitcOps → PcitcCard → PcitcHeld → PcitcCard × PcitcHeld
  | pci => pcitcPciCleanup
  | pcie => pcitcPcieCleanup

/-- A device: its driver data, what is held of it and whether it is registered
with the timecode module; `oops` when the driver followed a null pointer. -/
structure PcitcDev where
  id : PcitcId
  drvdata : Option PcitcCard
  held : PcitcHeld
  registered : Bool
  oops : Bool
  deriving DecidableEq, Repr

/-- `pcitc_device_cleanup`. -/
def pcitcDeviceCleanup (d : PcitcDev) : Option PcitcCard → PcitcDev
  | none => d
  | some card =>
    let d := if card.tcio then { d with registered := false } else d
    match card.ops with
    | none => { d with oops := true }
    | some ops => { d with drvdata := none, held := (ops.cleanup card d.held).2.disable }

/-- The steps of `pcitc_pci_probe` that can fail, on the cleared card. -/
def pcitcProbeSteps (env : ProbeEnv) (d : PcitcDev) : Bool × PcitcCard × PcitcDev :=
  let card : PcitcCard := ⟨none, false, false⟩
  match d.id.ops with
  | none => (false, card, d)
  | some ops =>
    let card := { card with ops := some ops }
    let e := d.held.enable env.enable
    let d := { d with held := e.2 }
    if !e.1 then (false, card, d)
    else
      let r := ops.init env d.held
      let card := { card with reg := r.2.1 }
      let d := { d with held := r.2.2 }
      if !r.1 then (false, card, d)
      else (env.tcio, { card with tcio := env.tcio }, { d with registered := env.tcio })

/-- `pcitc_pci_probe`. -/
def pcitcPciProbe (env : ProbeEnv) (d : PcitcDev) : ℤ × PcitcDev :=
  if !env.alloc then (-ENOMEM, pcitcDeviceCleanup d none)
  else
    let r := pcitcProbeSteps env d
    if r.1 then (0, { r.2.2 with drvdata := some r.2.1 })
      else (-ENOMEM, pcitcDeviceCleanup r.2.2 (some r.2.1))

/-- `pcitc_pci_remove`. -/
def pcitcPciRemove (d : PcitcDev) : PcitcDev := pcitcDeviceCleanup d d.drvdata

/-! ### Runs -/

/-- A device and whether it is bound: its probe returned 0, and it was not
removed. -/
structure PcitcSlot where
  dev : PcitcDev
  bound : Bool
  deriving DecidableEq, Repr

inductive PcitcAct
  | probe (i : ℕ) (env : ProbeEnv)
  | remove (i : ℕ)
  deriving DecidableEq, Repr

def PcitcSlot.probe (p : PcitcSlot) (env : ProbeEnv) : PcitcSlot :=
  ⟨(pcitcPciProbe env p.dev).2, (pcitcPciProbe env p.dev).1 = 0⟩

def PcitcSlot.remove (p : PcitcSlot) : PcitcSlot := ⟨pcitcPciRemove p.dev, false⟩

/-- One call, for one of any number of devices. -/
def pcitcStep (s : ℕ → PcitcSlot) : PcitcAct → ℕ → PcitcSlot
  | .probe i env => update s i ((s i).probe env)
  | .remove i => update s i (s i).remove

def pcitcStart (id : ℕ → PcitcId) (i : ℕ) : PcitcSlot :=
  ⟨⟨id i, none, ⟨false, false, false, false⟩, false, false⟩, false⟩

/-- The kernel probes devices of the table's ids that are not bound, and removes
those that are. -/
def PcitcOk (s : ℕ → PcitcSlot) : PcitcAct → Prop
  | .probe i _ => (s i).bound = false ∧ (s i).dev.id ≠ .other
  | .remove i => (s i).bound = true

instance pcitcOkDecidable (s : ℕ → PcitcSlot) : ∀ a, Decidable (PcitcOk s a)
  | .probe i _ => inferInstanceAs (Decidable ((s i).bound = false ∧ (s i).dev.id ≠ .other))
  | .remove i => inferInstanceAs (Decidable ((s i).bound = true))

/-- What is held of a device is what a bound device needs, all of it or nothing,
and nothing else was ever released. -/
def PcitcSlot.Balanced (p : PcitcSlot) : Prop :=
  p.dev.held = ⟨p.bound, p.bound, p.bound, false⟩ ∧ p.dev.oops = false

/-- The cleanup can undo the probe: once it has memory it enables the device, and
it maps the region if it is given one. -/
def Undoable : PcitcAct → Prop
  | .probe _ env => env.alloc = true → env.enable = true ∧ (env.region = true → env.map = true)
  | .remove _ => True

instance undoableDecidable : ∀ a, Decidable (Undoable a)
  | .probe _ env =>
    inferInstanceAs
      (Decidable (env.alloc = true → env.enable = true ∧ (env.region = true → env.map = true)))
  | .remove _ => instDecidableTrue

/-- A balanced device, with the card of a bound one. -/
structure PcitcSlot.Inv (p : PcitcSlot) : Prop where
  balanced : p.Balanced
  registered : p.dev.registered = p.bound
  card : p.bound = true → ∃ ops, p.dev.drvdata = some ⟨some ops, true, true⟩

variable {p : PcitcSlot} {s : ℕ → PcitcSlot} {env : ProbeEnv}

/-- Both inits, when nothing is held but the device: what they succeed with, and
whether what they leave can be cleaned up. -/
theorem init_cases (ops : PcitcOps) (env : ProbeEnv) :
    let r := ops.init env ⟨false, false, true, false⟩
    (r.2.1 = true ∧ r.2.2 = ⟨true, true, true, false⟩ ∧ env.region = true ∧ env.map = true) ∨
    (r.1 = false ∧ r.2.1 = false ∧ r.2.2 = ⟨env.region, false, true, false⟩ ∧
      (env.region = true → env.map = false)) := by
  have hreg : (let r := regInit env ⟨false, false, true, false⟩
      (r.1 = true ∧ r.2.1 = true ∧ r.2.2 = ⟨true, true, true, false⟩ ∧ env.region = true ∧
        env.map = true) ∨
      (r.1 = false ∧ r.2.1 = false ∧ r.2.2 = ⟨env.region, false, true, false⟩ ∧
        (env.region = true → env.map = false))) := by
    unfold regInit PcitcHeld.request PcitcHeld.map
    cases env.region <;> cases env.map <;> simp
  intro r
  cases ops with
  | pci =>
    rcases hreg with ⟨-, h⟩ | h
    · exact .inl h
    · exact .inr h
  | pcie =>
    show (_ ∧ _) ∨ _
    unfold r PcitcOps.init pcitcPcieInit
    rcases hreg with ⟨hok, h⟩ | ⟨hok, h⟩
    · left
      simp only [hok]
      cases env.reset
      · exact h
      · cases env.stable <;> exact h
    · right
      simp only [hok]
      exact ⟨hok, h⟩

/-- The cleanup of a card whose registers are mapped, or of one that has nothing
but the device. -/
theorem cleanup_does (d : PcitcDev) {ops : PcitcOps} {reg tcio : Bool}
    (hheld : d.held = ⟨reg, reg, true, false⟩) :
    pcitcDeviceCleanup d (some ⟨some ops, reg, tcio⟩) =
      { d with drvdata := none, held := ⟨false, false, false, false⟩, registered := if tcio
        then false else d.registered } := by
  unfold pcitcDeviceCleanup
  cases ops <;> cases reg <;> cases tcio <;>
    simp [PcitcOps.cleanup, pcitcPciCleanup, pcitcPcieCleanup, regCleanup,
    PcitcHeld.unmap, PcitcHeld.release, PcitcHeld.disable, hheld]

/-- The five ways a probe of an unbound device ends. -/
theorem probe_cases (hp : p.Inv) (hfree : p.bound = false) (hid : p.dev.id ≠ .other)
    (env : ProbeEnv) :
    (env.alloc = false ∧ (p.probe env).Inv) ∨
    (env.alloc = true ∧ env.enable = false ∧ (p.probe env).dev.held.unheld = true) ∨
    (env.alloc = true ∧ env.enable = true ∧ (env.region = true → env.map = false) ∧
      (p.probe env).bound = false ∧
      (p.probe env).dev = { p.dev with drvdata := none, held := ⟨env.region, false, false, false⟩ }) ∨
    (env.alloc = true ∧ env.enable = true ∧ env.map = true ∧ (p.probe env).Inv) := by
  obtain ⟨⟨id, drvdata, held, registered, oops⟩, bound⟩ := p
  obtain ⟨⟨hheld, hoops⟩, hreg, -⟩ := hp
  simp only at hheld hoops hreg hfree hid
  subst hfree hheld hoops hreg
  unfold PcitcSlot.probe pcitcPciProbe
  cases halloc : env.alloc with
  | false => exact .inl ⟨rfl, ⟨rfl, rfl⟩, rfl, nofun⟩
  | true =>
    obtain ⟨ops, hops⟩ : ∃ ops, id.ops = some ops := by
      cases id with
      | pci => exact ⟨_, rfl⟩
      | pcie => exact ⟨_, rfl⟩
      | other => exact absurd rfl hid
    unfold pcitcProbeSteps
    simp only [hops, PcitcHeld.enable]
    cases henable : env.enable with
    | false =>
      refine .inr (.inl ⟨trivial, rfl, ?_⟩)
      cases ops <;> rfl
    | true =>
      simp only [↓reduceIte, Bool.not_true, Bool.false_eq_true]
      rcases init_cases ops env with ⟨hmapped, hall, hregion, hmap⟩ | ⟨hfail, hnull, hsome, hmap⟩
      · simp only [hmapped, hall]
        refine .inr (.inr (.inr ⟨trivial, trivial, hmap, ?_⟩))
        cases (ops.init env ⟨false, false, true, false⟩).1 with
        | false =>
          -- a time-out
          simp only [Bool.not_false, ↓reduceIte, Bool.false_eq_true]
          rw [cleanup_does _ rfl]
          exact ⟨⟨rfl, rfl⟩, rfl, nofun⟩
        | true =>
          simp only [Bool.not_true, ↓reduceIte, Bool.false_eq_true]
          cases env.tcio with
          | false =>
            simp only [↓reduceIte, Bool.false_eq_true]
            rw [cleanup_does _ rfl]
            exact ⟨⟨rfl, rfl⟩, rfl, nofun⟩
          | true => exact ⟨⟨rfl, rfl⟩, rfl, fun _ => ⟨ops, rfl⟩⟩
      · simp only [hfail, hnull, hsome]
        refine .inr (.inr (.inl ⟨trivial, trivial, hmap, rfl, ?_⟩))
        cases ops <;> rfl

theorem inv_remove (hp : p.Inv) (hbound : p.bound = true) : p.remove.Inv := by
  obtain ⟨ops, hcard⟩ := hp.card hbound
  have hheld := hp.balanced.1
  have hreg := hp.registered
  rw [hbound] at hheld hreg
  unfold PcitcSlot.remove pcitcPciRemove
  rw [hcard, cleanup_does _ hheld]
  exact ⟨⟨rfl, hp.balanced.2⟩, rfl, nofun⟩

/-- A probe that can be undone keeps the invariant, and another one does not even
leave the device balanced. -/
theorem probe_balanced_iff (hp : p.Inv) (hfree : p.bound = false) (hid : p.dev.id ≠ .other)
    (i : ℕ) (env : ProbeEnv) :
    (Undoable (.probe i env) → (p.probe env).Inv) ∧
      ((p.probe env).Balanced → Undoable (.probe i env)) := by
  rcases probe_cases hp hfree hid env with
    ⟨halloc, hinv⟩ | ⟨halloc, henable, hunheld⟩ | ⟨halloc, henable, hmap, hbound, hdev⟩ |
    ⟨halloc, henable, hmap, hinv⟩
  · refine ⟨fun _ => hinv, fun _ hyes => ?_⟩
    rw [halloc] at hyes
    exact absurd hyes Bool.false_ne_true
  · constructor
    · intro hundo
      rw [(hundo halloc).1] at henable
      exact absurd henable.symm Bool.false_ne_true
    · intro hbal
      rw [hbal.1] at hunheld
      exact absurd hunheld Bool.false_ne_true
  · constructor
    · intro hundo
      cases hregion : env.region with
      | false =>
        refine ⟨⟨?_, ?_⟩, ?_, fun hb => ?_⟩
        · rw [hdev, hregion, hbound]
        · rw [hdev]
          exact hp.balanced.2
        · rw [hdev, hbound]
          exact hp.registered.trans hfree
        · rw [hbound] at hb
          exact absurd hb Bool.false_ne_true
      | true =>
        have hyes := (hundo halloc).2 hregion
        rw [hmap hregion] at hyes
        exact absurd hyes Bool.false_ne_true
    · intro hbal _
      have hheld := hbal.1
      rw [hdev, hbound] at hheld
      refine ⟨henable, fun hregion => ?_⟩
      rw [show env.region = false from congrArg PcitcHeld.region hheld] at hregion
      exact absurd hregion Bool.false_ne_true
  · exact ⟨fun _ => hinv, fun _ _ => ⟨henable, fun _ => hmap⟩⟩

theorem step_inv (hs : ∀ i, (s i).Inv) {a : PcitcAct} (hok : PcitcOk s a) :
    (Undoable a → ∀ i, (pcitcStep s a i).Inv) ∧
      ((∀ i, (pcitcStep s a i).Balanced) → Undoable a) := by
  have hupdate : ∀ {j : ℕ} {q : PcitcSlot}, q.Inv → ∀ i, (update s j q i).Inv := by
    intro j q hq i
    rw [update_apply]
    split_ifs
    · exact hq
    · exact hs i
  cases a with
  | probe j env =>
    obtain ⟨hinv, hundo⟩ := probe_balanced_iff (hs j) hok.1 hok.2 j env
    refine ⟨fun h => hupdate (hinv h), fun h => hundo ?_⟩
    have hj : (update s j ((s j).probe env) j).Balanced := h j
    rwa [update_self] at hj
  | remove j => exact ⟨fun _ => hupdate (inv_remove (hs j) hok), fun _ => trivial⟩

theorem balanced_along_iff : ∀ (acts : List PcitcAct) {s : ℕ → PcitcSlot}, (∀ i, (s i).Inv) →
    Along pcitcStep PcitcOk s acts →
    (Along pcitcStep (fun s a => ∀ i, (pcitcStep s a i).Balanced) s acts ↔ ∀ a ∈ acts, Undoable a)
  | [], _, _, _ => ⟨nofun, fun _ => trivial⟩
  | a :: acts, s, hs, hok => by
    obtain ⟨hinv, hundo⟩ := step_inv hs hok.1
    rw [List.forall_mem_cons]
    constructor
    · rintro ⟨hbal, hrest⟩
      have ha := hundo hbal
      exact ⟨ha, (balanced_along_iff acts (hinv ha) hok.2).mp hrest⟩
    · rintro ⟨ha, hrest⟩
      exact ⟨fun i => (hinv ha i).balanced, (balanced_along_iff acts (hinv ha) hok.2).mpr hrest⟩

/-- In every run of probes and removes of any boards: after each call exactly the
bound devices are enabled, with their region and their mapping, and nothing was
released that was not held, if and only if every probe can be undone. -/
theorem probes_balanced_iff (id : ℕ → PcitcId) {acts : List PcitcAct}
    (hok : Along pcitcStep PcitcOk (pcitcStart id) acts) :
    Along pcitcStep (fun s a => ∀ i, (pcitcStep s a i).Balanced) (pcitcStart id) acts ↔
      ∀ a ∈ acts, Undoable a :=
  balanced_along_iff acts (fun _ => ⟨⟨rfl, rfl⟩, rfl, nofun⟩) hok

/-- A PCI board, and a PCIe board that times out in its reset and is probed
again. -/
theorem probes_balanced_two :
    Along pcitcStep (fun s a => ∀ i, (pcitcStep s a i).Balanced)
      (pcitcStart fun i => if i = 0 then .pci else .pcie)
      [.probe 0 ⟨true, true, true, true, true, true, true⟩,
        .probe 1 ⟨true, true, true, true, false, true, true⟩, .remove 0,
        .probe 1 ⟨true, true, true, true, true, true, true⟩] :=
  (probes_balanced_iff _ (by decide +kernel)).mpr (by decide)

/-- A region that could not be mapped stays requested, and a device that was not
enabled is disabled. -/
theorem probes_unbalanced :
    (¬ ∀ i, (pcitcStep (pcitcStart fun _ => .pci)
        (.probe 0 ⟨true, true, true, false, true, true, true⟩) i).Balanced) ∧
      ¬ ∀ i, (pcitcStep (pcitcStart fun _ => .pcie)
        (.probe 0 ⟨true, false, true, true, true, true, true⟩) i).Balanced := by
  constructor
  · intro h
    exact absurd (h 0).1 (by decide)
  · intro h
    exact absurd (h 0).1 (by decide)

end AjaDriver
