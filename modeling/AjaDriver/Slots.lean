/-
# Device slots

The P2 slave and the timecode I/O module keep their devices in a table of 256
slots each, with the same code but for one comparison. A register takes a slot
before it can still fail, at the creation of the device and at `cdev_add`, and
then shares its cleanup with the unregister. `SlotSys` is a module with the
handles its callers hold; whatever they register and unregister, the table and
the handles agree (`slots_consistent`). Names, operations and the character
devices are left out.
-/
import AjaDriver.Lib.Runs
import AjaDriver.Lib.Table
import Mathlib.Algebra.Group.Int.Defs

namespace AjaDriver

open Function Runs

def maxDevs : ℕ := 256

/-! ### The table -/

/-- The table `devs`; which objects are allocated, the index of each and whether
its `device` is set; and which minor numbers have a device in the class. -/
structure Slots where
  devs : ℕ → Option ℕ
  allocated : ℕ → Bool
  index : ℕ → ℕ
  device : ℕ → Bool
  created : ℕ → Bool

def Slots.init : Slots :=
  ⟨fun _ => none, fun _ => false, fun _ => 0, fun _ => false, fun _ => false⟩

/-- What a register meets: the memory `kzalloc` returns, whether the device is
created, and the result of `cdev_add`. -/
structure RegisterCall where
  mem : Option ℕ
  created : Bool
  cdev : ℤ
  deriving DecidableEq, Repr

/-- The allocation of a device and its slot. -/
def slotAllocate (s : Slots) : Option ℕ → Option ℕ × Slots
  | none => (none, s)
  | some d =>
    let s := { s with
      allocated := update s.allocated d true
      index := update s.index d 0
      device := update s.device d false }
    match Table.free s.devs maxDevs 0 with
    | none => (none, { s with allocated := update s.allocated d false })
    | some i => (some d, { s with index := update s.index d i, devs := update s.devs i (some d) })

def slotFree (s : Slots) (d : ℕ) : Slots :=
  { s with devs := update s.devs (s.index d) none, allocated := update s.allocated d false }

def slotUnregister (s : Slots) : Option ℕ → Slots
  | none => s
  | some d =>
    slotFree (if s.device d then { s with created := update s.created (s.index d) false } else s) d

/-- A register; `fails` says with which results of `cdev_add`. -/
def slotRegister (fails : ℤ → Bool) (s : Slots) (call : RegisterCall) : Option ℕ × Slots :=
  match slotAllocate s call.mem with
  | (none, s) => (none, slotUnregister s none)
  | (some d, s) =>
    if !call.created
      then (none, slotUnregister { s with device := update s.device d false } (some d))
    else
      let s := { s with device := update s.device d true, created := update s.created (s.index d) true }
      if fails call.cdev then (none, slotUnregister s (some d)) else (some d, s)

def p2slaveAllocate : Slots → Option ℕ → Option ℕ × Slots := slotAllocate
def p2slaveFree : Slots → ℕ → Slots := slotFree
def p2slaveUnregister : Slots → Option ℕ → Slots := slotUnregister
def p2slaveRegister : Slots → RegisterCall → Option ℕ × Slots := slotRegister fun error => error ≠ 0

def tcioAllocate : Slots → Option ℕ → Option ℕ × Slots := slotAllocate
def tcioFree : Slots → ℕ → Slots := slotFree
def tcioUnregister : Slots → Option ℕ → Slots := slotUnregister
def tcioRegister : Slots → RegisterCall → Option ℕ × Slots := slotRegister fun error => error < 0

/-- The two modules. -/
inductive SlotModule
  | p2slave
  | tcio
  deriving DecidableEq, Repr

def SlotModule.register : SlotModule → Slots → RegisterCall → Option ℕ × Slots
  | p2slave => p2slaveRegister
  | tcio => tcioRegister

def SlotModule.unregister : SlotModule → Slots → Option ℕ → Slots
  | p2slave => p2slaveUnregister
  | tcio => tcioUnregister

/-! ### The handles -/

/-- A module and the handles its callers hold. -/
structure SlotSys where
  slots : Slots
  live : List ℕ

inductive SlotAct
  | register (call : RegisterCall)
  | unregister (d : ℕ)
  deriving DecidableEq, Repr

def SlotSys.step (M : SlotModule) (s : SlotSys) : SlotAct → SlotSys
  | .register call => ⟨(M.register s.slots call).2, (M.register s.slots call).1.toList ++ s.live⟩
  | .unregister d => ⟨M.unregister s.slots (some d), s.live.erase d⟩

/-- `kzalloc` returns memory that is not in use, and a handle is unregistered by
who holds it. -/
def SlotSys.Ok (s : SlotSys) : SlotAct → Prop
  | .register call => ∀ d ∈ call.mem, s.slots.allocated d = false
  | .unregister d => d ∈ s.live

instance SlotSys.decidableOk (s : SlotSys) : ∀ a, Decidable (s.Ok a)
  | .register call => inferInstanceAs (Decidable (∀ d ∈ call.mem, s.slots.allocated d = false))
  | .unregister d => inferInstanceAs (Decidable (d ∈ s.live))

def SlotSys.init : SlotSys := ⟨Slots.init, []⟩

/-- Both modules register alike, with a result of `cdev_add` that is not 0. -/
theorem register_eq (M : SlotModule) :
    ∃ fails : ℤ → Bool, fails 0 = false ∧ M.register = slotRegister fails := by
  cases M with
  | p2slave => exact ⟨fun error => error ≠ 0, by decide, rfl⟩
  | tcio => exact ⟨fun error => error < 0, by decide, rfl⟩

/-! ### A register -/

/-- What a failed register leaves: all but the fields of the object it freed. -/
structure Slots.SameBut (s t : Slots) (mem : Option ℕ) : Prop where
  devs : t.devs = s.devs
  allocated : t.allocated = s.allocated
  created : t.created = s.created
  index : ∀ d, mem ≠ some d → t.index d = s.index d
  device : ∀ d, mem ≠ some d → t.device d = s.device d

/-- The table with a new device `d` in slot `i`. -/
def Slots.put (s : Slots) (d i : ℕ) : Slots where
  devs := update s.devs i (some d)
  allocated := update s.allocated d true
  index := update s.index d i
  device := update s.device d true
  created := update s.created i true

variable {s : Slots} {d : ℕ}

/-- An update taken back. -/
theorem update_undo {β : Type} {f : ℕ → β} {a : ℕ} {x : β} (h : f a = x) (y : β) :
    update (update f a y) a x = f := by
  rw [update_idem, ← h, update_eq_self]

theorem allocate_full (hfree : s.allocated d = false) (hfull : Table.free s.devs maxDevs 0 = none) :
    (slotAllocate s (some d)).1 = none ∧ s.SameBut (slotAllocate s (some d)).2 (some d) := by
  unfold slotAllocate
  simp only [hfull]
  have hne : ∀ e, some d ≠ some e → e ≠ d := fun e he h => he (congrArg some h.symm)
  exact ⟨trivial, rfl, update_undo hfree true, rfl, fun e he => update_of_ne (hne e he) ..,
    fun e he => update_of_ne (hne e he) ..⟩

theorem allocate_slot {i : ℕ} (hslot : Table.free s.devs maxDevs 0 = some i) :
    slotAllocate s (some d) =
    (some d, { s with
      devs := update s.devs i (some d)
      allocated := update s.allocated d true
      index := update s.index d i
      device := update s.device d false }) := by
  unfold slotAllocate
  simp only [hslot, update_idem]

/-- The cleanup of a register that took slot `i`, with or without a device in the
class, undoes it. -/
theorem unregister_undoes {i : ℕ} (hfree : s.allocated d = false) (hslot : s.devs i = none)
    (hnode : s.created i = false) (device : Bool) :
    s.SameBut (slotUnregister { s with
      devs := update s.devs i (some d)
      allocated := update s.allocated d true
      index := update s.index d i
      device := update s.device d device
      created := if device then update s.created i true else s.created } (some d)) (some d) := by
  unfold slotUnregister slotFree
  simp only [update_self]
  have hne : ∀ e, some d ≠ some e → e ≠ d := fun e he h => he (congrArg some h.symm)
  cases device with
  | false =>
    simp only [Bool.false_eq_true, ↓reduceIte, update_self]
    exact ⟨update_undo hslot _, update_undo hfree _, rfl, fun e he => update_of_ne (hne e he) ..,
      fun e he => update_of_ne (hne e he) ..⟩
  | true =>
    simp only [↓reduceIte, update_self]
    exact ⟨update_undo hslot _, update_undo hfree _, update_undo hnode _,
      fun e he => update_of_ne (hne e he) ..,
      fun e he => update_of_ne (hne e he) ..⟩

/-- A register fails and leaves the table, or puts a new device into the first
empty slot. -/
theorem register_cases {fails : ℤ → Bool} {call : RegisterCall}
    (hcreated : ∀ i, s.devs i = none → s.created i = false)
    (hfree : ∀ d, call.mem = some d → s.allocated d = false) :
    ((slotRegister fails s call).1 = none ∧ s.SameBut (slotRegister fails s call).2 call.mem ∧
      (Table.free s.devs maxDevs 0 = none ∨ call.mem = none ∨ call.created = false ∨
        fails call.cdev = true)) ∨
    ∃ d i, call.mem = some d ∧ Table.free s.devs maxDevs 0 = some i ∧
      slotRegister fails s call = (some d, s.put d i) := by
  obtain ⟨mem, created, cdev⟩ := call
  cases mem with
  | none => exact .inl ⟨rfl, ⟨rfl, rfl, rfl, fun _ _ => rfl, fun _ _ => rfl⟩, .inr (.inl rfl)⟩
  | some d =>
    have hd := hfree d rfl
    unfold slotRegister
    cases hslot : Table.free s.devs maxDevs 0 with
    | none =>
      obtain ⟨hnone, hsame⟩ := allocate_full hd hslot
      left
      rcases hr : slotAllocate s (some d) with ⟨_, t⟩
      rw [hr] at hnone hsame
      obtain rfl := hnone
      simp only
      exact ⟨trivial, hsame, .inl trivial⟩
    | some i =>
      obtain ⟨-, -, hempty⟩ := Table.free_some hslot
      have hnode := hcreated i hempty
      simp only [allocate_slot hslot, update_self, update_idem]
      cases created with
      | false => exact .inl ⟨rfl, unregister_undoes hd hempty hnode false, .inr (.inr (.inl rfl))⟩
      | true =>
        cases hcdev : fails cdev with
        | true => exact .inl ⟨rfl, unregister_undoes hd hempty hnode true, .inr (.inr (.inr rfl))⟩
        | false => exact .inr ⟨d, i, rfl, rfl, rfl⟩

/-! ### Runs -/

/-- The table holds the live handles, which are the objects allocated, each with
a device of its number. -/
structure SlotSys.Inv (s : SlotSys) : Prop where
  holds : Table.Holds maxDevs s.slots.devs s.slots.index s.live
  allocated : ∀ d, s.slots.allocated d = true ↔ d ∈ s.live
  device : ∀ d ∈ s.live, s.slots.device d = true
  created : ∀ i, s.slots.created i = true ↔ s.slots.devs i ≠ none

theorem SlotSys.init_inv : SlotSys.init.Inv :=
  ⟨Table.Holds.empty _ _, fun _ => ⟨nofun, nofun⟩, nofun, fun _ => ⟨nofun, fun h => absurd rfl h⟩⟩

variable {M : SlotModule} {t : SlotSys}

theorem SlotSys.Inv.register_cases (h : t.Inv) {call : RegisterCall} (hok : t.Ok (.register call)) :
    ((M.register t.slots call).1 = none ∧ t.slots.SameBut (M.register t.slots call).2 call.mem ∧
      (t.live.length < maxDevs → call.mem = none ∨ call.created = false ∨ call.cdev ≠ 0)) ∨
    ∃ d i, call.mem = some d ∧ Table.free t.slots.devs maxDevs 0 = some i ∧
      M.register t.slots call = (some d, t.slots.put d i) := by
  obtain ⟨fails, hzero, heq⟩ := register_eq M
  have hcreated : ∀ i, t.slots.devs i = none → t.slots.created i = false := fun i hi =>
    eq_false_of_ne_true fun hc => (h.created i).mp hc hi
  rw [heq]
  rcases AjaDriver.register_cases hcreated hok with ⟨hnone, hsame, hwhy⟩ | hput
  · refine .inl ⟨hnone, hsame, fun hlt => ?_⟩
    rcases hwhy with hfull | hmem | hdev | hcdev
    · exact absurd hfull (h.holds.free_ne_none hlt)
    · exact .inl hmem
    · exact .inr (.inl hdev)
    · refine .inr (.inr fun h0 => ?_)
      rw [h0, hzero] at hcdev
      exact absurd hcdev Bool.false_ne_true
  · exact .inr hput

/-- Memory that is not in use is no handle. -/
theorem SlotSys.Inv.not_live (h : t.Inv) {d : ℕ} (hfree : t.slots.allocated d = false) :
    d ∉ t.live := fun hd => by
  have hallocated := (h.allocated d).mpr hd
  rw [hfree] at hallocated
  exact absurd hallocated Bool.false_ne_true

/-- A register that failed. -/
theorem SlotSys.Inv.same (h : t.Inv) {s : Slots} {mem : Option ℕ} (hsame : t.slots.SameBut s mem)
    (hmem : ∀ d, mem = some d → t.slots.allocated d = false) : SlotSys.Inv ⟨s, t.live⟩ := by
  have hkept : ∀ d ∈ t.live, mem ≠ some d := fun d hd he => h.not_live (hmem d he) hd
  refine ⟨?_, fun d => ?_, fun d hd => ?_, fun i => ?_⟩
  · show Table.Holds maxDevs s.devs _ _
    rw [hsame.devs]
    exact h.holds.congr fun d hd => hsame.index d (hkept d hd)
  · show s.allocated d = true ↔ _
    rw [hsame.allocated]
    exact h.allocated d
  · exact (hsame.device d (hkept d hd)).trans (h.device d hd)
  · show s.created i = true ↔ s.devs i ≠ none
    rw [hsame.created, hsame.devs]
    exact h.created i

/-- A register that returned `d`, in slot `i`. -/
theorem SlotSys.Inv.put (h : t.Inv) {d i : ℕ} (hfree : t.slots.allocated d = false)
    (hslot : Table.free t.slots.devs maxDevs 0 = some i) :
    SlotSys.Inv ⟨t.slots.put d i, d :: t.live⟩ := by
  have hnew : d ∉ t.live := h.not_live hfree
  obtain ⟨-, hlt, hempty⟩ := Table.free_some hslot
  have hindex : ∀ e ∈ t.live, update t.slots.index d i e = t.slots.index e := fun e he =>
    update_of_ne (by rintro rfl; exact hnew he) ..
  refine ⟨?_, fun e => ?_, fun e he => ?_, fun j => ?_⟩
  · have hholds := (h.holds.congr hindex).insert hnew (d := d)
    rw [update_self] at hholds
    exact hholds (by omega) hempty
  · show update t.slots.allocated d true e = true ↔ e ∈ d :: t.live
    rw [update_apply, List.mem_cons]
    by_cases he : e = d
    · simp [he]
    · simp [he, h.allocated e]
  · show update t.slots.device d true e = true
    rw [update_apply]
    split_ifs with hne
    · rfl
    · exact h.device e ((List.mem_cons.mp he).resolve_left hne)
  · show update t.slots.created i true j = true ↔ update t.slots.devs i (some d) j ≠ none
    rw [update_apply, update_apply]
    split_ifs
    · simp
    · exact h.created j

/-- An unregister of a handle. -/
theorem SlotSys.Inv.unregister (h : t.Inv) {d : ℕ} (hd : d ∈ t.live) :
    SlotSys.Inv ⟨slotUnregister t.slots (some d), t.live.erase d⟩ := by
  have hun : slotUnregister t.slots (some d) = { t.slots with
      devs := update t.slots.devs (t.slots.index d) none
      allocated := update t.slots.allocated d false
      created := update t.slots.created (t.slots.index d) false } := by
    unfold slotUnregister slotFree
    simp only [h.device d hd, ↓reduceIte]
  rw [hun]
  refine ⟨h.holds.erase hd, fun e => ?_, fun e he => h.device e (List.mem_of_mem_erase he),
    fun j => ?_⟩
  · show update t.slots.allocated d false e = true ↔ e ∈ t.live.erase d
    rw [h.holds.nodup.mem_erase_iff, update_apply]
    split_ifs with he
    · simp [he]
    · simp [he, h.allocated e]
  · show update t.slots.created (t.slots.index d) false j = true ↔
      update t.slots.devs (t.slots.index d) none j ≠ none
    rw [update_apply, update_apply]
    split_ifs
    · simp
    · exact h.created j

theorem SlotSys.Inv.step (h : t.Inv) (M : SlotModule) {a : SlotAct} (hok : t.Ok a) :
    (t.step M a).Inv := by
  cases a with
  | register call =>
    show SlotSys.Inv ⟨_, (M.register t.slots call).1.toList ++ t.live⟩
    rcases h.register_cases (M := M) hok with ⟨hnone, hsame, -⟩ | ⟨d, i, hmem, hslot, heq⟩
    · rw [hnone]
      exact h.same hsame hok
    · rw [heq]
      exact h.put (hok d hmem) hslot
  | unregister d =>
    have hun : M.unregister = slotUnregister := by cases M <;> rfl
    show SlotSys.Inv ⟨M.unregister t.slots (some d), t.live.erase d⟩
    rw [hun]
    exact h.unregister hok

/-- In every run of registers and unregisters of either module: the slots taken
are those of the live handles, each in its own; a register that fails leaves the
table; and with a slot left one that meets no failure returns a handle. -/
theorem slots_consistent (h : Reach (SlotSys.step M) SlotSys.Ok SlotSys.init t) :
    t.live.Nodup ∧
    (∀ i, t.slots.devs i ≠ none ↔ ∃ d ∈ t.live, t.slots.index d = i) ∧
    (∀ d ∈ t.live, t.slots.devs (t.slots.index d) = some d ∧ t.slots.index d < maxDevs) ∧
    (∀ call, t.Ok (.register call) → (M.register t.slots call).1 = none →
      (M.register t.slots call).2.devs = t.slots.devs) ∧
    (t.live.length < maxDevs → ∀ d, t.slots.allocated d = false →
      (M.register t.slots ⟨some d, true, 0⟩).1 = some d) := by
  have hinv : t.Inv := h.inv SlotSys.init_inv fun _ _ hs hok => hs.step M hok
  refine ⟨hinv.holds.nodup, hinv.holds.taken_iff,
    fun d hd => ⟨hinv.holds.slot d hd, hinv.holds.lt d hd⟩, ?_, ?_⟩
  · intro call hok hnone
    rcases hinv.register_cases (M := M) hok with ⟨-, hsame, -⟩ | ⟨d, i, -, -, heq⟩
    · exact hsame.devs
    · rw [heq] at hnone
      exact absurd hnone (Option.some_ne_none d)
  · intro hlt d hfree
    have hok : t.Ok (.register ⟨some d, true, 0⟩) := fun e he => by
      obtain rfl := Option.some.inj he
      exact hfree
    rcases hinv.register_cases (M := M) hok with ⟨-, -, hwhy⟩ | ⟨e, i, he, -, heq⟩
    · have := hwhy hlt
      simp at this
    · rw [heq]
      exact he.symm

/-- Two devices, one that fails at `cdev_add`, and a third in the slot of the
first. -/
theorem slots_consistent_three :
    let t := [.register ⟨some 40, true, 0⟩, .register ⟨some 80, true, 0⟩,
      .register ⟨some 60, true, -12⟩, .unregister 40, .register ⟨some 60, true, 0⟩].foldl
        (SlotSys.step .tcio) SlotSys.init
    t.live = [60, 80] ∧ t.slots.index 60 = 0 ∧ t.slots.devs 0 = some 60 ∧
      (∃ d ∈ t.live, t.slots.index d = 1) := by
  intro t
  have hrun : Reach (SlotSys.step .tcio) SlotSys.Ok SlotSys.init t := Reach.of_along _ (by decide +kernel)
  obtain ⟨-, htaken, hslot, -⟩ := slots_consistent hrun
  have hlive : t.live = [60, 80] := by decide +kernel
  have hindex : t.slots.index 60 = 0 := by decide +kernel
  refine ⟨hlive, hindex, ?_, (htaken 1).mp (by decide +kernel)⟩
  have hfirst := (hslot 60 (by rw [hlive]; decide)).1
  rwa [hindex] at hfirst

end AjaDriver
