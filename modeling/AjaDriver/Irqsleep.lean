/-
# Sleeping for an interrupt

`aja_ioctl_irqsleep` reads the count of an interrupt type, enters its wait queue
and sleeps until the count changes; any number of tasks do this, at any time,
and an interrupt may fall between any two of their steps. The count is compared
before the task's state is set, so an interrupt between the two finds the task
awake and is slept through (`irq_lost`); an interrupt anywhere else is not
(`irqsleep_notices`).
-/
import AjaDriver.Lib.Runs
import Mathlib.Data.BitVec
import Mathlib.Data.Fintype.Basic

namespace AjaDriver

open Runs

def irqTypes : ℕ := 11

/-! ### A task -/

/-- The next step of a task in `aja_ioctl_irqsleep`. -/
inductive SleepAt
  | idle
  | count
  | enqueue
  | compare
  | setState
  | signals
  | schedule
  | inSchedule
  | setRunning
  | dequeue
  deriving DecidableEq, Repr

/-- A task: the interrupt type it sleeps for, the count it first read, whether it
is on the type's wait queue, whether its state is `TASK_INTERRUPTIBLE` rather
than `TASK_RUNNING`, and whether a signal is pending. -/
structure Sleeper where
  pc : SleepAt
  v : ℕ
  cirq : BitVec 64
  queued : Bool
  sleeping : Bool
  pending : Bool
  deriving DecidableEq, Repr

/-- A task that has left the processor in `schedule`. -/
def Sleeper.Stopped (t : Sleeper) : Prop := t.pc = .inSchedule ∧ t.sleeping = true

instance Sleeper.decidableStopped (t : Sleeper) : Decidable t.Stopped :=
  inferInstanceAs (Decidable (_ ∧ _))

/-- A call of `aja_ioctl_irqsleep`, up to its test of the type. -/
def Sleeper.call (t : Sleeper) (v : ℕ) : Sleeper :=
  if t.pc = .idle ∧ v < irqTypes then { t with pc := .count, v := v, pending := false } else t

/-- A step of `aja_ioctl_irqsleep`, where `irqcount` is the count of the type. -/
def Sleeper.next (t : Sleeper) (irqcount : BitVec 64) : Sleeper :=
  match t.pc with
  | .idle => t
  | .count => { t with pc := .enqueue, cirq := irqcount }
  | .enqueue => { t with pc := .compare, queued := true }
  | .compare =>
    if irqcount = t.cirq then { t with pc := .setState } else { t with pc := .setRunning }
  | .setState => { t with pc := .signals, sleeping := true }
  | .signals => if t.pending then { t with pc := .setRunning } else { t with pc := .schedule }
  | .schedule => { t with pc := .inSchedule }
  -- a task whose state is sleeping does not return from schedule
  | .inSchedule => if t.sleeping then t else { t with pc := .compare }
  | .setRunning => { t with pc := .dequeue, sleeping := false }
  | .dequeue => { t with pc := .idle, queued := false }

/-- What `wake_up_all` on the queue of type `v` does to a task. -/
def Sleeper.wake (t : Sleeper) (v : ℕ) : Sleeper :=
  if t.v = v ∧ t.queued then { t with sleeping := false } else t

/-- A signal sent to the task: a sleeping one becomes runnable. -/
def Sleeper.signal (t : Sleeper) : Sleeper := { t with pending := true, sleeping := false }

/-! ### All tasks -/

variable {ι : Type} [DecidableEq ι]

/-- The counts of the interrupts, and the tasks. -/
structure Sleepers (ι : Type) where
  irqcount : ℕ → BitVec 64
  task : ι → Sleeper

inductive SleepAct (ι : Type)
  | call (i : ι) (v : ℕ)
  | go (i : ι)
  | signal (i : ι)
  | irq (v : ℕ)
  deriving DecidableEq, Repr

def Sleepers.set (s : Sleepers ι) (i : ι) (t : Sleeper) : Sleepers ι :=
  { s with task := Function.update s.task i t }

/-- One step of one task, or one interrupt. -/
def Sleepers.step (s : Sleepers ι) : SleepAct ι → Sleepers ι
  | .call i v => s.set i ((s.task i).call v)
  | .go i => s.set i ((s.task i).next (s.irqcount (s.task i).v))
  | .signal i => s.set i (s.task i).signal
  | .irq v =>
    { irqcount := Function.update s.irqcount v (s.irqcount v + 1)
      task := fun i => (s.task i).wake v }

def Sleepers.init : Sleepers ι := ⟨fun _ => 0, fun _ => ⟨.idle, 0, 0, false, false, false⟩⟩

/-- No interrupt falls between a task's comparison and the setting of its state. -/
def Apart (s : Sleepers ι) : SleepAct ι → Prop
  | .irq v => ∀ i, (s.task i).pc = .setState → (s.task i).v ≠ v
  | _ => True

/-! ### What is noticed -/

/-- A task inside the loop is on the queue, and one that is about to sleep or
sleeps has seen the count as it is. -/
structure Sleeper.Inv (t : Sleeper) (irqcount : BitVec 64) : Prop where
  queued : t.pc ≠ .idle → t.pc ≠ .count → t.pc ≠ .enqueue → t.queued = true
  fresh : t.pc = .setState → irqcount = t.cirq
  asleep : t.sleeping = true → t.pc = .signals ∨ t.pc = .schedule ∨ t.pc = .inSchedule →
    irqcount = t.cirq

variable {t : Sleeper} {n : BitVec 64} {irqcount : ℕ → BitVec 64} {s : Sleepers ι}

theorem Sleeper.Inv.call (h : t.Inv (irqcount t.v)) (v : ℕ) :
    (t.call v).Inv (irqcount (t.call v).v) := by
  unfold Sleeper.call
  by_cases hcall : t.pc = .idle ∧ v < irqTypes
  · rw [if_pos hcall]
    exact ⟨fun _ hcount _ => absurd rfl hcount, nofun, fun _ hpc => by simp at hpc⟩
  · rwa [if_neg hcall]

theorem next_v (t : Sleeper) (n : BitVec 64) : (t.next n).v = t.v := by
  unfold Sleeper.next
  cases t.pc <;> simp only <;> (try split) <;> rfl

theorem Sleeper.Inv.next (h : t.Inv n) : (t.next n).Inv n := by
  unfold Sleeper.next
  cases hpc : t.pc with
  | idle => exact h
  | count => exact ⟨fun _ _ henqueue => absurd rfl henqueue, nofun, fun _ hpc => by simp at hpc⟩
  | enqueue => exact ⟨fun _ _ _ => rfl, nofun, fun _ hpc => by simp at hpc⟩
  | compare =>
    have hqueued := h.queued (by simp [hpc]) (by simp [hpc]) (by simp [hpc])
    by_cases hsame : n = t.cirq
    · simp only [if_pos hsame]
      exact ⟨fun _ _ _ => hqueued, fun _ => hsame, fun _ hpc => by simp at hpc⟩
    · simp only [if_neg hsame]
      exact ⟨fun _ _ _ => hqueued, nofun, fun _ hpc => by simp at hpc⟩
  | setState =>
    have hqueued := h.queued (by simp [hpc]) (by simp [hpc]) (by simp [hpc])
    exact ⟨fun _ _ _ => hqueued, nofun, fun _ _ => h.fresh hpc⟩
  | signals =>
    have hqueued := h.queued (by simp [hpc]) (by simp [hpc]) (by simp [hpc])
    by_cases hpending : t.pending = true
    · simp only [if_pos hpending]
      exact ⟨fun _ _ _ => hqueued, nofun, fun _ hpc => by simp at hpc⟩
    · simp only [if_neg hpending]
      exact ⟨fun _ _ _ => hqueued, nofun, fun hsleeping _ => h.asleep hsleeping (.inl hpc)⟩
  | schedule =>
    have hqueued := h.queued (by simp [hpc]) (by simp [hpc]) (by simp [hpc])
    exact ⟨fun _ _ _ => hqueued, nofun, fun hsleeping _ => h.asleep hsleeping (.inr (.inl hpc))⟩
  | inSchedule =>
    have hqueued := h.queued (by simp [hpc]) (by simp [hpc]) (by simp [hpc])
    by_cases hsleeping : t.sleeping = true
    · simp only [if_pos hsleeping]
      exact h
    · simp only [if_neg hsleeping]
      exact ⟨fun _ _ _ => hqueued, nofun, fun _ hpc => by simp at hpc⟩
  | setRunning =>
    have hqueued := h.queued (by simp [hpc]) (by simp [hpc]) (by simp [hpc])
    exact ⟨fun _ _ _ => hqueued, nofun, nofun⟩
  | dequeue => exact ⟨fun hidle => absurd rfl hidle, nofun, fun _ hpc => by simp at hpc⟩

theorem Sleeper.Inv.signal (h : t.Inv n) : t.signal.Inv n := ⟨h.queued, h.fresh, nofun⟩

/-- An interrupt, which a task that has compared and not yet set its state does
not see. -/
theorem Sleeper.Inv.wake (h : t.Inv (irqcount t.v)) {v : ℕ} (hapart : t.pc = .setState → t.v ≠ v) :
    (t.wake v).Inv (Function.update irqcount v (irqcount v + 1) (t.wake v).v) := by
  have hv : (t.wake v).v = t.v := by
    unfold Sleeper.wake
    split <;> rfl
  have hpc : (t.wake v).pc = t.pc := by
    unfold Sleeper.wake
    split <;> rfl
  rw [hv]
  by_cases hsame : t.v = v
  · have hqueued : (t.wake v).queued = t.queued := by
      unfold Sleeper.wake
      split <;> rfl
    refine ⟨fun h1 h2 h3 => ?_, fun hset => ?_, fun hsleeping hat => ?_⟩
    · rw [hpc] at h1 h2 h3
      exact hqueued.trans (h.queued h1 h2 h3)
    · rw [hpc] at hset
      exact absurd hsame (hapart hset)
    · -- the task is on the queue, so it was woken
      rw [hpc] at hat
      have hq : t.queued = true := by
        apply h.queued
        all_goals rcases hat with hat | hat | hat <;> simp [hat]
      unfold Sleeper.wake at hsleeping
      rw [if_pos ⟨hsame, hq⟩] at hsleeping
      exact absurd hsleeping Bool.false_ne_true
  · have hwake : t.wake v = t := if_neg fun hv => hsame hv.1
    rwa [hwake, Function.update_of_ne hsame]

/-- The invariant of all tasks. -/
def Sleepers.Inv (s : Sleepers ι) : Prop := ∀ i, (s.task i).Inv (s.irqcount (s.task i).v)

theorem Sleepers.Inv.set (h : s.Inv) {i : ι} {t : Sleeper} (ht : t.Inv (s.irqcount t.v)) :
    (s.set i t).Inv := by
  intro j
  show (Function.update s.task i t j).Inv (s.irqcount (Function.update s.task i t j).v)
  by_cases hj : j = i
  · subst hj
    rwa [Function.update_self]
  · rw [Function.update_of_ne hj]
    exact h j

theorem Sleepers.Inv.step (h : s.Inv) (a : SleepAct ι) (hapart : Apart s a) : (s.step a).Inv := by
  cases a with
  | call i v => exact h.set ((h i).call v)
  | go i =>
    apply h.set
    rw [next_v]
    exact (h i).next
  | signal i => exact h.set (h i).signal
  | irq v => exact fun i => (h i).wake (hapart i)

omit [DecidableEq ι] in
theorem init_inv : (Sleepers.init : Sleepers ι).Inv :=
  fun _ => ⟨fun hidle => absurd rfl hidle, nofun, nofun⟩

/-- While no interrupt falls between a comparison and the setting of a state, no
task is stopped in `schedule` with a count other than the one it first read. -/
theorem irqsleep_notices (h : Reach Sleepers.step Apart Sleepers.init s) (i : ι)
    (hstopped : (s.task i).Stopped) : s.irqcount (s.task i).v = (s.task i).cirq := by
  have hinv : s.Inv := h.inv init_inv fun _ a hs ha => hs.step a ha
  exact (hinv i).asleep hstopped.2 (.inr (.inr hstopped.1))

instance Apart.decidable [Fintype ι] (s : Sleepers ι) (a : SleepAct ι) : Decidable (Apart s a) :=
  match a with
  | .irq v => inferInstanceAs (Decidable (∀ i, (s.task i).pc = .setState → (s.task i).v ≠ v))
  | .call _ _ => instDecidableTrue
  | .go _ => instDecidableTrue
  | .signal _ => instDecidableTrue

/-- A task sleeps for type 2, an interrupt comes when its state is set and before
it calls `schedule`, it returns and sleeps again. -/
def twoSleeps : List (SleepAct (Fin 1)) :=
  .call 0 2 :: List.replicate 4 (.go 0) ++ .irq 2 :: List.replicate 6 (.go 0) ++
    .call 0 2 :: List.replicate 6 (.go 0)

theorem irqsleep_notices_two : ((twoSleeps.foldl Sleepers.step Sleepers.init).task 0).Stopped ∧
    (twoSleeps.foldl Sleepers.step Sleepers.init).irqcount 2 = 1 := by
  have hstopped : ((twoSleeps.foldl Sleepers.step Sleepers.init).task 0).Stopped := by
    decide +kernel
  exact ⟨hstopped, irqsleep_notices (Reach.of_along twoSleeps (by decide +kernel)) 0 hstopped⟩

/-! ### What is slept through -/

/-- An interrupt after a task compared and before it sets its state, in whatever
state that is: the task stops in `schedule`, with the interrupt counted. -/
theorem irq_lost {i : ι} (hpc : (s.task i).pc = .setState)
    (hfresh : s.irqcount (s.task i).v = (s.task i).cirq) (hpending : (s.task i).pending = false) :
    let s' := [.irq (s.task i).v, .go i, .go i, .go i].foldl Sleepers.step s
    (s'.task i).Stopped ∧ s'.irqcount (s'.task i).v ≠ (s'.task i).cirq := by
  have hwake : ∀ v, ((s.task i).wake v).pc = .setState ∧ ((s.task i).wake v).v = (s.task i).v ∧
      ((s.task i).wake v).cirq = (s.task i).cirq ∧ ((s.task i).wake v).pending = false := by
    intro v
    unfold Sleeper.wake
    split <;> exact ⟨hpc, rfl, rfl, hpending⟩
  obtain ⟨hpc', hv, hcirq, hpending'⟩ := hwake (s.task i).v
  simp [Sleepers.step, Sleepers.set, Sleeper.next, Sleeper.Stopped, hpc', hv, hcirq,
    hpending', ← hfresh]

/-- Such an interrupt, of the first count. -/
theorem irqsleep_lost :
    ∃ s : Sleepers (Fin 1), Reach Sleepers.step (fun _ _ => True) Sleepers.init s ∧
    (s.task 0).Stopped ∧ s.irqcount (s.task 0).v ≠ (s.task 0).cirq := by
  let before :=
    (SleepAct.call (0 : Fin 1) 2 :: List.replicate 3 (.go 0)).foldl Sleepers.step Sleepers.init
  have hreach : Reach Sleepers.step (fun _ _ => True) Sleepers.init before :=
    Reach.of_along _ (along_true _ _)
  refine ⟨_, hreach.trans (Reach.of_along _ (along_true _ _)),
    irq_lost (i := 0) (s := before) ?_ ?_ ?_⟩
  · decide
  · decide
  · decide

end AjaDriver
