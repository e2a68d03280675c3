/-
# Waiting for a condition

A task that waits for a condition with a timeout, as the kernel's wait queues have it: it
enters the queue and makes itself a sleeper first, and looks at the condition then.
Whoever makes the condition hold wakes the queue afterwards; in between the wake-up is
due. A task never sleeps on a condition that holds unless its wake-up is due
(`Waiter.Inv`), and once the condition holds and it is awake it ends in a few steps of
its own (`Waiter.Awake.next`). What a wait returns is read off `Waiter.Told`, for a
condition that goes on holding.
-/
import Mathlib.Algebra.Order.Group.Int
import Mathlib.Tactic.SplitIfs

namespace Waiting

/-- The next step of a task that waits. -/
inductive At
  | test
  | prepare
  | check
  | signals
  | schedule
  | finish
  | returned
  deriving DecidableEq, Repr

/-- A task: what it waits for, its next step, whether it is in the queue, a sleeper, or
has a signal pending, the time it has left and what the wait returns. -/
structure Waiter (K : Type*) where
  key : K
  pc : At
  queued : Bool
  asleep : Bool
  pending : Bool
  left : ℕ
  ret : ℤ
  deriving DecidableEq, Repr

variable {K : Type*}

namespace Waiter

/-- What a wait returns that a signal ended. -/
def restart : ℤ := -512

/-- A task that begins to wait, with a signal pending or not. -/
def start (key : K) (timeout : ℕ) (pending : Bool) : Waiter K :=
  ⟨key, .test, false, false, pending, timeout, 0⟩

/-- A step of the task; `holds` is the condition. -/
def next (holds : Bool) (w : Waiter K) : Waiter K :=
  match w.pc with
  | .test => if holds then { w with pc := .returned, ret := w.left } else { w with pc := .prepare }
  | .prepare => { w with pc := .check, queued := true, asleep := true }
  | .check => if holds then { w with pc := .finish, ret := w.left } else { w with pc := .signals }
  | .signals =>
    if w.pending then { w with pc := .finish, ret := restart } else { w with pc := .schedule }
  -- a sleeper does not come back from here
  | .schedule =>
    if w.asleep then w else if w.left = 0 then { w with pc := .finish, ret := 0 }
      else { w with pc := .prepare }
  | .finish => { w with pc := .returned, queued := false, asleep := false }
  | .returned => w

/-- The queue is woken: a sleeper in it becomes runnable and leaves it. -/
def wake (w : Waiter K) : Waiter K :=
  if w.queued && w.asleep then { w with queued := false, asleep := false } else w

def signal (w : Waiter K) : Waiter K := { w with pending := true, asleep := false }

/-- A tick of the clock; the timer of a sleeper runs out at the last one. -/
def tick (w : Waiter K) : Waiter K :=
  if w.pc = .schedule then { w with left := w.left - 1, asleep := w.asleep && decide (1 < w.left) }
    else w

/-- It has left the processor. -/
def Stopped (w : Waiter K) : Prop := w.pc = .schedule ∧ w.asleep = true

instance (w : Waiter K) : Decidable w.Stopped := inferInstanceAs (Decidable (_ ∧ _))

/-- What is kept of a task that may sleep, when the condition `holds` and a wake-up is
`due`. -/
structure Inv (holds due : Bool) (w : Waiter K) : Prop where
  queued : w.asleep = true → w.pc ≠ .finish → w.queued = true
  fresh : w.asleep = true → w.pc = .signals ∨ w.pc = .schedule → holds = true → due = true
  awake : w.pc = .test ∨ w.pc = .prepare → w.asleep = false

variable {holds due : Bool} {w : Waiter K}

theorem inv_start (key : K) (timeout : ℕ) (pending holds due : Bool) :
    (start key timeout pending).Inv holds due where
  queued := nofun
  fresh := nofun
  awake _ := rfl

theorem Inv.next (h : w.Inv holds due) : (w.next holds).Inv holds due := by
  unfold Waiter.next
  cases hpc : w.pc with
  | test =>
    have hasleep := h.awake (.inl hpc)
    dsimp only
    split_ifs
    · refine ⟨fun hs => ?_, fun hs => ?_, nofun⟩
      · exact absurd (hasleep.symm.trans hs) Bool.false_ne_true
      · exact absurd (hasleep.symm.trans hs) Bool.false_ne_true
    · refine ⟨fun hs => ?_, fun hs => ?_, fun _ => hasleep⟩
      · exact absurd (hasleep.symm.trans hs) Bool.false_ne_true
      · exact absurd (hasleep.symm.trans hs) Bool.false_ne_true
  | prepare => exact ⟨fun _ _ => rfl, fun _ hat => hat.elim nofun nofun, nofun⟩
  | check =>
    dsimp only
    split_ifs with hholds
    · exact ⟨fun _ hfin => absurd rfl hfin, fun _ hat => hat.elim nofun nofun, nofun⟩
    · exact ⟨fun hs _ => h.queued hs (by simp [hpc]), fun _ _ hyes => absurd hyes hholds, nofun⟩
  | signals =>
    dsimp only
    split_ifs
    · exact ⟨fun _ hfin => absurd rfl hfin, fun _ hat => hat.elim nofun nofun, nofun⟩
    · exact ⟨fun hs _ => h.queued hs (by simp [hpc]), fun hs _ => h.fresh hs (.inl hpc), nofun⟩
  | schedule =>
    dsimp only
    split_ifs with hasleep
    · exact h
    · exact ⟨fun hs => absurd hs hasleep, fun hs => absurd hs hasleep, nofun⟩
    · exact ⟨fun hs => absurd hs hasleep, fun hs => absurd hs hasleep,
        fun _ => Bool.eq_false_of_not_eq_true hasleep⟩
  | finish => exact ⟨nofun, nofun, nofun⟩
  | returned => exact h

theorem Inv.wake (h : w.Inv holds due) : w.wake.Inv holds false := by
  unfold Waiter.wake
  split_ifs with hboth
  · exact ⟨nofun, nofun, fun _ => rfl⟩
  · -- a sleeper is in the queue
    refine ⟨h.queued, fun hs hat => ?_, h.awake⟩
    have hqueued : w.queued = true := h.queued hs (by rcases hat with hat | hat <;> simp [hat])
    exact absurd (Bool.and_eq_true_iff.mpr ⟨hqueued, hs⟩) hboth

theorem Inv.signal (_ : w.Inv holds due) : w.signal.Inv holds due where
  queued := nofun
  fresh := nofun
  awake _ := rfl

theorem Inv.tick (h : w.Inv holds due) : w.tick.Inv holds due := by
  unfold Waiter.tick
  split_ifs with hpc
  · have hwas : (w.asleep && decide (1 < w.left)) = true → w.asleep = true :=
      fun hs => (Bool.and_eq_true_iff.mp hs).1
    refine ⟨fun hs => h.queued (hwas hs), fun hs => h.fresh (hwas hs), fun hat => ?_⟩
    exact hat.elim (fun ht => absurd (hpc.symm.trans ht) nofun) fun ht =>
      absurd (hpc.symm.trans ht) nofun
  · exact h

/-- The condition may change, with a wake-up due. -/
theorem Inv.change (h : w.Inv holds due) (holds' : Bool) : w.Inv holds' true :=
  ⟨h.queued, fun _ _ _ => rfl, h.awake⟩

/-- The condition may cease to hold. -/
theorem Inv.cease (h : w.Inv holds due) {holds' : Bool} (hle : holds' = true → holds = true) :
    w.Inv holds' due :=
  ⟨h.queued, fun hs hat hholds => h.fresh hs hat (hle hholds), h.awake⟩

/-- Nothing sleeps on a condition that holds, when no wake-up is due. -/
theorem Inv.not_stopped (h : w.Inv true false) : ¬ w.Stopped := fun hstop =>
  Bool.false_ne_true (h.fresh hstop.2 (.inr hstop.1) rfl)

/-! ### What a wait returns -/

/-- What is kept of what a task returns, when the condition goes on holding once it does. -/
structure Told (holds : Bool) (w : Waiter K) : Prop where
  left : w.pc ≠ .schedule → w.pc ≠ .finish → w.pc ≠ .returned → 0 < w.left
  ended : w.pc = .finish ∨ w.pc = .returned →
    w.ret = 0 ∧ w.left = 0 ∨ w.ret = restart ∧ w.pending = true ∨ 0 < w.ret ∧ holds = true

theorem told_start (key : K) {timeout : ℕ} (h : 0 < timeout) (pending holds : Bool) :
    (start key timeout pending).Told holds where
  left _ _ _ := h
  ended hpc := hpc.elim nofun nofun

theorem Told.next (h : w.Told holds) : (w.next holds).Told holds := by
  have hpos : w.pc = .test ∨ w.pc = .prepare ∨ w.pc = .check → 0 < w.left := by
    intro hat
    refine h.left ?_ ?_ ?_ <;> rcases hat with hat | hat | hat <;> simp [hat]
  have hthere : holds = true → 0 < w.left → (w.left : ℤ) = 0 ∧ w.left = 0 ∨
      (w.left : ℤ) = restart ∧ w.pending = true ∨ 0 < (w.left : ℤ) ∧ holds = true :=
    fun hholds hleft => .inr (.inr ⟨Int.natCast_pos.mpr hleft, hholds⟩)
  unfold Waiter.next
  cases hpc : w.pc with
  | test =>
    have hleft := hpos (.inl hpc)
    dsimp only
    split_ifs with hholds
    · exact ⟨fun _ _ hover => absurd rfl hover, fun _ => hthere hholds hleft⟩
    · exact ⟨fun _ _ _ => hleft, nofun⟩
  | prepare => exact ⟨fun _ _ _ => hpos (.inr (.inl hpc)), nofun⟩
  | check =>
    have hleft := hpos (.inr (.inr hpc))
    dsimp only
    split_ifs with hholds
    · exact ⟨fun _ hfin => absurd rfl hfin, fun _ => hthere hholds hleft⟩
    · exact ⟨fun _ _ _ => hleft, nofun⟩
  | signals =>
    dsimp only
    split_ifs with hpending
    · exact ⟨fun _ hfin => absurd rfl hfin, fun _ => .inr (.inl ⟨rfl, hpending⟩)⟩
    · exact ⟨fun hschedule => absurd rfl hschedule, nofun⟩
  | schedule =>
    dsimp only
    split_ifs with hasleep hleft
    · exact h
    · exact ⟨fun _ hfin => absurd rfl hfin, fun _ => .inl ⟨rfl, hleft⟩⟩
    · exact ⟨fun _ _ _ => Nat.pos_of_ne_zero hleft, nofun⟩
  | finish => exact ⟨fun _ _ hover => absurd rfl hover, fun _ => h.ended (.inl hpc)⟩
  | returned => exact h

theorem Told.wake (h : w.Told holds) : w.wake.Told holds := by
  unfold Waiter.wake
  split_ifs
  · exact ⟨h.left, h.ended⟩
  · exact h

theorem Told.signal (h : w.Told holds) : w.signal.Told holds where
  left := h.left
  ended hpc := (h.ended hpc).imp id (Or.imp (fun hret => ⟨hret.1, rfl⟩) id)

theorem Told.tick (h : w.Told holds) : w.tick.Told holds := by
  unfold Waiter.tick
  split_ifs with hpc
  · refine ⟨fun hschedule => absurd hpc hschedule, fun hat => ?_⟩
    exact hat.elim (fun ht => absurd (hpc.symm.trans ht) nofun) fun ht =>
      absurd (hpc.symm.trans ht) nofun
  · exact h

/-- The condition begins to hold. -/
theorem Told.rise (h : w.Told holds) {holds' : Bool} (hle : holds = true → holds' = true) :
    w.Told holds' where
  left := h.left
  ended hpc := (h.ended hpc).imp id (Or.imp id fun hret => ⟨hret.1, hle hret.2⟩)

/-! ### The end of a wait -/

/-- The steps a task still takes, at most, once the condition holds and it is awake. -/
def rank (w : Waiter K) : ℕ :=
  match w.pc with
  | .signals => 6
  | .schedule => 5
  | .test => 4
  | .prepare => 3
  | .check => 2
  | .finish => 1
  | .returned => 0

theorem rank_le (w : Waiter K) : w.rank ≤ 6 := by
  unfold rank
  cases w.pc <;> decide

theorem rank_eq_zero : w.rank = 0 ↔ w.pc = .returned := by
  unfold rank
  cases w.pc <;> simp

/-- It does not sleep, or looks at the condition before it does. -/
def Awake (w : Waiter K) : Prop := w.pc = .signals ∨ w.pc = .schedule → w.asleep = false

/-- The condition holds and the queue was woken since. -/
theorem Inv.awake_of (h : w.Inv true false) : w.Awake := by
  intro hat
  by_contra hs
  exact Bool.false_ne_true (h.fresh (Bool.eq_true_of_not_eq_false hs) hat rfl)

theorem Awake.wake (h : w.Awake) : w.wake.Awake := by
  unfold Waiter.wake
  split_ifs
  · exact fun _ => rfl
  · exact h

theorem Awake.signal : w.signal.Awake := fun _ => rfl

theorem Awake.tick (h : w.Awake) : w.tick.Awake := by
  unfold Waiter.tick
  split_ifs
  · intro hat
    show (w.asleep && _) = false
    rw [h hat, Bool.false_and]
  · exact h

@[simp] theorem wake_pc : w.wake.pc = w.pc := by
  unfold Waiter.wake
  split_ifs <;> rfl

@[simp] theorem tick_pc : w.tick.pc = w.pc := by
  unfold Waiter.tick
  split_ifs <;> rfl

@[simp] theorem signal_pc : w.signal.pc = w.pc := rfl

@[simp] theorem wake_key : w.wake.key = w.key := by
  unfold Waiter.wake
  split_ifs <;> rfl

@[simp] theorem tick_key : w.tick.key = w.key := by
  unfold Waiter.tick
  split_ifs <;> rfl

@[simp] theorem signal_key : w.signal.key = w.key := rfl

@[simp] theorem next_key (holds : Bool) : (w.next holds).key = w.key := by
  unfold Waiter.next
  cases w.pc <;> dsimp only <;> split_ifs <;> rfl

/-- What others do leaves the rank. -/
theorem rank_congr {v : Waiter K} (h : v.pc = w.pc) : v.rank = w.rank := by
  unfold rank
  rw [h]

/-- A step of an awake task whose condition holds. -/
theorem Awake.next (h : w.Awake) : (w.next true).Awake ∧ (w.next true).rank ≤ w.rank - 1 := by
  unfold Waiter.next
  cases hpc : w.pc with
  | test => exact ⟨fun hat => hat.elim nofun nofun, by simp [rank, hpc]⟩
  | prepare => exact ⟨fun hat => hat.elim nofun nofun, by simp [rank, hpc]⟩
  | check => exact ⟨fun hat => hat.elim nofun nofun, by simp [rank, hpc]⟩
  | signals =>
    have hs : w.asleep = false := h (.inl hpc)
    dsimp only
    split_ifs
    · exact ⟨fun hat => hat.elim nofun nofun, by simp [rank, hpc]⟩
    · exact ⟨fun _ => hs, by simp [rank, hpc]⟩
  | schedule =>
    have hs : w.asleep = false := h (.inr hpc)
    dsimp only
    rw [hs, if_neg Bool.false_ne_true]
    split_ifs
    · exact ⟨fun hat => hat.elim nofun nofun, by simp [rank, hpc]⟩
    · exact ⟨fun hat => hat.elim nofun nofun, by simp [rank, hpc]⟩
  | finish => exact ⟨fun hat => hat.elim nofun nofun, by simp [rank, hpc]⟩
  | returned => exact ⟨h, by simp [rank, hpc]⟩

end Waiter

end Waiting
