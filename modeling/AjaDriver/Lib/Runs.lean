/-
# Runs of a guarded system

A system is a step function; a guard says which actions its environment
takes in which state. `Reach step ok s₀` holds of the states the runs from
`s₀` visit. Invariants are proved once for a step and carried to every state
by `Reach.inv`; `Reach.mono` relates two disciplines of the environment. A trace
keeps what happened in order, the last event at its end; `Behind` says what
came before an event.
-/
import Mathlib.Data.List.Basic

namespace Runs

variable {σ α : Type*}

/-- The states of the runs from `s₀` whose every action passes the guard. -/
inductive Reach (step : σ → α → σ) (ok : σ → α → Prop) (s₀ : σ) : σ → Prop
  | refl : Reach step ok s₀ s₀
  | tail {s : σ} {a : α} : Reach step ok s₀ s → ok s a → Reach step ok s₀ (step s a)

variable {step : σ → α → σ} {ok ok' : σ → α → Prop} {s₀ s t : σ}

/-- What holds at the start and is kept by every step holds in every state. -/
theorem Reach.inv {I : σ → Prop} (h0 : I s₀) (hs : ∀ s a, I s → ok s a → I (step s a))
    (h : Reach step ok s₀ s) : I s := by
  induction h with
  | refl => exact h0
  | tail _ ha ih => exact hs _ _ ih ha

theorem Reach.mono (hle : ∀ s a, ok s a → ok' s a) (h : Reach step ok s₀ s) :
    Reach step ok' s₀ s := by
  induction h with
  | refl => exact .refl
  | tail _ ha ih => exact ih.tail (hle _ _ ha)

theorem Reach.trans (h : Reach step ok s₀ s) (h' : Reach step ok s t) : Reach step ok s₀ t := by
  induction h' with
  | refl => exact h
  | tail _ ha ih => exact ih.tail ha

/-- An action the guard lets through in the first state. -/
theorem Reach.one {a : α} (ha : ok s a) : Reach step ok s (step s a) := .tail .refl ha

/-- The guard lets the actions `l` through, one after the other. -/
def Along (step : σ → α → σ) (ok : σ → α → Prop) : σ → List α → Prop
  | _, [] => True
  | s, a :: l => ok s a ∧ Along step ok (step s a) l

instance Along.decidable [∀ s a, Decidable (ok s a)] : ∀ (s : σ)
    (l : List α), Decidable (Along step ok s l)
  | _, [] => instDecidableTrue
  | s, a :: l =>
    have := Along.decidable (step s a) l
    inferInstanceAs (Decidable (ok s a ∧ Along step ok (step s a) l))

/-- A guard that lets everything through. -/
theorem along_true : ∀ (l : List α) (s : σ), Along step (fun _ _ => True) s l
  | [], _ => trivial
  | _ :: l, _ => ⟨trivial, along_true l _⟩

theorem along_append : ∀ (l m : List α) {s : σ}, Along step ok s (l ++ m) ↔
    Along step ok s l ∧ Along step ok (l.foldl step s) m
  | [], _, _ => ⟨fun h => ⟨trivial, h⟩, fun h => h.2⟩
  | a :: l, m, s => by
    rw [List.cons_append, Along, Along, along_append l m, List.foldl_cons, and_assoc]

/-- A run given by its actions. -/
theorem Reach.of_along :
    ∀ (l : List α) {s : σ}, Along step ok s l → Reach step ok s (l.foldl step s)
  | [], _, _ => .refl
  | _ :: l, _, h => (Reach.one h.1).trans (Reach.of_along l h.2)

/-! ### What came before an event -/

/-- Before every event of the trace `tr` with `P`, what happened had `Q`. -/
def Behind (P : α → Prop) (Q : List α → Prop) (tr : List α) : Prop :=
  ∀ l x m, tr = l ++ x :: m → P x → Q l

variable {P : α → Prop} {Q : List α → Prop} {tr : List α}

theorem Behind.nil : Behind P Q [] := fun _ _ _ h => absurd h.symm (by simp)

/-- A trace with one event more. -/
theorem Behind.concat (h : Behind P Q tr) {y : α} (hy : P y → Q tr) : Behind P Q (tr ++ [y]) := by
  intro l x m hsplit hx
  rcases List.eq_nil_or_concat' m with rfl | ⟨m', z, rfl⟩
  · obtain ⟨rfl, rfl⟩ := List.append_singleton_inj.mp hsplit
    exact hy hx
  · rw [← List.cons_append, ← List.append_assoc] at hsplit
    exact h l x m' (List.append_singleton_inj.mp hsplit).1 hx

end Runs
