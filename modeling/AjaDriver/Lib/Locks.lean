/-
# Locks

What is done under a lock, one step at a time, is done in whole sessions, each by one
holder (`Sessions.whole`). And processes that scan a row of locks, taking the first
that is free: if never more than `n` are at it at once, none gets past lock `n`
(`Crowd.below`).
-/
import Mathlib.Data.Finset.Card
import Mathlib.Data.List.Basic
import Mathlib.Logic.Function.Basic

namespace Locks

/-! ### Sessions -/

section Sessions

variable {τ σ : Type*}

/-- The log of a lock and its holder, with what it is still to do: the holder `t` of a
session does the steps of a list with `P t`, in order, and nobody takes the lock
before it is dropped. -/
inductive Sessions (P : τ → List σ → Prop) : List (τ × σ) → Option (τ × List σ) → Prop
  | free : Sessions P [] none
  | take {log : List (τ × σ)} {t : τ} {prog : List σ} (h : Sessions P log none) (hp : P t prog) :
      Sessions P log (some (t, prog))
  | go {log : List (τ × σ)} {t : τ} {a : σ} {todo : List σ}
      (h : Sessions P log (some (t, a :: todo))) : Sessions P (log ++ [(t, a)]) (some (t, todo))
  | drop {log : List (τ × σ)} {t : τ} (h : Sessions P log (some (t, []))) : Sessions P log none

variable {P : τ → List σ → Prop}

/-- The steps of a whole session. -/
def steps (s : τ × List σ) : List (τ × σ) := s.2.map fun a => (s.1, a)

/-- A log of the sessions `done` and of what the holder has done of its own. -/
def Made (P : τ → List σ → Prop) (done : List (τ × List σ)) (log : List (τ × σ)) :
    Option (τ × List σ) → Prop
  | none => log = done.flatMap steps
  | some (t, todo) => ∃ part, P t (part ++ todo) ∧ log = done.flatMap steps ++ steps (t, part)

/-- The log is whole sessions one after the other, and then what the holder has done
of its own. -/
theorem Sessions.whole {log : List (τ × σ)} {holder : Option (τ × List σ)}
    (h : Sessions P log holder) :
    ∃ done : List (τ × List σ), (∀ s ∈ done, P s.1 s.2) ∧ Made P done log holder := by
  induction h with
  | free => exact ⟨[], nofun, rfl⟩
  | take _ hp ih =>
    obtain ⟨done, hdone, hlog⟩ := ih
    exact ⟨done, hdone, [], hp, Eq.trans hlog (List.append_nil _).symm⟩
  | @go log t a todo _ ih =>
    obtain ⟨done, hdone, part, hp, rfl⟩ := ih
    refine ⟨done, hdone, part ++ [a], by rwa [List.append_assoc], ?_⟩
    rw [List.append_assoc]
    unfold steps
    rw [List.map_append]
    rfl
  | @drop log t _ ih =>
    obtain ⟨done, hdone, part, hp, rfl⟩ := ih
    rw [List.append_nil] at hp
    refine ⟨done ++ [(t, part)], ?_, ?_⟩
    · intro s hs
      rcases List.mem_append.mp hs with hs | hs
      · exact hdone s hs
      · obtain rfl := List.mem_singleton.mp hs
        exact hp
    · show _ = (done ++ [(t, part)]).flatMap steps
      rw [List.flatMap_append, List.flatMap_singleton]

end Sessions

/-! ### Scans -/

section Scan

variable {π : Type*}

/-- Where a process is: at none of the locks, about to try one, or holding one. -/
inductive Place
  | out
  | looking (i : ℕ)
  | holding (i : ℕ)
  deriving DecidableEq

/-- The lock a process is at. -/
def Place.at : Place → Option ℕ
  | out => none
  | looking i => some i
  | holding i => some i

/-- One process moves: it begins at lock 0, takes a free lock, goes on from a taken
one to the next, or leaves. -/
inductive Move (pos : π → Place) (p : π) : Place → Prop
  | enter (h : pos p = .out) : Move pos p (.looking 0)
  | take {i : ℕ} (h : pos p = .looking i) (free : ∀ q, pos q ≠ .holding i) : Move pos p (.holding i)
  | skip {i : ℕ} {q : π} (h : pos p = .looking i) (taken : pos q = .holding i) :
      Move pos p (.looking (i + 1))
  | leave : Move pos p .out

/-- At most `n - j` processes are at lock `j` or beyond. -/
def Crowd (n : ℕ) (pos : π → Place) : Prop :=
  ∀ (j : ℕ) (s : Finset π), (∀ p ∈ s, ∃ i, (pos p).at = some i ∧ j ≤ i) → s.card ≤ n - j

theorem Crowd.out (n : ℕ) : Crowd n fun _ : π => Place.out := by
  intro j s hs
  cases s.eq_empty_or_nonempty with
  | inl h => rw [h]; exact Nat.zero_le _
  | inr h =>
    obtain ⟨p, hp⟩ := h
    obtain ⟨i, hi, -⟩ := hs p hp
    cases hi

variable {n : ℕ} {pos : π → Place}

/-- Nobody gets past lock `n`. -/
theorem Crowd.below (h : Crowd n pos) {p : π} {i : ℕ} (hp : (pos p).at = some i) : i < n := by
  have hone := h i {p} (by
    intro q hq
    obtain rfl := Finset.mem_singleton.mp hq
    exact ⟨i, hp, le_rfl⟩)
  rw [Finset.card_singleton] at hone
  omega

variable [DecidableEq π]

/-- A move of one process, after which there are at most `n`. Whoever goes on from a
lock leaves its holder behind. -/
theorem Crowd.move (h : Crowd n pos) {p : π} {x : Place} (hm : Move pos p x)
    (hfew : ∀ s : Finset π, (∀ q ∈ s, Function.update pos p x q ≠ .out) → s.card ≤ n) :
    Crowd n (Function.update pos p x) := by
  intro j s hs
  by_cases hj : j = 0
  · rw [hj]
    refine hfew s fun q hq hout => ?_
    obtain ⟨i, hi, -⟩ := hs q hq
    rw [hout] at hi
    cases hi
  have hothers : ∀ q ∈ s, q ≠ p → ∃ i, (pos q).at = some i ∧ j ≤ i := by
    intro q hq hne
    have hat := hs q hq
    rwa [Function.update_of_ne hne] at hat
  by_cases hp : p ∈ s
  · -- `p` has been at a lock from `j` on already, or it has just come to lock `j`
    obtain ⟨i', hi', hle⟩ := hs p hp
    rw [Function.update_self] at hi'
    have hstayed : (∃ i, (pos p).at = some i ∧ j ≤ i) → s.card ≤ n - j := by
      intro hbefore
      refine h j s fun q hq => ?_
      by_cases hqp : q = p
      · rw [hqp]
        exact hbefore
      · exact hothers q hq hqp
    cases hm with
    | enter hout =>
      cases hi'
      omega
    | @take i hat free =>
      cases hi'
      exact hstayed ⟨_, by rw [hat]; rfl, hle⟩
    | @skip i q hat taken =>
      cases hi'
      by_cases hji : j ≤ i
      · exact hstayed ⟨i, by rw [hat]; rfl, hji⟩
      · have hq : q ∉ s := by
          intro hq
          have hne : q ≠ p := by
            rintro rfl
            rw [hat] at taken
            cases taken
          obtain ⟨i'', hi'', hle''⟩ := hothers q hq hne
          rw [taken] at hi''
          cases hi''
          omega
        have hcard := h i (insert q s) (by
          intro r hr
          rcases Finset.mem_insert.mp hr with rfl | hr
          · exact ⟨i, by rw [taken]; rfl, le_rfl⟩
          · by_cases hrp : r = p
            · rw [hrp]
              exact ⟨i, by rw [hat]; rfl, le_rfl⟩
            · obtain ⟨i'', hi'', hle''⟩ := hothers r hr hrp
              exact ⟨i'', hi'', by omega⟩)
        rw [Finset.card_insert_of_notMem hq] at hcard
        omega
    | leave => cases hi'
  · exact h j s fun q hq => hothers q hq fun hqp => hp (hqp ▸ hq)

end Scan

end Locks
