/-
# Self-delimiting packets

A packet whose first element tells its length: a stream of such packets, one
after the other, can be cut in only one way. `cut` does it; `cut_flatten` says
that it gives back what was joined.
-/
import Mathlib.Data.List.Basic

namespace Packets

variable {α : Type*}

/-- A packet as long as its first element says. -/
def Whole (len : α → ℕ) (p : List α) : Prop := ∃ a, p[0]? = some a ∧ p.length = len a

/-- The first `n` packets of a stream. -/
def cutUpTo (len : α → ℕ) : ℕ → List α → List (List α)
  | 0, _ => []
  | _ + 1, [] => []
  | n + 1, a :: l => (a :: l).take (len a) :: cutUpTo len n ((a :: l).drop (len a))

/-- The packets of a stream. -/
def cut (len : α → ℕ) (l : List α) : List (List α) := cutUpTo len l.length l

variable {len : α → ℕ}

theorem Whole.length_pos {p : List α} (h : Whole len p) : 0 < p.length := by
  obtain ⟨a, ha, -⟩ := h
  cases p with
  | nil => simp at ha
  | cons b p => exact Nat.succ_pos _

theorem cutUpTo_flatten : ∀ (ps : List (List α)) {n : ℕ}, (∀ p ∈ ps, Whole len p) → ps.length ≤ n →
    cutUpTo len n ps.flatten = ps
  | [], 0, _, _ => rfl
  | [], n + 1, _, _ => rfl
  | p :: ps, 0, _, hn => absurd hn (Nat.not_succ_le_zero _)
  | p :: ps, n + 1, h, hn => by
    obtain ⟨a, ha, hlen⟩ := h p (List.mem_cons_self ..)
    obtain ⟨l, rfl⟩ : ∃ l, p = a :: l := by
      cases p with
      | nil => simp at ha
      | cons b l => exact ⟨l, by rw [Option.some.inj (ha : some b = some a)]⟩
    rw [List.flatten_cons, List.cons_append, cutUpTo, ← List.cons_append, ← hlen, List.take_left,
      List.drop_left,
      cutUpTo_flatten ps (fun q hq => h q (List.mem_cons_of_mem _ hq)) (Nat.le_of_succ_le_succ hn)]

theorem length_le_flatten :
    ∀ (ps : List (List α)), (∀ p ∈ ps, Whole len p) → ps.length ≤ ps.flatten.length
  | [], _ => Nat.le_refl _
  | p :: ps, h => by
    have hp := (h p (List.mem_cons_self ..)).length_pos
    have ih := length_le_flatten ps fun q hq => h q (List.mem_cons_of_mem _ hq)
    rw [List.flatten_cons, List.length_append, List.length_cons]
    omega

/-- Packets joined are the packets cut. -/
theorem cut_flatten {ps : List (List α)} (h : ∀ p ∈ ps, Whole len p) : cut len ps.flatten = ps :=
  cutUpTo_flatten ps h (length_le_flatten ps h)

end Packets
