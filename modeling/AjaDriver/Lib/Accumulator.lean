/-
# Fixed-point accumulators

A rate that is not a whole number of units for each step is kept by an
accumulator: each step adds an amount in parts of a unit, `D` parts to one,
and takes out the whole units. `ticks` counts the units that the amounts `l`
yield, and what is left is `rest`. Nothing is lost between the steps: the units
of a run are those of its first part and of the others from what the first
leaves (`ticks_append`), and a run that adds more yields at least as many
(`ticks_mono`).
-/
import Mathlib.Algebra.BigOperators.Group.List.Basic
import Mathlib.Algebra.Order.BigOperators.Group.List
import Mathlib.Algebra.Order.Ring.Int

namespace Accumulator

/-- The whole units that the amounts `l` yield from an accumulator of `a`. -/
def ticks (D a : ℤ) (l : List ℤ) : ℤ := (a + l.sum) / D

/-- What they leave. -/
def rest (D a : ℤ) (l : List ℤ) : ℤ := (a + l.sum) % D

variable {D a : ℤ}

theorem ticks_nil (h0 : 0 ≤ a) (h : a < D) : ticks D a [] = 0 := by
  unfold ticks
  rw [List.sum_nil, add_zero]
  exact Int.ediv_eq_zero_of_lt h0 h

theorem ticks_singleton (s : ℤ) : ticks D a [s] = (a + s) / D := by
  unfold ticks
  rw [List.sum_singleton]

theorem rest_nil (h0 : 0 ≤ a) (h : a < D) : rest D a [] = a := by
  unfold rest
  rw [List.sum_nil, add_zero]
  exact Int.emod_eq_of_lt h0 h

theorem rest_append (l m : List ℤ) : rest D a (l ++ m) = rest D (rest D a l) m := by
  unfold rest
  rw [List.sum_append, ← add_assoc, Int.emod_add_emod]

/-- The first amounts take out whole units, and what they leave goes on. -/
theorem ticks_append (hD : D ≠ 0) (l m : List ℤ) :
    ticks D a (l ++ m) = ticks D a l + ticks D (rest D a l) m := by
  unfold ticks rest
  rw [List.sum_append]
  have hsplit : a + (l.sum + m.sum) = ((a + l.sum) % D + m.sum) + (a + l.sum) / D * D := by
    have hdiv := Int.emod_add_ediv_mul (a + l.sum) D
    omega
  rw [hsplit, Int.add_mul_ediv_right _ _ hD, add_comm]

theorem rest_nonneg (hD : D ≠ 0) (l : List ℤ) : 0 ≤ rest D a l := Int.emod_nonneg _ hD

theorem rest_lt (hD : 0 < D) (l : List ℤ) : rest D a l < D := Int.emod_lt_of_pos _ hD

theorem ticks_nonneg (hD : 0 < D) (h0 : 0 ≤ a) {l : List ℤ} (hl : ∀ s ∈ l, 0 ≤ s) :
    0 ≤ ticks D a l :=
  Int.ediv_nonneg (add_nonneg h0 (List.sum_nonneg hl)) hD.le

/-- A run that adds more yields at least as many units. -/
theorem ticks_mono (hD : 0 < D) {l m : List ℤ} (h : l.sum ≤ m.sum) : ticks D a l ≤ ticks D a m :=
  Int.ediv_le_ediv hD (by omega)

/-- A step that adds something yields no fewer units than the run without it. -/
theorem ticks_le_cons (hD : 0 < D) {s : ℤ} (hs : 0 ≤ s) (l : List ℤ) :
    ticks D a l ≤ ticks D a (s :: l) := by
  apply ticks_mono hD
  rw [List.sum_cons]
  omega

/-- Of two amounts the smaller yields fewer units from some accumulator, and so
that the larger yields at most `n`, if it is below `n + 1` units and the smaller
below `n`. -/
theorem exists_fewer (hD : 0 < D) {b m n : ℤ} (hbm : b < m) (hb : b < n * D)
    (hm : m < (n + 1) * D) :
    ∃ a, 0 ≤ a ∧ a < D ∧ ticks D a [b] < ticks D a [m] ∧ ticks D a [m] ≤ n := by
  have hfloor : m / D * D ≤ m := Int.ediv_mul_le m hD.ne'
  have hceil : m < (m / D + 1) * D := Int.lt_ediv_add_one_mul_self m hD
  have hfm : m / D ≤ n := Int.lt_add_one_iff.mp (Int.ediv_lt_of_lt_mul hD hm)
  by_cases hlow : b < m / D * D
  · -- the smaller one has not the whole units of the larger
    refine ⟨0, le_rfl, hD, ?_, ?_⟩ <;> rw [ticks_singleton, zero_add]
    · rw [ticks_singleton, zero_add]
      exact Int.ediv_lt_of_lt_mul hD hlow
    · exact hfm
  · -- a unit that the larger one just completes
    have hnext : m / D + 1 ≤ n := by
      have hlt : m / D * D < n * D := by omega
      exact Int.add_one_le_of_lt (Int.lt_of_mul_lt_mul_right hlt hD.le)
    have hunit : (m / D + 1) * D = m / D * D + D := by rw [Int.add_mul, Int.one_mul]
    have hlarge : ticks D (m / D * D + D - m) [m] = m / D + 1 := by
      rw [ticks_singleton, sub_add_cancel, ← hunit, Int.mul_ediv_cancel _ hD.ne']
    refine ⟨m / D * D + D - m, by omega, by omega, ?_, ?_⟩ <;> rw [hlarge]
    · rw [ticks_singleton]
      apply Int.ediv_lt_of_lt_mul hD
      omega
    · exact hnext

end Accumulator
