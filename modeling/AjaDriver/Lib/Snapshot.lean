/-
# Reading what changes

A value is replaced now and then, and each time gets another stamp; a reader
takes it piece by piece and looks at the stamp before and after. `ver n` is the
number of replacements before instant `n`, and `stamp` gives a version's stamp.
If versions less than `m` apart have different stamps and fewer than `m`
replacements fall between the two looks, equal stamps mean that there was none,
so the pieces are of one version.
-/
import Mathlib.Order.Monotone.Defs
import Mathlib.Algebra.Order.Group.Nat

namespace Snapshot

variable {σ : Type*} {ver : ℕ → ℕ} {stamp : ℕ → σ} {m a b n : ℕ}

/-- Versions less than `m` apart have different stamps. -/
def Distinct (m : ℕ) (stamp : ℕ → σ) : Prop := ∀ i j, i < j → j < i + m → stamp i ≠ stamp j

/-- Equal stamps mean the same version, and that means no replacement. -/
theorem Distinct.stamp_eq_iff (hd : Distinct m stamp) (hmono : Monotone ver) (hab : a ≤ b)
    (hfew : ver b < ver a + m) :
    stamp (ver a) = stamp (ver b) ↔ ¬ ver a < ver b := by
  rcases (hmono hab).lt_or_eq with hlt | heq
  · exact ⟨fun h => absurd h (hd _ _ hlt hfew), fun h => absurd hlt h⟩
  · rw [heq]
    exact ⟨fun _ => lt_irrefl _, fun _ => rfl⟩

/-- With no replacement between two instants, the version is the same all the
time. -/
theorem ver_between (hmono : Monotone ver) (han : a ≤ n) (hnb : n ≤ b) (h : ¬ ver a < ver b) :
    ver n = ver a :=
  le_antisymm ((hmono hnb).trans (not_lt.mp h)) (hmono han)

/-- A counter of `w` bits tells `2 ^ w` versions apart. -/
theorem distinct_counter (w : ℕ) (v : BitVec w) :
    Distinct (2 ^ w) fun i => v + BitVec.ofNat w i := by
  intro i j hij hlt heq
  have hnat := congrArg BitVec.toNat ((BitVec.add_right_inj v).mp heq)
  rw [BitVec.toNat_ofNat, BitVec.toNat_ofNat] at hnat
  have hdvd := Nat.sub_mod_eq_zero_of_mod_eq hnat.symm
  rw [Nat.mod_eq_of_lt (by omega)] at hdvd
  omega

end Snapshot
