/-
# Handles in a table of slots

A table of `n` slots holds handles; each handle knows the slot it is in.
`Holds` relates the table and the handles that are live: a live handle is in its
slot, and a slot that is not empty has a live handle. A handle is put into an
empty slot and taken out of its own; with fewer than `n` live handles a slot is
empty (`Holds.exists_free`), and the search from slot 0 finds it.
-/
import Mathlib.Data.List.Nodup
import Mathlib.Data.List.Perm.Subperm
import Mathlib.Logic.Function.Basic

namespace Table

open Function

variable {H : Type*}

/-- The first empty slot of the `n` from `i` on. -/
def free (devs : ℕ → Option H) : ℕ → ℕ → Option ℕ
  | 0, _ => none
  | n + 1, i => if devs i = none then some i else free devs n (i + 1)

theorem free_some {devs : ℕ → Option H} :
    ∀ {n i j : ℕ}, free devs n i = some j → i ≤ j ∧ j < i + n ∧ devs j = none
  | n + 1, i, j, h => by
    unfold free at h
    split_ifs at h with hi
    · obtain rfl := Option.some.inj h
      exact ⟨Nat.le_refl _, by omega, hi⟩
    · obtain ⟨hle, hlt, hj⟩ := free_some h
      exact ⟨by omega, by omega, hj⟩

theorem free_none {devs : ℕ → Option H} :
    ∀ {n i : ℕ}, free devs n i = none → ∀ j, i ≤ j → j < i + n → devs j ≠ none
  | 0, i, _, j, hle, hlt => by omega
  | n + 1, i, h, j, hle, hlt => by
    unfold free at h
    split_ifs at h with hi
    rcases Nat.eq_or_lt_of_le hle with rfl | hlt'
    · exact hi
    · exact free_none h j hlt' (by omega)

/-- The `n` slots hold the live handles, each in the slot it knows. -/
structure Holds (n : ℕ) (devs : ℕ → Option H) (index : H → ℕ) (live : List H) : Prop where
  nodup : live.Nodup
  lt : ∀ d ∈ live, index d < n
  slot : ∀ d ∈ live, devs (index d) = some d
  only : ∀ i d, devs i = some d → d ∈ live ∧ index d = i

variable {n : ℕ} {devs : ℕ → Option H} {index index' : H → ℕ} {live : List H}

theorem Holds.empty (n : ℕ) (index : H → ℕ) : Holds n (fun _ => none) index [] :=
  ⟨List.nodup_nil, nofun, nofun, nofun⟩

/-- A slot is taken exactly when it is the slot of a live handle. -/
theorem Holds.taken_iff (h : Holds n devs index live) (i : ℕ) :
    devs i ≠ none ↔ ∃ d ∈ live, index d = i := by
  constructor
  · intro hi
    obtain ⟨d, hd⟩ := Option.ne_none_iff_exists'.mp hi
    exact ⟨d, h.only i d hd⟩
  · rintro ⟨d, hd, rfl⟩
    rw [h.slot d hd]
    exact Option.some_ne_none d

/-- Handles know their slots only as far as they are live. -/
theorem Holds.congr (h : Holds n devs index live) (hindex : ∀ d ∈ live, index' d = index d) :
    Holds n devs index' live := by
  refine ⟨h.nodup, fun d hd => ?_, fun d hd => ?_, fun i d hi => ?_⟩
  · rw [hindex d hd]
    exact h.lt d hd
  · rw [hindex d hd]
    exact h.slot d hd
  · obtain ⟨hd, he⟩ := h.only i d hi
    exact ⟨hd, (hindex d hd).trans he⟩

/-- A new handle in an empty slot. -/
theorem Holds.insert (h : Holds n devs index live) {d : H} (hd : d ∉ live) (hlt : index d < n)
    (hfree : devs (index d) = none) : Holds n (update devs (index d) (some d)) index
      (d :: live) := by
  have hother : ∀ e ∈ live, index e ≠ index d := fun e he heq => by
    have hslot := h.slot e he
    rw [heq, hfree] at hslot
    exact absurd hslot (Option.some_ne_none e).symm
  refine ⟨List.nodup_cons.mpr ⟨hd, h.nodup⟩, ?_, ?_, fun i e hi => ?_⟩
  · intro e he
    rcases List.mem_cons.mp he with rfl | he
    · exact hlt
    · exact h.lt e he
  · intro e he
    rcases List.mem_cons.mp he with rfl | he
    · exact update_self ..
    · rw [update_of_ne (hother e he)]
      exact h.slot e he
  · rw [update_apply] at hi
    split_ifs at hi with heq
    · obtain rfl := Option.some.inj hi
      exact ⟨List.mem_cons_self .., heq.symm⟩
    · obtain ⟨he, hidx⟩ := h.only i e hi
      exact ⟨List.mem_cons_of_mem _ he, hidx⟩

/-- A live handle taken out of its slot. -/
theorem Holds.erase [DecidableEq H] (h : Holds n devs index live) {d : H} (hd : d ∈ live) :
    Holds n (update devs (index d) none) index (live.erase d) := by
  refine ⟨h.nodup.erase d, fun e he => h.lt e (List.mem_of_mem_erase he), fun e he => ?_,
    fun i e hi => ?_⟩
  · obtain ⟨hne, he⟩ := (h.nodup.mem_erase_iff).mp he
    have hslot := h.slot e he
    have hidx : index e ≠ index d := fun heq => by
      rw [heq, h.slot d hd] at hslot
      exact hne (Option.some.inj hslot).symm
    rw [update_of_ne hidx]
    exact hslot
  · rw [update_apply] at hi
    split_ifs at hi with heq
    obtain ⟨he, hidx⟩ := h.only i e hi
    refine ⟨(h.nodup.mem_erase_iff).mpr ⟨?_, he⟩, hidx⟩
    rintro rfl
    exact heq hidx.symm

/-- With fewer live handles than slots one slot is empty. -/
theorem Holds.exists_free (h : Holds n devs index live) (hlt : live.length < n) :
    ∃ i < n, devs i = none := by
  by_contra hall
  push Not at hall
  have hsub : List.range n ⊆ live.map index := by
    intro i hi
    obtain ⟨d, hd, he⟩ := (h.taken_iff i).mp (hall i (List.mem_range.mp hi))
    exact List.mem_map.mpr ⟨d, hd, he⟩
  have hle := (List.subperm_of_subset List.nodup_range hsub).length_le
  rw [List.length_range, List.length_map] at hle
  omega

theorem Holds.free_ne_none (h : Holds n devs index live) (hlt : live.length < n) :
    free devs n 0 ≠ none := by
  intro hnone
  obtain ⟨i, hi, hfree⟩ := h.exists_free hlt
  exact free_none hnone i (Nat.zero_le i) (by omega) hfree

end Table
