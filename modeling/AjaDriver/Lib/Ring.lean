/-
# A ring of slots

A ring has `N` slots, used in turn: `next` is the slot after a slot, `place`
the one some slots further on. It holds a list of items, the oldest at the read
index, when the write index is the slot behind the last of them (`Holds`); what
a slot has to be for an item is a relation, so that a slot may keep more than
the item. Writing a slot adds an item at the end, as long as one slot stays
free; the reader may run ahead of the read index it publishes (`Holds.pop`).
When the writer never looks back, the slots written at all are what is left to
say (`Written`).
-/
import Mathlib.Logic.Function.Basic
import Mathlib.Data.List.Basic
import Mathlib.Algebra.Order.Group.Nat

namespace RingBuf

open Function

variable {α β : Type*} {N : ℕ} {R : β → α → Prop} {slots : ℕ → β} {r w : ℕ} {a : α} {q : List α}

/-- The slot after slot `i`. -/
def next (N i : ℕ) : ℕ := if i + 1 ≥ N then 0 else i + 1

/-- The slot `i` slots after slot `r`. -/
def place (N r i : ℕ) : ℕ := if r + i < N then r + i else r + i - N

theorem next_lt {i : ℕ} (h : i < N) : next N i < N := by
  unfold next
  split_ifs <;> omega

theorem place_zero (h : r < N) : place N r 0 = r := if_pos h

theorem next_place {i : ℕ} (hr : r < N) (hi : i < N) :
    next N (place N r i) = place N r (i + 1) := by
  unfold next place
  split_ifs <;> omega

theorem place_next {i : ℕ} (hr : r < N) (hi : i < N) :
    place N (next N r) i = place N r (i + 1) := by
  unfold next place
  split_ifs <;> omega

/-- Less than a round apart, two places are the same slot only if they are the
same. -/
theorem place_inj {i j : ℕ} (hi : i < N) (hj : j < N) (h : place N r i = place N r j) : i = j := by
  unfold place at h
  split_ifs at h <;> omega

/-- The slots from `r` up to `w` hold the items `q`. -/
structure Holds (N : ℕ) (R : β → α → Prop) (slots : ℕ → β) (r w : ℕ) (q : List α) : Prop where
  read : r < N
  room : q.length < N
  write : w = place N r q.length
  slot : ∀ i b, q[i]? = some b → R (slots (place N r i)) b

theorem Holds.nil (h : r < N) : Holds N R slots r r [] where
  read := h
  room := by
    rw [List.length_nil]
    omega
  write := (place_zero h).symm
  slot i b hb := by simp at hb

/-- The two indices are equal exactly when there is nothing in the ring. -/
theorem Holds.eq_iff (h : Holds N R slots r w q) : r = w ↔ q = [] := by
  constructor
  · intro heq
    have hplace : place N r 0 = place N r q.length := by
      rw [place_zero h.read, ← h.write]
      exact heq
    have h0 := place_inj (Nat.zero_lt_of_lt h.read) h.room hplace
    exact List.eq_nil_of_length_eq_zero h0.symm
  · rintro rfl
    rw [h.write]
    exact (place_zero h.read).symm

/-- An item is added, while two slots are free. -/
theorem Holds.push (h : Holds N R slots r w q) (hroom : q.length + 1 < N) {b : β} (hb : R b a) :
    Holds N R (update slots w b) r (next N w) (q ++ [a]) where
  read := h.read
  room := by
    rw [List.length_append, List.length_singleton]
    exact hroom
  write := by
    rw [h.write, next_place h.read h.room, List.length_append, List.length_singleton]
  slot i c hc := by
    rcases Nat.lt_trichotomy i q.length with hlt | rfl | hgt
    · rw [List.getElem?_append_left hlt] at hc
      have hne : place N r i ≠ w := by
        rw [h.write]
        exact fun heq => hlt.ne (place_inj (hlt.trans h.room) h.room heq)
      rw [update_of_ne hne]
      exact h.slot i c hc
    · obtain rfl : a = c := by simpa using hc
      rw [← h.write, update_self]
      exact hb
    · have hout : (q ++ [a]).length ≤ i := by
        rw [List.length_append]
        exact hgt
      rw [List.getElem?_eq_none hout] at hc
      simp at hc

/-- The oldest item is in the slot at the read index. -/
theorem Holds.head (h : Holds N R slots r w (a :: q)) : R (slots r) a := by
  have hslot := h.slot 0 a rfl
  rwa [place_zero h.read] at hslot

/-- The oldest item is taken. -/
theorem Holds.pop (h : Holds N R slots r w (a :: q)) : Holds N R slots (next N r) w q where
  read := next_lt h.read
  room := (Nat.lt_succ_self q.length).trans h.room
  write := by
    rw [place_next h.read ((Nat.lt_succ_self q.length).trans h.room)]
    exact h.write
  slot i b hb := by
    have hlt : i < q.length := (List.getElem?_eq_some_iff.mp hb).1
    rw [place_next h.read ((hlt.trans (Nat.lt_succ_self q.length)).trans h.room)]
    exact h.slot (i + 1) b hb

/-- The first item there is when the indices differ. -/
theorem Holds.exists_head (h : Holds N R slots r w q) (hne : r ≠ w) : ∃ a q', q = a :: q' := by
  cases q with
  | nil => exact absurd (h.eq_iff.mpr rfl) hne
  | cons a q' => exact ⟨a, q', rfl⟩

/-! ### A writer that never looks back -/

/-- After `n` writes the write index is where they end, and every slot written
holds a `P`. -/
structure Written (N : ℕ) (P : β → Prop) (slots : ℕ → β) (w n : ℕ) : Prop where
  write : w = n % N
  slot : ∀ i < N, i < n → P (slots i)

variable {P : β → Prop} {n i : ℕ}

theorem Written.zero : Written N P slots 0 0 :=
  ⟨(Nat.zero_mod N).symm, fun _ _ h => absurd h (Nat.not_lt_zero _)⟩

theorem Written.push (hN : 0 < N) (h : Written N P slots w n) {b : β} (hb : P b) :
    Written N P (update slots w b) (next N w) (n + 1) where
  write := by
    have hlt := Nat.mod_lt n hN
    rw [h.write, next, Nat.add_mod]
    rcases Nat.lt_or_ge 1 N with h1 | h1
    · rw [Nat.mod_eq_of_lt h1]
      split_ifs with hend
      · rw [show n % N + 1 = N by omega, Nat.mod_self]
      · exact (Nat.mod_eq_of_lt (by omega)).symm
    · obtain rfl : N = 1 := by omega
      rw [Nat.mod_one, if_pos le_rfl, Nat.mod_one]
  slot j hj hjn := by
    by_cases hjw : j = w
    · rw [hjw, update_self]
      exact hb
    · rw [update_of_ne hjw]
      refine h.slot j hj ?_
      by_contra hge
      -- the first round is not over, and `j` is the slot written
      obtain rfl : j = n := by omega
      exact hjw (h.write.trans (Nat.mod_eq_of_lt hj)).symm

/-- A reader that is not at the write index is at a slot written. -/
theorem Written.lt (h : Written N P slots w n) (hi : i < N) (hle : i ≤ n) (hne : i ≠ w) :
    i < n := by
  refine lt_of_le_of_ne hle fun heq => hne ?_
  rw [h.write, ← heq, Nat.mod_eq_of_lt hi]

theorem Written.get (h : Written N P slots w n) (hi : i < N) (hle : i ≤ n) (hne : i ≠ w) :
    P (slots i) :=
  h.slot i hi (h.lt hi hle hne)

theorem Written.next_le (h : Written N P slots w n) (hi : i < N) (hle : i ≤ n) (hne : i ≠ w) :
    next N i ≤ n := by
  have := h.lt hi hle hne
  unfold next
  split_ifs <;> omega

end RingBuf
