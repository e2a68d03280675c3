/-
# Bit fields of a word

A word is split by masks and shifts into fields of consecutive bits. `put` is a
write as programs make it: the field's bits are cleared and the shifted value is
added, which sets bits as `or` does because nothing is left there to carry from
(`getLsbD_put`). A field reads back what was put (`get_put`), and two fields with
no bit in common are put in any order (`put_comm`). A value that does not fit its
field spills into the bits above: `putBits_same` bounds what a sequence of puts of
one value into one-bit fields can make up for.
-/
import Mathlib.Algebra.Order.Group.Abs
import Mathlib.Data.BitVec
import Mathlib.Data.Int.ModEq
import Mathlib.RingTheory.Coprime.Lemmas
import Mathlib.Tactic.Ring

namespace Field

variable {w : ℕ}

/-- The word `x` with the value `v` put into the field of mask `m` and shift `s`. -/
def put (m : BitVec w) (s : ℕ) (v x : BitVec w) : BitVec w := (x &&& ~~~m) + v <<< s

/-- The value of the field in `x`. -/
def get (m : BitVec w) (s : ℕ) (x : BitVec w) : BitVec w := (x &&& m) >>> s

/-- The mask has the bits from `s` on, `n` of them. -/
def Masks (m : BitVec w) (s n : ℕ) : Prop := ∀ i < w, m.getLsbD i = decide (s ≤ i ∧ i < s + n)

variable {m m' : BitVec w} {s s' n n' : ℕ} {v v' : BitVec w}

/-- A value of `n` bits has no bit from `n` on. -/
theorem getLsbD_small (hv : v.toNat < 2 ^ n) {i : ℕ} (hi : n ≤ i) : v.getLsbD i = false :=
  Nat.testBit_lt_two_pow (hv.trans_le (Nat.pow_le_pow_right (by decide) hi))

/-- A put changes the bits of its field, to those of the value. -/
theorem getLsbD_put (hm : Masks m s n) (hv : v.toNat < 2 ^ n) (x : BitVec w) {i : ℕ} (hi : i < w) :
    (put m s v x).getLsbD i = if s ≤ i ∧ i < s + n then v.getLsbD (i - s) else x.getLsbD i := by
  have hapart : (x &&& ~~~m) &&& v <<< s = 0#w := by
    apply BitVec.eq_of_getLsbD_eq
    intro j hj
    rw [BitVec.getLsbD_and, BitVec.getLsbD_and, BitVec.getLsbD_not,
      BitVec.getLsbD_shiftLeft, hm j hj, BitVec.getLsbD_zero]
    by_cases hin : s ≤ j ∧ j < s + n
    · simp [hin]
    · by_cases hlow : j < s
      · simp [hlow]
      · rw [getLsbD_small hv (show n ≤ j - s by omega), Bool.and_false, Bool.and_false]
  unfold put
  rw [BitVec.add_eq_or_of_and_eq_zero _ _ hapart, BitVec.getLsbD_or, BitVec.getLsbD_and,
    BitVec.getLsbD_not, BitVec.getLsbD_shiftLeft, hm i hi]
  by_cases hin : s ≤ i ∧ i < s + n
  · rw [if_pos hin]
    simp [hin, hi, Nat.not_lt.mpr hin.1]
  · rw [if_neg hin]
    by_cases hlow : i < s
    · simp [hlow, Nat.not_le.mpr hlow, hi]
    · rw [getLsbD_small hv (show n ≤ i - s by omega)]
      simp [hin, hi]

/-- What was put is read back. -/
theorem get_put (hm : Masks m s n) (hv : v.toNat < 2 ^ n) (hw : s + n ≤ w) (x : BitVec w) :
    get m s (put m s v x) = v := by
  apply BitVec.eq_of_getLsbD_eq
  intro i hi
  unfold get
  rw [BitVec.getLsbD_ushiftRight, BitVec.getLsbD_and]
  by_cases hn : i < n
  · have hin : s ≤ s + i ∧ s + i < s + n := by omega
    rw [getLsbD_put hm hv x (by omega), if_pos hin, hm (s + i) (by omega), decide_eq_true hin,
      Bool.and_true, Nat.add_sub_cancel_left]
  · rw [getLsbD_small hv (Nat.le_of_not_lt hn)]
    by_cases hwide : s + i < w
    · rw [hm (s + i) hwide, decide_eq_false (by omega), Bool.and_false]
    · rw [BitVec.getLsbD_of_ge _ _ (Nat.le_of_not_lt hwide), Bool.false_and]

/-- The order of two puts does not matter when the fields have no bit in common. -/
theorem put_comm (hm : Masks m s n) (hm' : Masks m' s' n') (hv : v.toNat < 2 ^ n)
    (hv' : v'.toNat < 2 ^ n') (hapart : ∀ i < w, ¬ ((s ≤ i ∧ i < s + n) ∧ s' ≤ i ∧ i < s' + n'))
    (x : BitVec w) :
    put m' s' v' (put m s v x) = put m s v (put m' s' v' x) := by
  apply BitVec.eq_of_getLsbD_eq
  intro i hi
  rw [getLsbD_put hm' hv' _ hi, getLsbD_put hm hv _ hi, getLsbD_put hm hv _ hi,
    getLsbD_put hm' hv' _ hi]
  by_cases hin : s ≤ i ∧ i < s + n
  · rw [if_neg fun hin' => hapart i hi ⟨hin, hin'⟩, if_pos hin, if_pos hin]
  · rw [if_neg hin, if_neg hin]

/-- The field that is the whole word takes the value. -/
theorem put_allOnes (v x : BitVec w) : put (BitVec.allOnes w) 0 v x = v := by
  unfold put
  simp

/-! ### One-bit fields -/

theorem masks_twoPow (w s : ℕ) : Masks (BitVec.twoPow w s) s 1 := by
  intro i hi
  rw [BitVec.getLsbD_twoPow]
  by_cases h : s = i
  · simp [h, hi]
  · rw [decide_eq_false h, Bool.and_false, decide_eq_false (by omega)]

/-- The value `v` put into the one-bit fields at `l`, one after the other. -/
def putBits (l : List ℕ) (v x : BitVec w) : BitVec w :=
  l.foldl (fun x s => put (BitVec.twoPow w s) s v x) x

/-- A bit is put into all of the fields, and nothing else changes. -/
theorem getLsbD_putBits (hv : v.toNat < 2) {i : ℕ} (hi : i < w) : ∀ (l : List ℕ) (x : BitVec w),
    (putBits l v x).getLsbD i = if i ∈ l then v.getLsbD 0 else x.getLsbD i
  | [], x => rfl
  | s :: l, x => by
    show (putBits l v (put (BitVec.twoPow w s) s v x)).getLsbD i = _
    rw [getLsbD_putBits hv hi l, getLsbD_put (masks_twoPow w s) (by simpa using hv) x hi]
    by_cases hl : i ∈ l
    · simp [hl]
    · by_cases hs : i = s
      · simp [hs]
      · rw [if_neg hl, if_neg (by omega), if_neg (by simp [hl, hs])]

theorem get_twoPow {s : ℕ} (hs : s < w) (x : BitVec w) :
    get (BitVec.twoPow w s) s x = if x.getLsbD s then 1#w else 0#w := by
  unfold get
  rw [BitVec.and_twoPow]
  split_ifs
  · apply BitVec.eq_of_toNat_eq
    have hone : 1 < 2 ^ w := Nat.one_lt_two_pow (by omega)
    rw [BitVec.toNat_ushiftRight, BitVec.toNat_twoPow_of_lt hs, Nat.shiftRight_eq_div_pow,
      Nat.div_self (Nat.two_pow_pos s), BitVec.toNat_ofNat, Nat.mod_eq_of_lt hone]
  · simp

/-- A put of any value, as numbers: the bit is taken away and the value added. -/
theorem put_modEq (s : ℕ) (v x : BitVec w) :
    ((put (BitVec.twoPow w s) s v x).toNat : ℤ) ≡ x.toNat + (v.toNat - (x.getLsbD s).toNat) * 2 ^ s
      [ZMOD 2 ^ w] := by
  have hsplit : (x &&& ~~~BitVec.twoPow w s) + (x &&& BitVec.twoPow w s) = x := by
    rw [BitVec.add_eq_or_of_and_eq_zero]
    · apply BitVec.eq_of_getLsbD_eq
      intro i hi
      rw [BitVec.getLsbD_or, BitVec.getLsbD_and, BitVec.getLsbD_and, BitVec.getLsbD_not]
      cases (BitVec.twoPow w s).getLsbD i <;> simp [hi]
    · apply BitVec.eq_of_getLsbD_eq
      intro i hi
      rw [BitVec.getLsbD_and, BitVec.getLsbD_and, BitVec.getLsbD_and, BitVec.getLsbD_not]
      cases (BitVec.twoPow w s).getLsbD i <;> simp
  have hx : ((x &&& ~~~BitVec.twoPow w s).toNat : ℤ) + (x.getLsbD s).toNat * 2 ^ s ≡ x.toNat
      [ZMOD 2 ^ w] := by
    have hbit :
        (((x &&& BitVec.twoPow w s).toNat : ℕ) : ℤ) ≡ (x.getLsbD s).toNat * 2 ^ s [ZMOD 2 ^ w] := by
      rw [BitVec.and_twoPow]
      cases x.getLsbD s with
      | true =>
        rw [if_pos rfl, BitVec.toNat_twoPow]
        push_cast
        simpa using Int.mod_modEq (2 ^ s) (2 ^ w)
      | false => simp [Int.ModEq.refl]
    have hsum := congrArg (fun y : BitVec w => (y.toNat : ℤ)) hsplit
    simp only [BitVec.toNat_add] at hsum
    rw [← hsum]
    push_cast
    exact ((Int.ModEq.refl _).add hbit.symm).trans (Int.mod_modEq _ _).symm
  have hv : (((v <<< s).toNat : ℕ) : ℤ) ≡ v.toNat * 2 ^ s [ZMOD 2 ^ w] := by
    rw [BitVec.toNat_shiftLeft, Nat.shiftLeft_eq]
    push_cast
    exact Int.mod_modEq _ _
  have hput : ((put (BitVec.twoPow w s) s v x).toNat : ℤ) ≡
      (x &&& ~~~BitVec.twoPow w s).toNat + (v <<< s).toNat [ZMOD 2 ^ w] := by
    unfold put
    rw [BitVec.toNat_add]
    push_cast
    exact Int.mod_modEq _ _
  calc ((put (BitVec.twoPow w s) s v x).toNat : ℤ)
      ≡ (x &&& ~~~BitVec.twoPow w s).toNat + v.toNat * 2 ^ s [ZMOD 2 ^ w] :=
        hput.trans ((Int.ModEq.refl _).add hv)
    _ = ((x &&& ~~~BitVec.twoPow w s).toNat + (x.getLsbD s).toNat * 2 ^ s) +
          (v.toNat - (x.getLsbD s).toNat) * 2 ^ s := by ring
    _ ≡ x.toNat + (v.toNat - (x.getLsbD s).toNat) * 2 ^ s [ZMOD 2 ^ w] := hx.add_right _

/-- The bits of the fields at `l`, as one number. -/
def weight (l : List ℕ) : ℤ := (l.map fun s => (2 : ℤ) ^ s).sum

theorem weight_cons (s : ℕ) (l : List ℕ) : weight (s :: l) = 2 ^ s + weight l := rfl

/-- Putting a value adds it in every field, and takes away at most the fields' bits. -/
theorem putBits_modEq (v : BitVec w) :
    ∀ (l : List ℕ) (x : BitVec w), ∃ e : ℤ, 0 ≤ e ∧ e ≤ weight l ∧
    ((putBits l v x).toNat : ℤ) ≡ x.toNat + v.toNat * weight l - e [ZMOD 2 ^ w]
  | [], x => ⟨0, le_rfl, le_rfl, by simp [putBits, weight, Int.ModEq.refl]⟩
  | s :: l, x => by
    obtain ⟨e, h0, hle, hmod⟩ := putBits_modEq v l (put (BitVec.twoPow w s) s v x)
    have hpow : (0 : ℤ) < 2 ^ s := Int.pow_pos (by decide)
    have hbit : 0 ≤ ((x.getLsbD s).toNat : ℤ) * 2 ^ s ∧
        ((x.getLsbD s).toNat : ℤ) * 2 ^ s ≤ 2 ^ s := by
      cases x.getLsbD s with
      | false =>
        rw [Bool.toNat_false, Nat.cast_zero, Int.zero_mul]
        exact ⟨le_rfl, hpow.le⟩
      | true =>
        rw [Bool.toNat_true, Nat.cast_one, Int.one_mul]
        exact ⟨hpow.le, le_rfl⟩
    refine ⟨e + (x.getLsbD s).toNat * 2 ^ s, by omega, by rw [weight_cons]; omega, ?_⟩
    calc ((putBits (s :: l) v x).toNat : ℤ)
        ≡ (put (BitVec.twoPow w s) s v x).toNat + v.toNat * weight l - e [ZMOD 2 ^ w] := hmod
      _ ≡ x.toNat + (v.toNat - (x.getLsbD s).toNat) * 2 ^ s + v.toNat * weight l - e [ZMOD 2 ^ w] :=
          ((put_modEq s v x).add_right _).sub_right _
      _ = x.toNat + v.toNat * weight (s :: l) - (e + (x.getLsbD s).toNat * 2 ^ s) := by
          rw [weight_cons]
          ring

/-- Two values that leave the same word, put into the fields at `s :: l`: what they
differ by, in every field, is within the bits of all fields but the first. -/
theorem putBits_same {s : ℕ} {l : List ℕ} {x : BitVec w}
    (h : putBits (s :: l) v x = putBits (s :: l) v' x) :
    ∃ e : ℤ, -weight l ≤ e ∧ e ≤ weight l ∧
      (v.toNat - v'.toNat) * weight (s :: l) ≡ e [ZMOD 2 ^ w] := by
  obtain ⟨e, h0, hle, hmod⟩ := putBits_modEq v l (put (BitVec.twoPow w s) s v x)
  obtain ⟨e', h0', hle', hmod'⟩ := putBits_modEq v' l (put (BitVec.twoPow w s) s v' x)
  have hv := hmod.trans (((put_modEq s v x).add_right _).sub_right _)
  have hv' := hmod'.trans (((put_modEq s v' x).add_right _).sub_right _)
  have hsame : ((putBits l v (put (BitVec.twoPow w s) s v x)).toNat : ℤ) =
      (putBits l v' (put (BitVec.twoPow w s) s v' x)).toNat :=
        congrArg (fun y : BitVec w => (y.toNat : ℤ)) h
  rw [hsame] at hv
  refine ⟨e - e', by omega, by omega, ?_⟩
  have hdiff := hv.symm.trans hv'
  rw [Int.modEq_iff_dvd] at hdiff ⊢
  have heq : e - e' - (v.toNat - v'.toNat) * weight (s :: l) =
      x.toNat + (v'.toNat - (x.getLsbD s).toNat) * 2 ^ s + v'.toNat * weight l - e' -
        (x.toNat + (v.toNat - (x.getLsbD s).toNat) * 2 ^ s + v.toNat * weight l - e) := by
    rw [weight_cons]
    ring
  rwa [heq]

/-- A difference `d` that is made up for in the fields of two words, of weights `a`
and `b`, is 0: what is made up for is too little to be a multiple of both. -/
theorem spill_eq_zero {n d e e' a b : ℤ} (h0 : 0 ≤ d) (hd : d < n) (h : n ∣ e - d * a)
    (h' : n ∣ e' - d * b) (hge : -n < b * e - a * e') (hlt : b * e - a * e' < n) (hea : -a < e)
    (he : e < a) (hab : IsCoprime a b) (ha : IsCoprime n a) : d = 0 := by
  have hdiff : n ∣ b * e - a * e' := by
    have hsub := dvd_sub (h.mul_left b) (h'.mul_left a)
    rwa [show b * (e - d * a) - a * (e' - d * b) = b * e - a * e' by ring] at hsub
  have heq := sub_eq_zero.mp (Int.eq_zero_of_abs_lt_dvd hdiff (abs_lt.mpr ⟨hge, hlt⟩))
  have hzero : e = 0 :=
    Int.eq_zero_of_abs_lt_dvd (hab.dvd_of_dvd_mul_left ⟨e', heq⟩) (abs_lt.mpr ⟨hea, he⟩)
  rw [hzero, zero_sub, dvd_neg] at h
  exact Int.eq_zero_of_abs_lt_dvd (ha.dvd_of_dvd_mul_right h) (by rwa [abs_of_nonneg h0])

end Field
