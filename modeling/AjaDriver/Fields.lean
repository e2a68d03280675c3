/-
# The fields of the registers

`registers.pl` makes the card's registers from `registers.info`: a block of it
names a register by its number and its first and last bit, and the header it
writes has the address, the shift and a mask added up bit by bit. `aja_prset` and
`aja_prget` take these. On registers that are plain memory the fields are cells
that do not touch each other (`fields_independent`), whether they are written
with a shift and a mask or, as whole words, without.
-/
import AjaDriver.Access
import AjaDriver.Lib.Field
import Mathlib.Tactic.Ring

namespace AjaDriver

open Field

/-! ### `registers.pl` -/

/-- A number in a Perl program, as a word of the file: the digits it begins with. -/
def perlNumber (s : String) : ℕ :=
  (s.toList.takeWhile Char.isDigit).foldl (fun n d => 10 * n + (d.toNat - 48)) 0

/-- What `writeHeader` uses of a register block. -/
structure RegBlock where
  name : String
  cardreg : ℕ
  start : ℕ
  stop : ℕ
  deriving DecidableEq, Repr

/-- The mask that `writeHeader` adds up, one bit a round for `n` rounds from bit
`i` on. -/
def maskLoop : ℕ → ℕ → ℕ → ℕ
  | 0, _, mask => mask
  | n + 1, i, mask => maskLoop n (i + 1) (mask + 1 <<< i)

/-- The `aja_register_t` that `writeHeader` prints. -/
def RegBlock.emit (b : RegBlock) : Register where
  add := BitVec.ofNat 32 (b.cardreg * 4)
  shift := BitVec.ofNat 32 b.start
  mask := BitVec.ofNat 32 (maskLoop (b.stop + 1 - b.start) b.start 0)

theorem maskLoop_eq : ∀ n i mask : ℕ, maskLoop n i mask = mask + (2 ^ n - 1) <<< i
  | 0, i, mask => by simp [maskLoop]
  | n + 1, i, mask => by
    rw [maskLoop, maskLoop_eq n (i + 1), Nat.shiftLeft_eq, Nat.shiftLeft_eq, Nat.shiftLeft_eq,
      Nat.add_assoc]
    congr 1
    calc 1 * 2 ^ i + (2 ^ n - 1) * 2 ^ (i + 1) = (1 + (2 ^ n - 1) * 2) * 2 ^ i := by ring
      _ = (2 ^ (n + 1) - 1) * 2 ^ i := by
          have hpos : 0 < 2 ^ n := Nat.two_pow_pos n
          congr 1
          omega

/-- The bits of a block are bits of a word. -/
structure RegBlock.Ranged (b : RegBlock) : Prop where
  le : b.start ≤ b.stop
  lt : b.stop ≤ 31

variable {b b' : RegBlock}

theorem RegBlock.Ranged.masks (h : b.Ranged) :
    Masks b.emit.mask b.start (b.stop + 1 - b.start) := by
  intro i hi
  show (BitVec.ofNat 32 (maskLoop (b.stop + 1 - b.start) b.start 0)).getLsbD i = _
  rw [maskLoop_eq, Nat.zero_add, BitVec.getLsbD_ofNat, Nat.testBit_shiftLeft,
    Nat.testBit_two_pow_sub_one]
  have := h.le
  by_cases hlow : b.start ≤ i
  · simp only [hi, hlow, decide_true, Bool.true_and, true_and]
    congr 1
    apply propext
    omega
  · simp [hlow]

theorem RegBlock.Ranged.shift (h : b.Ranged) : shiftBy b.emit.shift = b.start := by
  have := h.le
  have := h.lt
  show (BitVec.ofNat 32 b.start).toNat % 32 = b.start
  rw [BitVec.toNat_ofNat]
  omega

/-! ### Reads and writes -/

variable {c : RegSpace} {v v' : BitVec 32}

/-- The register space with the word at `add` changed by `f`. -/
def RegSpace.modify (c : RegSpace) (add : ℕ) (f : BitVec 32 → BitVec 32) : RegSpace :=
  { c with word := Function.update c.word add (f (c.word add)) }

theorem word_modify (c : RegSpace) (add : ℕ) (f : BitVec 32 → BitVec 32) (a : ℕ) :
    (c.modify add f).word a = if a = add then f (c.word add) else c.word a :=
  Function.update_apply ..

/-- Changes of different words, or changes that commute on one word. -/
theorem modify_comm (c : RegSpace) {add add' : ℕ} {f f' : BitVec 32 → BitVec 32}
    (h : add' = add → ∀ x, f' (f x) = f (f' x)) :
    (c.modify add f).modify add' f' = (c.modify add' f').modify add f := by
  have hword :
      ∀ a, ((c.modify add f).modify add' f').word a = ((c.modify add' f').modify add f).word a := by
    intro a
    simp only [word_modify]
    by_cases hadd : add' = add
    · subst hadd
      rw [if_pos rfl, if_pos rfl, h rfl]
      split_ifs <;> rfl
    · rw [if_neg hadd, if_neg (Ne.symm hadd)]
      by_cases ha : a = add
      · rw [if_neg (by omega), if_pos ha, if_pos ha]
      · rw [if_neg ha, if_neg ha]
  exact congrArg (fun word => { c with word := word }) (funext hword)

/-- The register is inside the register space. -/
def RegSpace.Has (c : RegSpace) (b : RegBlock) : Prop := b.emit.add.toNat + 4 ≤ c.reglen

instance RegSpace.decidableHas (c : RegSpace) (b : RegBlock) : Decidable (c.Has b) :=
  inferInstanceAs (Decidable (_ ≤ _))

/-- The card has the register. -/
def RegSpace.Answers (c : RegSpace) (preg : Register) : Prop :=
  ¬ (c.caps &&& ajaSmallReg ≠ 0 ∧ preg.add.toNat > 255) ∧ preg.add.toNat ≤ c.reglen

variable {preg preg' : Register} {n : ℕ}

/-- A write puts the value into the field, whichever of its two ways it takes. -/
theorem RegSpace.Answers.prset (hc : c.Answers preg)
    (hmask : Masks preg.mask (shiftBy preg.shift) n) (v : BitVec 32) :
    (ajaPrset c preg v).2.1 = c.modify preg.add.toNat (put preg.mask (shiftBy preg.shift) v) := by
  unfold ajaPrset
  simp only
  rw [if_neg hc.1, if_neg (Nat.not_lt.mpr hc.2)]
  by_cases hfull : preg.mask = 0xFFFFFFFF
  · have hzero : shiftBy preg.shift = 0 := by
      have hbit := hmask 0 (by decide)
      rw [hfull] at hbit
      have := (of_decide_eq_true hbit.symm).1
      omega
    rw [if_pos hfull, hfull, hzero]
    exact congrArg (fun x => { c with word := Function.update c.word preg.add.toNat x })
      (put_allOnes v _).symm
  · rw [if_neg hfull]
    rfl

theorem RegSpace.Answers.prget (hc : c.Answers preg) :
    (ajaPrget c preg).1 = get preg.mask (shiftBy preg.shift) (c.word preg.add.toNat) := by
  unfold ajaPrget
  simp only
  rw [if_neg hc.1, if_neg (Nat.not_lt.mpr hc.2)]
  rfl

/-- What is written to a field that it fits in is read back, whatever the rest of
the word is. -/
theorem prget_prset (hc : c.Answers preg) (hmask : Masks preg.mask (shiftBy preg.shift) n)
    (hn : shiftBy preg.shift + n ≤ 32) (hv : v.toNat < 2 ^ n) :
    (ajaPrget (ajaPrset c preg v).2.1 preg).1 = v := by
  rw [hc.prset hmask, RegSpace.Answers.prget (c := c.modify _ _) hc, word_modify, if_pos rfl]
  exact get_put hmask hv hn _

/-- A register at another address is not touched. -/
theorem prget_prset_other {preg preg' : Register} (hadd : preg'.add.toNat ≠ preg.add.toNat) :
    (ajaPrget (ajaPrset c preg' v).2.1 preg).1 = (ajaPrget c preg).1 := by
  have hword : (ajaPrset c preg' v).2.1.word preg.add.toNat = c.word preg.add.toNat := by
    unfold ajaPrset
    simp only
    split_ifs
    · rfl
    · rfl
    · exact Function.update_of_ne hadd.symm _ _
    · exact Function.update_of_ne hadd.symm _ _
  have hrest : (ajaPrset c preg' v).2.1.caps = c.caps ∧
      (ajaPrset c preg' v).2.1.reglen = c.reglen := by
    unfold ajaPrset
    simp only
    split_ifs <;> exact ⟨rfl, rfl⟩
  unfold ajaPrget
  simp only
  rw [hword, hrest.1, hrest.2]

theorem RegSpace.Has.answers (hc : c.Has b) (hcaps : c.caps &&& ajaSmallReg = 0) :
    c.Answers b.emit := by
  unfold RegSpace.Has at hc
  exact ⟨fun h => h.1 hcaps, by omega⟩

theorem prset_put (hcaps : c.caps &&& ajaSmallReg = 0) (hc : c.Has b) (hb : b.Ranged)
    (v : BitVec 32) :
    (ajaPrset c b.emit v).2.1 = c.modify b.emit.add.toNat (put b.emit.mask b.start v) := by
  have hmask : Masks b.emit.mask (shiftBy b.emit.shift) (b.stop + 1 - b.start) :=
    hb.shift ▸ hb.masks
  rw [(hc.answers hcaps).prset hmask, hb.shift]

theorem prget_get (hcaps : c.caps &&& ajaSmallReg = 0) (hc : c.Has b) (hb : b.Ranged) :
    (ajaPrget c b.emit).1 = get b.emit.mask b.start (c.word b.emit.add.toNat) := by
  rw [(hc.answers hcaps).prget, hb.shift]

/-- Bit `i` of the word at `add` belongs to the field. -/
def RegBlock.Bit (b : RegBlock) (add i : ℕ) : Prop :=
  add = b.emit.add.toNat ∧ b.start ≤ i ∧ i ≤ b.stop

theorem RegBlock.Ranged.bit_iff (h : b.Ranged) (i : ℕ) :
    b.Bit b.emit.add.toNat i ↔ b.start ≤ i ∧ i < b.start + (b.stop + 1 - b.start) := by
  have := h.le
  unfold RegBlock.Bit
  constructor
  · rintro ⟨-, hlow, hhigh⟩
    omega
  · intro hin
    exact ⟨rfl, by omega⟩

/-- What is written to a field is read from it, nothing else changes, and the
order of writes to two fields with no bit in common does not matter. -/
theorem fields_independent (hcaps : c.caps &&& ajaSmallReg = 0) (hb : b.Ranged) (hb' : b'.Ranged)
    (hc : c.Has b) (hc' : c.Has b') (hv : v.toNat < 2 ^ (b.stop + 1 - b.start))
    (hv' : v'.toNat < 2 ^ (b'.stop + 1 - b'.start)) :
    (ajaPrget (ajaPrset c b.emit v).2.1 b.emit).1 = v ∧
    (∀ add, ∀ i < 32, ¬ b.Bit add i →
      ((ajaPrset c b.emit v).2.1.word add).getLsbD i = (c.word add).getLsbD i) ∧
    ((∀ add i, ¬ (b.Bit add i ∧ b'.Bit add i)) →
      (ajaPrset (ajaPrset c b.emit v).2.1 b'.emit v').2.1 =
        (ajaPrset (ajaPrset c b'.emit v').2.1 b.emit v).2.1) := by
  have hle := hb.le
  have hlt := hb.lt
  have hset : ∀ f, (ajaPrset (c.modify b.emit.add.toNat f) b'.emit v').2.1 = _ := fun f =>
    prset_put (c := c.modify b.emit.add.toNat f) hcaps hc' hb' v'
  have hset' : ∀ f, (ajaPrset (c.modify b'.emit.add.toNat f) b.emit v).2.1 = _ := fun f =>
    prset_put (c := c.modify b'.emit.add.toNat f) hcaps hc hb v
  rw [prset_put hcaps hc hb, prset_put hcaps hc' hb', hset, hset']
  refine ⟨?_, fun a i hi hout => ?_, fun hapart => ?_⟩
  · have hget := prget_get (c := c.modify b.emit.add.toNat (put b.emit.mask b.start v)) hcaps hc hb
    rw [hget, word_modify, if_pos rfl]
    exact get_put hb.masks hv (by omega) _
  · rw [word_modify]
    split_ifs with ha
    · rw [getLsbD_put hb.masks hv _ hi, if_neg fun hin => hout (ha ▸ (hb.bit_iff i).mpr hin), ha]
    · rfl
  · apply modify_comm
    intro hadd
    -- two fields of one word
    apply put_comm hb.masks hb'.masks hv hv'
    rintro i - ⟨hin, hin'⟩
    exact hapart b.emit.add.toNat i ⟨(hb.bit_iff i).mpr hin, hadd ▸ (hb'.bit_iff i).mpr hin'⟩

/-- The output frame, a whole word, and a bit of another one. -/
theorem fields_independent_output :
    let c : RegSpace := ⟨0, 0x200, fun _ => 0xFFFFFFFF⟩
    let output : RegBlock := ⟨"ch1output", 3, 0, 31⟩
    let go : RegBlock := ⟨"dma2go", 48, 1, 1⟩
    (ajaPrset (ajaPrset c output.emit 5).2.1 go.emit 0).2.1 =
      (ajaPrset (ajaPrset c go.emit 0).2.1 output.emit 5).2.1 := by
  intro c output go
  have hfields := @fields_independent output go c 5 0 (by decide) ⟨by decide, by decide⟩
    ⟨by decide, by decide⟩ (by decide +kernel) (by decide +kernel) (by decide) (by decide)
  refine hfields.2.2 fun add i h => ?_
  exact absurd (h.1.1.symm.trans h.2.1) (by decide +kernel)

end AjaDriver
