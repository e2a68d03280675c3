/-
# Enabling the interrupts

`aja_irqset` writes the `int` of an `AJACTL_IRQENABLE` into the enable fields of
all interrupts, one after the other, and stops the DMA engines when it is 0. The
fields have one bit each, and `aja_prset` adds the value without masking it: 0 and
1 do what they should, and any other value always changes a bit it should not, or
leaves an interrupt disabled (`irqset_right_iff`).
-/
import AjaDriver.Fields

namespace AjaDriver

open Field

/-! ### The cards -/

def ajaHasK2 : BitVec 32 := 0x0001
def ajaHasAudio : BitVec 32 := 0x0002
def ajaHasDualLink : BitVec 32 := 0x0004
def ajaHasHD : BitVec 32 := 0x0008
def ajaHasSD : BitVec 32 := 0x0010
def ajaHasSerial : BitVec 32 := 0x0020
def ajaHasLUT : BitVec 32 := 0x0040

/-- The flags of `aja_cardcaps`, row by row. -/
def ajaCardcaps : List (BitVec 32) :=
  [ajaSmallReg ||| ajaHasAudio ||| ajaHasSD,
    ajaHasAudio ||| ajaHasHD ||| ajaHasLUT,
    ajaHasAudio ||| ajaHasHD ||| ajaHasLUT,
    ajaHasAudio ||| ajaHasHD ||| ajaHasLUT,
    ajaHasAudio ||| ajaHasHD ||| ajaHasLUT,
    ajaHasAudio ||| ajaHasHD ||| ajaHasLUT,
    ajaSmallReg ||| ajaHasAudio ||| ajaHasSD,
    ajaHasAudio ||| ajaHasSD,
    ajaHasAudio ||| ajaHasHD ||| ajaHasDualLink ||| ajaHasSerial ||| ajaHasLUT,
    ajaHasHD,
    ajaSmallReg ||| ajaHasAudio ||| ajaHasSD,
    ajaHasAudio ||| ajaHasHD ||| ajaHasLUT,
    ajaHasAudio ||| ajaHasHD ||| ajaHasLUT,
    ajaHasAudio ||| ajaHasHD ||| ajaHasDualLink ||| ajaHasLUT ||| ajaHasSerial,
    ajaHasAudio ||| ajaHasSD,
    ajaHasHD,
    ajaHasAudio ||| ajaHasSD ||| ajaHasHD ||| ajaHasK2 ||| ajaHasLUT ||| ajaHasSerial |||
      ajaHasDualLink,
    ajaHasAudio ||| ajaHasSD ||| ajaHasHD ||| ajaHasK2 ||| ajaHasLUT ||| ajaHasSerial |||
      ajaHasDualLink,
    0]

/-- A card with a serial port has all the registers. -/
theorem cardcaps_serial {caps : BitVec 32} (h : caps ∈ ajaCardcaps)
    (hserial : caps &&& ajaHasSerial ≠ 0) :
    caps &&& ajaSmallReg = 0 := by
  have hall : ajaCardcaps.all (fun caps => caps &&& ajaHasSerial = 0 ∨ caps &&& ajaSmallReg = 0) =
      true := by decide
  have hcaps := List.all_eq_true.mp hall caps h
  exact (of_decide_eq_true hcaps).resolve_left hserial

/-! ### `aja_irqset` -/

/-- A call of `aja_prset`, for what it does to the registers. -/
def RegSpace.prset (c : RegSpace) (preg : Register) (value : BitVec 32) : RegSpace :=
  (ajaPrset c preg value).2.1

/-- `aja_irqset`. -/
def ajaIrqset (c : RegSpace) (val : BitVec 32) : RegSpace :=
  -- disabling also stops the DMA engines
  let c := if val = 0 then ((c.prset dma1go 0).prset dma2go 0).prset dma3go 0 else c
  let c := c.prset buserrorirqenable val
  let c := c.prset dma1irqenable val
  let c := c.prset dma2irqenable val
  let c := c.prset dma3irqenable val
  let c := c.prset outputirqenable val
  let c := c.prset input1irqenable val
  let c := c.prset input2irqenable val
  let c := c.prset audiowrapirqenable val
  if c.caps &&& ajaHasSerial ≠ 0 then
    let c := c.prset uarttxirqenable val
    let c := c.prset uartrxirqenable val
    let c := c.prset uartenabletx val
    c.prset uartenablerx val
  else c

/-- `aja_ioctl_irqenable`. -/
def ajaIoctlIrqenable (c : RegSpace) (val : BitVec 32) : ℤ × RegSpace := (0, ajaIrqset c val)

/-! ### One-bit registers -/

/-- The register is bit `shift` of its word. -/
def Register.OneBit (r : Register) : Prop := r.mask = BitVec.twoPow 32 (shiftBy r.shift)

instance Register.decidableOneBit (r : Register) : Decidable r.OneBit :=
  inferInstanceAs (Decidable (_ = _))

/-- Bit `i` of the word at `add` belongs to the register. -/
def Register.Covers (r : Register) (add i : ℕ) : Prop := add = r.add.toNat ∧ r.mask.getLsbD i = true

/-- The card has the register. -/
def RegSpace.Reaches (c : RegSpace) (r : Register) : Prop :=
  (c.caps &&& ajaSmallReg = 0 ∨ r.add.toNat ≤ 255) ∧ r.add.toNat ≤ c.reglen

instance RegSpace.decidableReaches (c : RegSpace) (r : Register) : Decidable (c.Reaches r) :=
  inferInstanceAs (Decidable (_ ∧ _))

variable {c : RegSpace} {r : Register} {val : BitVec 32}

theorem shiftBy_lt (shift : BitVec 32) : shiftBy shift < 32 := Nat.mod_lt _ (by decide)

theorem Register.OneBit.covers_iff (h : r.OneBit) {add i : ℕ} :
    r.Covers add i ↔ add = r.add.toNat ∧ i = shiftBy r.shift := by
  have hlt := shiftBy_lt r.shift
  unfold Register.Covers
  rw [h, BitVec.getLsbD_twoPow]
  simp [hlt, eq_comm]

theorem caps_prset (c : RegSpace) (r : Register) (v : BitVec 32) :
    (c.prset r v).caps = c.caps ∧ (c.prset r v).reglen = c.reglen := by
  unfold RegSpace.prset ajaPrset
  simp only
  split_ifs <;> exact ⟨rfl, rfl⟩

theorem prset_oneBit (hc : c.Reaches r) (hr : r.OneBit) (v : BitVec 32) :
    c.prset r v = c.modify r.add.toNat (put (BitVec.twoPow 32 (shiftBy r.shift))
      (shiftBy r.shift) v) := by
  obtain ⟨hcaps, hlen⟩ := hc
  have hmask : r.mask ≠ 0xFFFFFFFF := by
    intro hall
    have hother : (r.mask.getLsbD (if shiftBy r.shift = 0 then 1 else 0)) = true := by
      rw [hall]
      split_ifs <;> decide
    have hcovers := hr.covers_iff.mp ⟨rfl, hother⟩
    split_ifs at hcovers <;> omega
  unfold RegSpace.prset ajaPrset
  simp only
  rw [if_neg (by rcases hcaps with h | h <;> [exact fun hsmall => hsmall.1 h; omega]),
    if_neg (by omega), if_neg hmask, ← hr]
  rfl

theorem prget_oneBit (hc : c.Reaches r) (hr : r.OneBit) :
    (ajaPrget c r).1 = if (c.word r.add.toNat).getLsbD (shiftBy r.shift) then 1 else 0 := by
  obtain ⟨hcaps, hlen⟩ := hc
  have hget := get_twoPow (shiftBy_lt r.shift) (c.word r.add.toNat)
  unfold ajaPrget
  simp only
  rw [if_neg (by rcases hcaps with h | h <;> [exact fun hsmall => hsmall.1 h; omega]),
    if_neg (by omega), hr]
  exact hget

/-! ### A value written to many of them -/

/-- The value `v` written to the registers `l`, one after the other. -/
def RegSpace.prsets (c : RegSpace) (l : List Register) (v : BitVec 32) : RegSpace :=
  l.foldl (fun c r => c.prset r v) c

/-- The bits the registers have of the word at `add`, in order. -/
def shiftsAt (l : List Register) (add : ℕ) : List ℕ :=
  (l.filter fun r => r.add.toNat = add).map fun r => shiftBy r.shift

/-- The registers are bits that the card has. -/
def RegSpace.Bits (c : RegSpace) (l : List Register) : Prop := ∀ r ∈ l, c.Reaches r ∧ r.OneBit

theorem caps_prsets (v : BitVec 32) : ∀ (l : List Register) (c : RegSpace),
    (c.prsets l v).caps = c.caps ∧ (c.prsets l v).reglen = c.reglen
  | [], _ => ⟨rfl, rfl⟩
  | r :: l, c => by
    obtain ⟨hcaps, hlen⟩ := caps_prsets v l (c.prset r v)
    exact ⟨hcaps.trans (caps_prset c r v).1, hlen.trans (caps_prset c r v).2⟩

theorem RegSpace.Bits.of_caps {d : RegSpace} {l : List Register} (h : c.Bits l)
    (hcaps : d.caps = c.caps) (hlen : d.reglen = c.reglen) : d.Bits l := by
  intro r hr
  obtain ⟨hreach, hone⟩ := h r hr
  unfold RegSpace.Reaches at hreach ⊢
  rw [hcaps, hlen]
  exact ⟨hreach, hone⟩

/-- In every word the value is put into the bits of the word. -/
theorem word_prsets (v : BitVec 32) (add : ℕ) : ∀ {l : List Register} {c : RegSpace}, c.Bits l →
    (c.prsets l v).word add = putBits (shiftsAt l add) v (c.word add)
  | [], _, _ => rfl
  | r :: l, c, h => by
    obtain ⟨hreach, hone⟩ := h r (List.mem_cons_self ..)
    obtain ⟨hcaps, hlen⟩ := caps_prset c r v
    have hrest : (c.prset r v).Bits l :=
     RegSpace.Bits.of_caps (fun r hr => h r (List.mem_cons_of_mem _ hr)) hcaps hlen
    show ((c.prset r v).prsets l v).word add = _
    rw [word_prsets v add hrest, prset_oneBit hreach hone, word_modify]
    unfold shiftsAt
    by_cases hadd : add = r.add.toNat
    · rw [if_pos hadd, List.filter_cons_of_pos (by simpa using hadd.symm), ← hadd]
      rfl
    · rw [if_neg hadd, List.filter_cons_of_neg (by simpa using Ne.symm hadd)]

theorem mem_shiftsAt {l : List Register} {add i : ℕ} :
    i ∈ shiftsAt l add ↔ ∃ r ∈ l, r.add.toNat = add ∧ shiftBy r.shift = i := by
  unfold shiftsAt
  rw [List.mem_map]
  constructor
  · rintro ⟨r, hr, rfl⟩
    obtain ⟨hr, hadd⟩ := List.mem_filter.mp hr
    exact ⟨r, hr, of_decide_eq_true hadd, rfl⟩
  · rintro ⟨r, hr, hadd, rfl⟩
    exact ⟨r, List.mem_filter.mpr ⟨hr, decide_eq_true hadd⟩, rfl⟩

/-! ### What an enable should do -/

/-- The bits that let the DMA engines go. -/
def goFields : List Register := [dma1go, dma2go, dma3go]

/-- The enable fields `aja_irqset` names. -/
def irqFields (caps : BitVec 32) : List Register :=
  [buserrorirqenable, dma1irqenable, dma2irqenable, dma3irqenable, outputirqenable, input1irqenable,
    input2irqenable, audiowrapirqenable] ++
    if caps &&& ajaHasSerial ≠ 0 then [uarttxirqenable, uartrxirqenable, uartenabletx, uartenablerx]
      else []

/-- A card of the table, with the registers its interrupts need. -/
structure RegSpace.HasIrqs (c : RegSpace) : Prop where
  caps : c.caps ∈ ajaCardcaps
  len : 0xC8 ≤ c.reglen
  serial : c.caps &&& ajaHasSerial ≠ 0 → 0x124 ≤ c.reglen

/-- Every enable field reads 1 if the value is not 0 and else 0, and no other bit has
changed but, when it is 0, those of the DMA engines. -/
structure IrqsetRight (c : RegSpace) (val : BitVec 32) : Prop where
  enabled : ∀ r ∈ irqFields c.caps, (ajaPrget (ajaIrqset c val) r).1 = if val = 0 then 0 else 1
  frame : ∀ add, ∀ i < 32, (∀ r ∈ irqFields c.caps, ¬ r.Covers add i) →
    (val = 0 → ∀ r ∈ goFields, ¬ r.Covers add i) →
    ((ajaIrqset c val).word add).getLsbD i = (c.word add).getLsbD i

theorem irqset_eq (c : RegSpace) (val : BitVec 32) :
    ajaIrqset c val = (c.prsets (if val = 0 then goFields else []) 0).prsets
      (irqFields c.caps) val := by
  have hfields : ∀ d : RegSpace, d.caps = c.caps → ajaIrqset d val =
      (d.prsets (if val = 0 then goFields else []) 0).prsets (irqFields c.caps) val := by
    intro d hd
    have hgo : (if val = 0 then ((d.prset dma1go 0).prset dma2go 0).prset dma3go 0 else d) =
        d.prsets (if val = 0 then goFields else []) 0 := by
      split_ifs <;> simp only [RegSpace.prsets, goFields, List.foldl_cons, List.foldl_nil]
    have hcaps : (d.prsets (if val = 0 then goFields else []) 0).caps = c.caps :=
      (caps_prsets 0 _ d).1.trans hd
    unfold ajaIrqset
    simp only [hgo]
    generalize d.prsets (if val = 0 then goFields else []) 0 = e at hcaps
    simp only [(caps_prset _ _ _).1, hcaps, irqFields, RegSpace.prsets, List.foldl_append,
      List.foldl_cons, List.foldl_nil]
    split_ifs <;> simp only [List.foldl_cons, List.foldl_nil]
  exact hfields c rfl

theorem RegSpace.HasIrqs.bits (h : c.HasIrqs) : c.Bits (irqFields c.caps) := by
  obtain ⟨hcaps, hlen, hserial⟩ := h
  have hbit : ∀ l : List Register, (∀ r ∈ l, r.OneBit ∧ r.add.toNat ≤ 0xC8) → c.Bits l :=
    fun l hl r hr =>
    ⟨⟨.inr (by have := (hl r hr).2; omega), (hl r hr).2.trans hlen⟩, (hl r hr).1⟩
  unfold irqFields
  intro r hr
  rcases List.mem_append.mp hr with hr | hr
  · exact hbit _ (by decide +kernel) r hr
  · split_ifs at hr with hs
    · have hsmall := cardcaps_serial hcaps hs
      have hlen' := hserial hs
      have hall : ∀ r ∈ [uarttxirqenable, uartrxirqenable, uartenabletx, uartenablerx], r.OneBit ∧
          r.add.toNat ≤ 0x124 := by
        decide +kernel
      exact ⟨⟨.inl hsmall, (hall r hr).2.trans hlen'⟩, (hall r hr).1⟩
    · exact absurd hr List.not_mem_nil

theorem RegSpace.HasIrqs.go (h : c.HasIrqs) (val : BitVec 32) :
    c.Bits (if val = 0 then goFields else []) := by
  have hall : ∀ r ∈ goFields, r.OneBit ∧ r.add.toNat ≤ 0xC8 := by decide +kernel
  intro r hr
  have hr : r ∈ goFields := by
    split_ifs at hr
    · exact hr
    · exact absurd hr List.not_mem_nil
  exact ⟨⟨.inr (by have := (hall r hr).2; omega), (hall r hr).2.trans h.len⟩, (hall r hr).1⟩

/-- Every word after an enable: the go bits cleared, then the value put into the
enable bits. -/
theorem word_irqset (h : c.HasIrqs) (val : BitVec 32) (add : ℕ) :
    (ajaIrqset c val).word add = putBits (shiftsAt (irqFields c.caps) add) val
      (putBits (shiftsAt (if val = 0 then goFields else []) add) 0 (c.word add)) := by
  obtain ⟨hcaps, hlen⟩ := caps_prsets 0 (if val = 0 then goFields else []) c
  rw [irqset_eq, word_prsets val add (RegSpace.Bits.of_caps h.bits hcaps hlen),
    word_prsets 0 add (h.go val)]

theorem caps_irqset (c : RegSpace) (val : BitVec 32) :
    (ajaIrqset c val).caps = c.caps ∧ (ajaIrqset c val).reglen = c.reglen := by
  obtain ⟨hcaps, hlen⟩ := caps_prsets 0 (if val = 0 then goFields else []) c
  obtain ⟨hcaps', hlen'⟩ :=
    caps_prsets val (irqFields c.caps) (c.prsets (if val = 0 then goFields else []) 0)
  rw [irqset_eq]
  exact ⟨hcaps'.trans hcaps, hlen'.trans hlen⟩

/-- What is read of an enable field is its bit. -/
theorem prget_irqset (h : c.HasIrqs) (val : BitVec 32) {r : Register} (hr : r ∈ irqFields c.caps) :
    (ajaPrget (ajaIrqset c val) r).1 =
      if ((ajaIrqset c val).word r.add.toNat).getLsbD (shiftBy r.shift) then 1 else 0 := by
  obtain ⟨hcaps, hlen⟩ := caps_irqset c val
  obtain ⟨hreach, hone⟩ := RegSpace.Bits.of_caps h.bits hcaps hlen r hr
  exact prget_oneBit hreach hone

/-- 0 and 1 do what they should. -/
theorem irqset_right (h : c.HasIrqs) (hval : val = 0 ∨ val = 1) : IrqsetRight c val := by
  have hsmall : val.toNat < 2 := by rcases hval with rfl | rfl <;> decide
  constructor
  · intro r hr
    have hmem : shiftBy r.shift ∈ shiftsAt (irqFields c.caps) r.add.toNat :=
      mem_shiftsAt.mpr ⟨r, hr, rfl, rfl⟩
    rw [prget_irqset h val hr, word_irqset h, getLsbD_putBits hsmall (shiftBy_lt _), if_pos hmem]
    rcases hval with rfl | rfl <;> rfl
  · intro add i hi hout hgo
    have hnot : i ∉ shiftsAt (irqFields c.caps) add := by
      intro hmem
      obtain ⟨r, hr, hadd, hshift⟩ := mem_shiftsAt.mp hmem
      exact hout r hr ((h.bits r hr).2.covers_iff.mpr ⟨hadd.symm, hshift.symm⟩)
    have hnot' : i ∉ shiftsAt (if val = 0 then goFields else []) add := by
      intro hmem
      obtain ⟨r, hr, hadd, hshift⟩ := mem_shiftsAt.mp hmem
      have hcovers := (h.go val r hr).2.covers_iff.mpr ⟨hadd.symm, hshift.symm⟩
      split_ifs at hr with hval
      · exact hgo hval r hr hcovers
      · exact absurd hr List.not_mem_nil
    rw [word_irqset h, getLsbD_putBits hsmall hi, if_neg hnot, getLsbD_putBits (by decide) hi,
      if_neg hnot']

/-- A value that is right and not 0 leaves every word as 1 would. -/
theorem IrqsetRight.as_one (h : c.HasIrqs) (hval : val ≠ 0) (hright : IrqsetRight c val) (add : ℕ) :
    putBits (shiftsAt (irqFields c.caps) add) val (c.word add) =
      putBits (shiftsAt (irqFields c.caps) add) 1 (c.word add) := by
  have hword :
      (ajaIrqset c val).word add = putBits (shiftsAt (irqFields c.caps) add) val (c.word add) := by
    rw [word_irqset h, if_neg hval]
    rfl
  apply BitVec.eq_of_getLsbD_eq
  intro i hi
  rw [getLsbD_putBits (v := 1) (by decide) hi]
  by_cases hmem : i ∈ shiftsAt (irqFields c.caps) add
  · obtain ⟨r, hr, rfl, rfl⟩ := mem_shiftsAt.mp hmem
    have hread := hright.enabled r hr
    rw [prget_irqset h val hr, if_neg hval, hword] at hread
    rw [if_pos hmem]
    cases hbit :
      (putBits (shiftsAt (irqFields c.caps) r.add.toNat) val (c.word r.add.toNat)).getLsbD
        (shiftBy r.shift) with
    | true => rfl
    | false =>
      rw [hbit, if_neg Bool.false_ne_true] at hread
      exact absurd hread (by decide)
  · rw [if_neg hmem, ← hword]
    refine hright.frame add i hi (fun r hr hcovers => hmem ?_) fun h0 => absurd h0 hval
    obtain ⟨hadd, hshift⟩ := (h.bits r hr).2.covers_iff.mp hcovers
    exact mem_shiftsAt.mpr ⟨r, hr, hadd.symm, hshift.symm⟩

/-- What a value that is right spills out of the interrupt control words is made up
for: the two words together leave room for 1 only. -/
theorem IrqsetRight.eq_one (h : c.HasIrqs) (hval : val ≠ 0) (hright : IrqsetRight c val) :
    val = 1 := by
  have hlt := val.isLt
  have hspill : ∀ (add s : ℕ) (l : List ℕ), shiftsAt (irqFields c.caps) add = s :: l →
      ∃ e : ℤ, -weight l ≤ e ∧ e ≤ weight l ∧
        (2 : ℤ) ^ 32 ∣ e - (val.toNat - 1) * weight (s :: l) := by
    intro add s l hl
    have hone := hright.as_one h hval add
    rw [hl] at hone
    obtain ⟨e, hge, hle, hmod⟩ := putBits_same hone
    exact ⟨e, hge, hle, Int.modEq_iff_dvd.mp hmod⟩
  have hfirst : shiftsAt (irqFields c.caps) 0xC4 = [4, 0, 1, 2] := by
    unfold irqFields
    split_ifs <;> rfl
  obtain ⟨e, hge, hle, hdvd⟩ := hspill 0xC4 4 [0, 1, 2] hfirst
  rw [show weight [0, 1, 2] = 7 from rfl] at hge hle
  rw [show weight [4, 0, 1, 2] = 23 from rfl] at hdvd
  have hpos : 0 < val.toNat := Nat.pos_of_ne_zero fun h0 => hval (BitVec.eq_of_toNat_eq h0)
  have hzero : (val.toNat : ℤ) - 1 = 0 := by
    by_cases hserial : c.caps &&& ajaHasSerial ≠ 0
    · have hsecond : shiftsAt (irqFields c.caps) 0x50 = [0, 1, 2, 6, 7, 8] := by
        rw [irqFields, if_pos hserial]
        rfl
      obtain ⟨e', hge', hle', hdvd'⟩ := hspill 0x50 0 [1, 2, 6, 7, 8] hsecond
      rw [show weight [1, 2, 6, 7, 8] = 454 from rfl] at hge' hle'
      rw [show weight [0, 1, 2, 6, 7, 8] = 455 from rfl] at hdvd'
      exact spill_eq_zero (by omega) (by omega) hdvd hdvd' (by omega) (by omega)
        (by omega) (by omega)
        (Int.isCoprime_iff_gcd_eq_one.mpr rfl) (Int.isCoprime_iff_gcd_eq_one.mpr rfl)
    · have hsecond : shiftsAt (irqFields c.caps) 0x50 = [0, 1, 2, 6] := by
        rw [irqFields, if_neg hserial]
        rfl
      obtain ⟨e', hge', hle', hdvd'⟩ := hspill 0x50 0 [1, 2, 6] hsecond
      rw [show weight [1, 2, 6] = 70 from rfl] at hge' hle'
      rw [show weight [0, 1, 2, 6] = 71 from rfl] at hdvd'
      exact spill_eq_zero (by omega) (by omega) hdvd hdvd' (by omega) (by omega)
        (by omega) (by omega)
        (Int.isCoprime_iff_gcd_eq_one.mpr rfl) (Int.isCoprime_iff_gcd_eq_one.mpr rfl)
  apply BitVec.eq_of_toNat_eq
  show val.toNat = 1
  omega

/-- On every card and whatever its registers held, an enable does what it should
exactly when the `int` is 0 or 1. -/
theorem irqset_right_iff (h : c.HasIrqs) (val : BitVec 32) :
    IrqsetRight c val ↔ val = 0 ∨ val = 1 := by
  constructor
  · intro hright
    by_cases hval : val = 0
    · exact .inl hval
    · exact .inr (hright.eq_one h hval)
  · exact irqset_right h

/-- A card with a serial port, enabled with 1. -/
theorem irqset_right_iff_serial :
    IrqsetRight ⟨ajaHasAudio ||| ajaHasHD ||| ajaHasDualLink ||| ajaHasSerial ||| ajaHasLUT,
      0x10000, fun _ => 0xFFFFFFFF⟩ 1 :=
  (irqset_right_iff ⟨by decide, by decide, fun _ => by decide⟩ 1).mpr (.inr rfl)

/-- With 2 the output interrupt is not enabled, and a bit is set that is no enable
field. -/
theorem irqset_two :
    let c : RegSpace := ⟨ajaHasAudio ||| ajaHasHD ||| ajaHasLUT, 0x10000, fun _ => 0⟩
    (ajaPrget (ajaIrqset c 2) outputirqenable).1 = 0 ∧
      ((ajaIrqset c 2).word 0x50).getLsbD 3 = true ∧ ¬ IrqsetRight c 2 := by
  intro c
  have hread : (ajaPrget (ajaIrqset c 2) outputirqenable).1 = 0 := by decide +kernel
  refine ⟨hread, by decide +kernel, fun h => ?_⟩
  have henabled := h.enabled outputirqenable (by decide)
  rw [hread] at henabled
  exact absurd henabled (by decide)

end AjaDriver
