/-
# Loading the lookup tables

`aja_ioctl_lutload` writes the three tables of an `AJACTL_LUTLOAD` behind each other into
the register space, an entry of each in every round of its loop, by address: `aja_prset` and
its comparison with the length have no part in it. A process reads back what it loaded,
no other word changes, and the writes are inside the card exactly when its register space
goes up to the end of the third table (`lut_loaded`).
-/
import AjaDriver.Irqset
import AjaDriver.Lib.Stores

namespace AjaDriver

open Stores

/-- `aja_lut_t`; nothing reads its table number. -/
structure Lut where
  c1 : ℕ → BitVec 32
  c2 : ℕ → BitVec 32
  c3 : ℕ → BitVec 32

/-- The entries of a table. -/
def lutSize : ℕ := 512

/-- `iowrite32`, at an offset of the register space. -/
def RegSpace.iowrite32 (c : RegSpace) (value : BitVec 32) (add : ℕ) : RegSpace :=
  { c with word := Function.update c.word add value }

/-- The loop of `aja_ioctl_lutload`, with `left` rounds to go: the register space after it
and its accesses. -/
def lutLoop (lut : Lut) : (left i c1a c2a c3a : ℕ) → RegSpace → RegSpace × List RegAccess
  | 0, _, _, _, _, c => (c, [])
  | left + 1, i, c1a, c2a, c3a, c =>
    let c := c.iowrite32 (lut.c1 i) c1a
    let c := c.iowrite32 (lut.c2 i) c2a
    let c := c.iowrite32 (lut.c3 i) c3a
    let r := lutLoop lut left (i + 1) (c1a + 4) (c2a + 4) (c3a + 4) c
    (r.1, .iowrite32 c1a (lut.c1 i) :: .iowrite32 c2a (lut.c2 i) :: .iowrite32 c3a
      (lut.c3 i) :: r.2)

/-- `aja_ioctl_lutload`; `vmalloc` may fail. -/
def ajaIoctlLutload (vmalloc : Bool) (lut : Lut) (c : RegSpace) : ℤ × RegSpace × List RegAccess :=
  if c.caps &&& ajaHasLUT = 0 then (-EINVAL, c, [])
  else if !vmalloc then (-ENOMEM, c, [])
  else (0, lutLoop lut lutSize 0 0x800 0x1000 0x1800 c)

/-! ### The writes -/

/-- Table `t`, and where it begins. -/
def Lut.table (lut : Lut) : ℕ → ℕ → BitVec 32
  | 0 => lut.c1
  | 1 => lut.c2
  | _ => lut.c3

def lutBase (t : ℕ) : ℕ := 0x800 * (t + 1)

/-- The words of round `i`. -/
def Lut.round (lut : Lut) (i : ℕ) : List (ℕ × BitVec 32) :=
  (List.range 3).map fun t => (lutBase t + 4 * i, lut.table t i)

/-- A word written, as an access. -/
def wordWritten (p : ℕ × BitVec 32) : RegAccess := .iowrite32 p.1 p.2

variable {lut : Lut} {c : RegSpace}

/-- What the loop does from round `i` on. -/
theorem lutLoop_writes : ∀ (left i : ℕ) (c : RegSpace),
    lutLoop lut left i (0x800 + 4 * i) (0x1000 + 4 * i) (0x1800 + 4 * i) c =
      ({ c with word := store c.word ((List.range' i left).flatMap lut.round) },
        ((List.range' i left).flatMap lut.round).map wordWritten)
  | 0, _, _ => rfl
  | left + 1, i, c => by
    have hround : lut.round i =
        [(0x800 + 4 * i, lut.c1 i), (0x1000 + 4 * i, lut.c2 i), (0x1800 + 4 * i, lut.c3 i)] := rfl
    rw [List.range'_succ, List.flatMap_cons, store_append, hround, lutLoop]
    simp only [Nat.add_assoc, ← Nat.mul_succ]
    rw [lutLoop_writes left (i + 1)]
    rfl

/-- No address is written twice. -/
theorem lut_nodup : (((List.range' 0 lutSize).flatMap lut.round).map Prod.fst).Nodup := by
  have hadds : ∀ i, (lut.round i).map Prod.fst = [0x800 + 4 * i, 0x1000 + 4 * i, 0x1800 + 4 * i] :=
    fun _ => rfl
  rw [List.map_flatMap]
  simp only [hadds]
  refine List.nodup_flatMap.mpr ⟨fun i _ => ?_, ?_⟩
  · simp only [List.nodup_cons, List.mem_cons, List.not_mem_nil, or_false, not_false_eq_true,
      List.nodup_nil, and_true]
    omega
  · -- two rounds have no address in common
    refine List.Nodup.pairwise_of_forall_ne List.nodup_range' fun i hi j hj hij => ?_
    simp only [List.mem_range', lutSize] at hi hj
    intro a ha hb
    simp only [List.mem_cons, List.not_mem_nil, or_false] at ha hb
    omega

theorem mem_lut (p : ℕ × BitVec 32) : p ∈ (List.range' 0 lutSize).flatMap lut.round ↔
    ∃ t < 3, ∃ i < lutSize, p = (lutBase t + 4 * i, lut.table t i) := by
  constructor
  · intro hp
    obtain ⟨i, hi, hp⟩ := List.mem_flatMap.mp hp
    obtain ⟨t, ht, rfl⟩ := List.mem_map.mp hp
    exact ⟨t, List.mem_range.mp ht, i, by have := (List.mem_range'_1.mp hi).2; omega, rfl⟩
  · rintro ⟨t, ht, i, hi, rfl⟩
    have hround : (lutBase t + 4 * i, lut.table t i) ∈ lut.round i :=
      List.mem_map.mpr ⟨t, List.mem_range.mpr ht, rfl⟩
    exact List.mem_flatMap.mpr ⟨i, List.mem_range'_1.mpr ⟨Nat.zero_le i, by omega⟩, hround⟩

/-- A card with lookup tables has all the registers. -/
theorem cardcaps_lut {caps : BitVec 32} (h : caps ∈ ajaCardcaps) (hlut : caps &&& ajaHasLUT ≠ 0) :
    caps &&& ajaSmallReg = 0 := by
  have hall : ajaCardcaps.all (fun caps => caps &&& ajaHasLUT = 0 ∨ caps &&& ajaSmallReg = 0) =
      true := by decide
  have hcaps := List.all_eq_true.mp hall caps h
  exact (of_decide_eq_true hcaps).resolve_left hlut

/-- Reading a whole register. -/
theorem prget_whole {d : RegSpace} (hsmall : d.caps &&& ajaSmallReg = 0) {add : ℕ}
    (hadd : add < 2 ^ 32) (hlen : add ≤ d.reglen) :
    (ajaPrget d ⟨BitVec.ofNat 32 add, 0, 0xFFFFFFFF⟩).1 = d.word add := by
  have hnat : (BitVec.ofNat 32 add).toNat = add := by
    rw [BitVec.toNat_ofNat]
    exact Nat.mod_eq_of_lt hadd
  unfold ajaPrget
  simp only [hnat]
  rw [if_neg fun h => h.1 hsmall, if_neg (Nat.not_lt.mpr hlen)]
  show (d.word add &&& BitVec.allOnes 32) >>> (0 : ℕ) = d.word add
  rw [BitVec.and_allOnes, BitVec.ushiftRight_zero]

/-- The whole call, on a card that has the tables: each entry is stored once. -/
theorem lutload_stores (hlut : c.caps &&& ajaHasLUT ≠ 0) (lut : Lut) : ∃ l : List (ℕ × BitVec 32),
    ajaIoctlLutload true lut c = (0, { c with word := store c.word l }, l.map wordWritten) ∧
      (l.map Prod.fst).Nodup ∧
      ∀ p, p ∈ l ↔ ∃ t < 3, ∃ i < lutSize, p = (lutBase t + 4 * i, lut.table t i) := by
  refine ⟨_, ?_, lut_nodup, mem_lut⟩
  unfold ajaIoctlLutload
  rw [if_neg hlut]
  exact congrArg (Prod.mk 0) (lutLoop_writes lutSize 0 c)

/-- The tables of a load are in their places afterwards and are what a process reads there;
no other word has changed, and the writes stay inside the register space exactly when it
has the room. -/
theorem lut_loaded (hcaps : c.caps ∈ ajaCardcaps) (hlut : c.caps &&& ajaHasLUT ≠ 0) (lut : Lut) :
    let r := ajaIoctlLutload true lut c
    r.1 = 0 ∧ (∀ t < 3, ∀ i < lutSize, r.2.1.word (lutBase t + 4 * i) = lut.table t i) ∧
      (∀ a, 4 ∣ a → (∀ t < 3, ∀ i < lutSize, lutBase t + 4 * i ≠ a) →
        r.2.1.word a = c.word a) ∧
      ((∀ x ∈ r.2.2, x.add + 4 ≤ c.reglen) ↔ 0x2000 ≤ c.reglen) ∧
      (0x2000 ≤ c.reglen → ∀ t < 3, ∀ i < lutSize, ∀ value,
        (ajaIoctlGetregister r.2.1
          ⟨⟨BitVec.ofNat 32 (lutBase t + 4 * i), 0, 0xFFFFFFFF⟩, value⟩).2.1.value =
            lut.table t i) := by
  obtain ⟨l, hl, hn, hmem⟩ := lutload_stores hlut lut
  rw [hl]
  have hword : ∀ t < 3, ∀ i < lutSize, store c.word l (lutBase t + 4 * i) = lut.table t i :=
    fun t ht i hi => store_mem hn ((hmem _).mpr ⟨t, ht, i, hi, rfl⟩) c.word
  refine ⟨rfl, hword, fun a _ ha => ?_, ⟨fun hin => ?_, fun hlen x hx => ?_⟩,
    fun hlen t ht i hi value => ?_⟩
  · refine store_other (fun p hp => ?_) c.word
    obtain ⟨t, ht, i, hi, rfl⟩ := (hmem p).mp hp
    exact ha t ht i hi
  · -- the last entry of the third table
    have hlast :=
      hin (wordWritten _) (List.mem_map_of_mem ((hmem _).mpr ⟨2, by decide, 511, by decide, rfl⟩))
    exact hlast
  · obtain ⟨p, hp, rfl⟩ := List.mem_map.mp hx
    obtain ⟨t, ht, i, hi, rfl⟩ := (hmem p).mp hp
    unfold lutSize at hi
    show lutBase t + 4 * i + 4 ≤ c.reglen
    unfold lutBase
    omega
  · have hadd : lutBase t + 4 * i < 0x2000 := by
      unfold lutSize at hi
      unfold lutBase
      omega
    have hread := prget_whole (d := { c with word := store c.word l }) (cardcaps_lut hcaps hlut)
      (show lutBase t + 4 * i < 2 ^ 32 by omega) (show lutBase t + 4 * i ≤ c.reglen by omega)
    exact hread.trans (hword t ht i hi)

/-- Tables of zeros but for one entry, on a card whose registers end within the third. -/
theorem lut_loaded_short :
    let c : RegSpace := ⟨ajaHasAudio ||| ajaHasHD ||| ajaHasLUT, 0x1900, fun _ => 7⟩
    let r := ajaIoctlLutload true ⟨fun _ => 0, fun i => if i = 5 then 9 else 0, fun _ => 0⟩ c
    r.1 = 0 ∧ r.2.1.word 0x1014 = 9 ∧ ¬ ∀ x ∈ r.2.2, x.add + 4 ≤ c.reglen := by
  intro c r
  obtain ⟨hzero, htable, -, hin, -⟩ :=
    lut_loaded (show c.caps ∈ ajaCardcaps by decide) (by decide) _
  exact ⟨hzero, htable 1 (by decide) 5 (by decide), fun h => absurd (hin.mp h) (by decide)⟩

end AjaDriver
