/-
# What userspace reaches of the card

A process reads and writes registers through two ioctls, with an address, a
shift and a mask of its own, and maps the card's memory. An access to a register
covers four bytes, but the address alone is compared with the length of the
register space, and a mapping is never compared with the length of what is
mapped: the requests that stay inside the card are the ones of
`access_inside_iff`.
-/
import AjaDriver.Dma

namespace AjaDriver

/-! ### Registers -/

/-- The flag of `aja_cardcap_t` for cards with 64 registers only. -/
def ajaSmallReg : BitVec 32 := 0x0080

/-- The register space: the flags of the card's capabilities, its length in
bytes, and the word at an offset. -/
structure RegSpace where
  caps : BitVec 32
  reglen : ℕ
  word : ℕ → BitVec 32

/-- An access to the four bytes from `add` on. -/
inductive RegAccess
  | ioread32 (add : ℕ)
  | iowrite32 (add : ℕ) (value : BitVec 32)
  deriving DecidableEq

def RegAccess.add : RegAccess → ℕ
  | .ioread32 add => add
  | .iowrite32 add _ => add

/-- A shift as the processor does it, by the amount modulo 32. -/
def shiftBy (shift : BitVec 32) : ℕ := shift.toNat % 32

/-- `aja_prset`: the result, the register space after and the accesses. -/
def ajaPrset (c : RegSpace) (preg : Register) (value : BitVec 32) : ℤ × RegSpace × List RegAccess :=
  let add := preg.add.toNat
  -- a register that an older card does not have is ignored
  if c.caps &&& ajaSmallReg ≠ 0 ∧ add > 255 then (0, c, [])
  else if add > c.reglen then (-1, c, [])
  else if preg.mask = 0xFFFFFFFF then
    (0, { c with word := Function.update c.word add value }, [.iowrite32 add value])
  else
    let reg := c.word add &&& ~~~preg.mask
    let value := value <<< shiftBy preg.shift
    (0, { c with word := Function.update c.word add (reg + value) },
      [.ioread32 add, .iowrite32 add (reg + value)])

/-- `aja_prget`: the value and the accesses. -/
def ajaPrget (c : RegSpace) (preg : Register) : BitVec 32 × List RegAccess :=
  let add := preg.add.toNat
  if c.caps &&& ajaSmallReg ≠ 0 ∧ add > 255 then (0, [])
  else if add > c.reglen then (0, [])
  else ((c.word add &&& preg.mask) >>> shiftBy preg.shift, [.ioread32 add])

/-- `aja_registerio_t`. -/
structure RegisterIo where
  reginfo : Register
  value : BitVec 32

/-- `aja_ioctl_getregister`, on the user's structure: the result, the structure
after and the accesses. -/
def ajaIoctlGetregister (c : RegSpace) (rio : RegisterIo) : ℤ × RegisterIo × List RegAccess :=
  let r := ajaPrget c rio.reginfo
  (0, { rio with value := r.1 }, r.2)

/-- `aja_ioctl_setregister`. -/
def ajaIoctlSetregister (c : RegSpace) (rio : RegisterIo) : ℤ × RegSpace × List RegAccess :=
  ajaPrset c rio.reginfo rio.value

/-! ### Mappings -/

/-- A resource of the card on the PCI bus. -/
structure PciResource where
  start : ℕ
  len : ℕ

/-- The part of `struct vm_area_struct` that `aja_mmap` reads. -/
structure Vma where
  vm_start : ℕ
  vm_end : ℕ
  vm_pgoff : ℕ
  lt : vm_start < vm_end

/-- A call of `remap_pfn_range`: whole pages from page `pfn` on, for `size`
bytes. -/
structure Mapping where
  pfn : ℕ
  size : ℕ

def pageAlign (size : ℕ) : ℕ := (size + pageSize - 1) / pageSize * pageSize

/-- The bytes of the bus a mapping covers. -/
def Mapping.Covers (m : Mapping) (b : ℕ) : Prop :=
  m.pfn * pageSize ≤ b ∧ b < m.pfn * pageSize + pageAlign m.size

/-- The resource `aja_mmap` selects. -/
def mmapResource (pci : ℕ → PciResource) : ℕ → Option PciResource
  | 0 => some (pci 0)
  | 1 => some (pci 2)
  | 2 => some (pci 4)
  | _ => none

/-- `aja_mmap`: the result and the mapping made; `remaps` tells whether
`remap_pfn_range` succeeds. -/
def ajaMmap (pci : ℕ → PciResource) (remaps : Bool) (vma : Vma) : ℤ × Option Mapping :=
  let size := vma.vm_end - vma.vm_start
  match mmapResource pci vma.vm_pgoff with
  | none => (-ENODEV, none)
  | some r =>
    if r.len = 0 ∨ r.start = 0 then (-ENODEV, none)
    else if !remaps then (-EAGAIN, none)
    else (0, some ⟨r.start / pageSize, size⟩)

/-! ### Inside the card -/

/-- What a process asks for. -/
inductive UserAccess
  | getregister (rio : RegisterIo)
  | setregister (rio : RegisterIo)
  | mmap (vma : Vma)

/-- The bytes reached lie inside the register space, or inside the resource
selected. -/
def UserAccess.Inside (c : RegSpace) (pci : ℕ → PciResource) (remaps : Bool) : UserAccess → Prop
  | .getregister rio =>
    ∀ a ∈ (ajaIoctlGetregister c rio).2.2, a.add = rio.reginfo.add.toNat ∧ a.add + 4 ≤ c.reglen
  | .setregister rio =>
    ∀ a ∈ (ajaIoctlSetregister c rio).2.2, a.add = rio.reginfo.add.toNat ∧ a.add + 4 ≤ c.reglen
  | .mmap vma => ∀ m, (ajaMmap pci remaps vma).2 = some m →
      ∃ r, mmapResource pci vma.vm_pgoff = some r ∧ ∀ b, m.Covers b →
        r.start ≤ b ∧ b < r.start + r.len

/-- A register address that the comparison with the length judges right: the
whole word is inside, or the address is beyond the length. -/
def RegSpace.Judged (c : RegSpace) (preg : Register) : Prop :=
  preg.add.toNat + 4 ≤ c.reglen ∨ c.reglen < preg.add.toNat

/-- The condition: for a register, `Judged`; for a mapping, that it is refused
anyway, or that the resource begins with a page and has all the pages asked
for. -/
def UserAccess.Fits (c : RegSpace) (pci : ℕ → PciResource) (remaps : Bool) : UserAccess → Prop
  | .getregister rio => c.Judged rio.reginfo
  | .setregister rio => c.Judged rio.reginfo
  | .mmap vma =>
    ∀ r, mmapResource pci vma.vm_pgoff = some r → r.len ≠ 0 → r.start ≠ 0 → remaps = true →
      pageSize ∣ r.start ∧ pageAlign (vma.vm_end - vma.vm_start) ≤ r.len

variable {c : RegSpace} {pci : ℕ → PciResource} {remaps : Bool}

/-- On a card with all the registers, a register is accessed when its address is
not beyond the length. -/
theorem prget_accesses (hcaps : c.caps &&& ajaSmallReg = 0) (preg : Register) :
    (∀ a ∈ (ajaPrget c preg).2, a.add = preg.add.toNat) ∧
      ((ajaPrget c preg).2 = [] ↔ c.reglen < preg.add.toNat) := by
  unfold ajaPrget
  simp only
  rw [if_neg fun h => h.1 hcaps]
  split_ifs with hbeyond
  · exact ⟨fun a ha => by simp at ha, fun _ => hbeyond, fun _ => rfl⟩
  · refine ⟨fun a ha => ?_, fun h => by simp at h, fun h => absurd h hbeyond⟩
    obtain rfl := List.mem_singleton.mp ha
    rfl

theorem prset_accesses (hcaps : c.caps &&& ajaSmallReg = 0) (preg : Register) (value : BitVec 32) :
    (∀ a ∈ (ajaPrset c preg value).2.2, a.add = preg.add.toNat) ∧
      ((ajaPrset c preg value).2.2 = [] ↔ c.reglen < preg.add.toNat) := by
  unfold ajaPrset
  simp only
  rw [if_neg fun h => h.1 hcaps]
  split_ifs with hbeyond
  · exact ⟨fun a ha => by simp at ha, fun _ => hbeyond, fun _ => rfl⟩
  · refine ⟨fun a ha => ?_, fun h => by simp at h, fun h => absurd h hbeyond⟩
    obtain rfl := List.mem_singleton.mp ha
    rfl
  · refine ⟨fun a ha => ?_, fun h => by simp at h, fun h => absurd h hbeyond⟩
    simp only [List.mem_cons, List.not_mem_nil, or_false] at ha
    rcases ha with rfl | rfl <;> rfl

/-- Accesses at one address, none of them when it is beyond the length. -/
theorem judged_iff {preg : Register} {l : List RegAccess} (hl : ∀ a ∈ l, a.add = preg.add.toNat)
    (hnil : l = [] ↔ c.reglen < preg.add.toNat) :
    (∀ a ∈ l, a.add = preg.add.toNat ∧ a.add + 4 ≤ c.reglen) ↔ c.Judged preg := by
  unfold RegSpace.Judged
  constructor
  · intro h
    cases l with
    | nil => exact .inr (hnil.mp rfl)
    | cons a l =>
      obtain ⟨ha, hle⟩ := h a (List.mem_cons_self ..)
      exact .inl (by rwa [ha] at hle)
  · rintro (hle | hlt) a ha
    · rw [hl a ha]
      exact ⟨rfl, hle⟩
    · rw [hnil.mpr hlt] at ha
      simp at ha

theorem pageAlign_ge (size : ℕ) : size ≤ pageAlign size := by
  unfold pageAlign pageSize
  omega

/-- A mapping of at least a byte lies inside a resource exactly when the resource
begins with a page and has all the pages. -/
theorem mapping_inside_iff (r : PciResource) {size : ℕ} (hsize : 0 < size) :
    (∀ b, (Mapping.mk (r.start / pageSize) size).Covers b → r.start ≤ b ∧ b < r.start + r.len) ↔
      pageSize ∣ r.start ∧ pageAlign size ≤ r.len := by
  have hpos := pageAlign_ge size
  unfold Mapping.Covers
  simp only
  constructor
  · intro h
    have hfirst := h (r.start / pageSize * pageSize) ⟨le_rfl, by omega⟩
    have hlast := h (r.start / pageSize * pageSize + pageAlign size - 1) ⟨by omega, by omega⟩
    have hle := Nat.div_mul_le_self r.start pageSize
    have hdiv := Nat.div_add_mod r.start pageSize
    rw [Nat.mul_comm] at hdiv
    exact ⟨Nat.dvd_of_mod_eq_zero (by omega), by omega⟩
  · rintro ⟨hdvd, hle⟩ b hb
    rw [Nat.div_mul_cancel hdvd] at hb
    omega

/-- What a process asks for stays inside the card exactly when it fits. -/
theorem access_inside_iff (hcaps : c.caps &&& ajaSmallReg = 0) (req : UserAccess) :
    req.Inside c pci remaps ↔ req.Fits c pci remaps := by
  cases req with
  | getregister rio =>
    obtain ⟨hl, hnil⟩ := prget_accesses hcaps rio.reginfo
    exact judged_iff hl hnil
  | setregister rio =>
    obtain ⟨hl, hnil⟩ := prset_accesses hcaps rio.reginfo rio.value
    exact judged_iff hl hnil
  | mmap vma =>
    have hsize : 0 < vma.vm_end - vma.vm_start := Nat.sub_pos_of_lt vma.lt
    unfold UserAccess.Inside UserAccess.Fits ajaMmap
    simp only
    cases hres : mmapResource pci vma.vm_pgoff with
    | none => simp
    | some r =>
      simp only
      by_cases hdev : r.len = 0 ∨ r.start = 0
      · rw [if_pos hdev]
        constructor
        · rintro - _ ⟨⟩ hlen hstart
          exact absurd hdev (not_or.mpr ⟨hlen, hstart⟩)
        · intro _ m hm
          simp at hm
      rw [if_neg hdev]
      obtain ⟨hlen, hstart⟩ := not_or.mp hdev
      cases remaps with
      | false => simp
      | true =>
        rw [if_neg (by simp)]
        constructor
        · rintro h _ ⟨⟩ - - -
          obtain ⟨_, ⟨⟩, hin⟩ := h _ rfl
          exact (mapping_inside_iff r hsize).mp hin
        · rintro h m ⟨⟩
          exact ⟨r, rfl, (mapping_inside_iff r hsize).mpr (h r rfl hlen hstart rfl)⟩

/-- A card with 64 KiB of registers. -/
def card64k : RegSpace := ⟨0, 0x10000, fun _ => 0⟩

/-- Its resources. -/
def pci64k : ℕ → PciResource := fun _ => ⟨0xF0000000, 0x10000⟩

/-- The last register. -/
theorem access_inside_iff_last :
    (UserAccess.getregister ⟨⟨0xFFFC, 0, 0xFFFFFFFF⟩, 0⟩).Inside card64k pci64k true := by
  refine (access_inside_iff (c := card64k) rfl _).mpr (.inl ?_)
  show 0xFFFC + 4 ≤ 0x10000
  decide

/-- A register at the length itself is read behind the register space, and two
more pages than the card has are mapped. -/
theorem access_outside :
    ¬ (UserAccess.getregister ⟨⟨0x10000, 0, 0xFFFFFFFF⟩, 0⟩).Inside card64k pci64k true ∧
      ¬ (UserAccess.mmap ⟨0x40000000, 0x40012000, 0, by decide⟩).Inside card64k pci64k true := by
  constructor
  · intro h
    have hread :
        RegAccess.ioread32 0x10000 ∈
        (ajaIoctlGetregister card64k ⟨⟨0x10000, 0, 0xFFFFFFFF⟩, 0⟩).2.2 := by
      decide +kernel
    exact absurd (h _ hread).2 (by decide)
  · intro h
    obtain ⟨r, hr, hin⟩ := h ⟨0xF0000, 0x12000⟩ rfl
    obtain rfl : (⟨0xF0000000, 0x10000⟩ : PciResource) = r := Option.some.inj hr
    have hcovers : (Mapping.mk 0xF0000 0x12000).Covers 0xF0010000 := by
      unfold Mapping.Covers pageAlign pageSize
      decide
    exact absurd (hin _ hcovers).2 (by decide)

end AjaDriver
