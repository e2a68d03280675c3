/-
# The bytes a transfer moves

A descriptor moves whole words, so a transfer moves the bytes asked for
exactly when every block it is given is a whole number of words and no run of
merged blocks is too long for the count (`dma_moves_iff`). The descriptors are
one for each run (`cardsg_describes`): the blocks of a run are adjacent on the
bus, and what follows a run starts a descriptor of its own.
-/
import AjaDriver.Dma
import Mathlib.Algebra.Order.BigOperators.Group.List

namespace AjaDriver

open Word Segments

/-! ### What the card does with a descriptor -/

namespace SgList

/-- The words to move: the count without its flags, bits 31 and 28. -/
def words (d : SgList) : ℕ := (d.count.setWidth 28).toNat

/-- Bit 31 of the count says the direction. -/
def toHost (d : SgList) : Bool := d.count.getLsbD 31

/-- The width of the host address: bit 28 of the count says if it has 64 bits. -/
def width (d : SgList) : ℕ := if d.count.getLsbD 28 then 64 else 32

/-- The host address, of which a narrow transfer leaves out the upper word. -/
def host (d : SgList) : ℕ := d.hadd_high.toNat * 2 ^ 32 + d.hadd.toNat

/-- The bytes moved: the direction, the address on the bus and on the card. -/
def moves (d : SgList) : List (Bool × ℕ × ℕ) :=
  (List.range (4 * d.words)).map fun j =>
    (d.toHost, (d.host + j) % 2 ^ d.width, (d.cadd.toNat + j) % 2 ^ 32)

end SgList

/-- The bytes moved by a list of descriptors. -/
def moves (l : List SgList) : List (Bool × ℕ × ℕ) := l.flatMap SgList.moves

/-- The bytes at the bus addresses `B`, moved to or from the card addresses
from `o` on. -/
def placed (toHost : Bool) (o : ℕ) (B : List ℕ) : List (Bool × ℕ × ℕ) :=
  B.mapIdx fun i a => (toHost, a, (o + i) % 2 ^ 32)

theorem placed_append (toHost : Bool) (o : ℕ) (A B : List ℕ) :
    placed toHost o (A ++ B) = placed toHost o A ++ placed toHost (o + A.length) B := by
  unfold placed
  rw [List.mapIdx_append]
  congr 2
  funext i a
  rw [Nat.add_assoc, Nat.add_comm A.length]

theorem placed_range (toHost : Bool) (o n : ℕ) (f : ℕ → ℕ) :
    placed toHost o ((List.range n).map f) = (List.range n).map fun j =>
      (toHost, f j, (o + j) % 2 ^ 32) := by
  apply List.ext_getElem (by simp [placed])
  intro j h1 h2
  simp [placed]

/-! ### Runs -/

/-- Blocks merged into one descriptor: the bus address of the first, and the
length of each. -/
structure Run where
  addr : ℕ
  lens : List ℕ

namespace Run

def len (r : Run) : ℕ := r.lens.sum

/-- The words of a run, counted block by block. -/
def words (r : Run) : ℕ := (r.lens.map (· / 4)).sum

/-- The bus addresses of a run's bytes, of `w` bits. -/
def bytes (w : ℕ) (r : Run) : List ℕ := (List.range r.len).map fun j => (r.addr + j) % 2 ^ w

theorem length_bytes (w : ℕ) (r : Run) : (r.bytes w).length = r.len := by simp [bytes]

/-- Words never count more bytes than there are, and count them all when every
block is a whole number of words. -/
theorem words_le (r : Run) : 4 * r.words ≤ r.len ∧ (4 * r.words = r.len ↔ ∀ n ∈ r.lens, 4 ∣ n) := by
  unfold words len
  induction r.lens with
  | nil => simp
  | cons n l ih =>
    rw [List.map_cons, List.sum_cons, List.sum_cons]
    have hn := Nat.div_mul_le_self n 4
    obtain ⟨hle, hiff⟩ := ih
    refine ⟨by omega, ⟨fun h => ?_, fun h => ?_⟩⟩
    · refine List.forall_mem_cons.mpr ⟨by omega, hiff.mp (by omega)⟩
    · have := hiff.mpr fun m hm => h m (List.mem_cons_of_mem _ hm)
      have := h n (List.mem_cons_self ..)
      omega

end Run

/-- The runs of a scatterlist that begins with the blocks of `r`. -/
def runsFrom (merge : Bool) (r : Run) : List Seg → List Run
  | [] => [r]
  | b :: l =>
    if merge = true ∧ ulong r.len < maxDmaSize ∧ ulong (r.addr + r.len) = b.addr then
      runsFrom merge ⟨r.addr, r.lens ++ [b.len]⟩ l
    else r :: runsFrom merge ⟨b.addr, [b.len]⟩ l

/-- The runs of a scatterlist: a block adjacent to the one before it joins its
run, unless that is long enough already. -/
def runs (merge : Bool) : List Seg → List Run
  | [] => []
  | b :: l => runsFrom merge ⟨b.addr, [b.len]⟩ l

theorem lens_runsFrom (merge : Bool) : ∀ (l : List Seg) (r : Run),
    (runsFrom merge r l).flatMap Run.lens = r.lens ++ l.map Seg.len
  | [], r => by simp [runsFrom]
  | b :: l, r => by
    unfold runsFrom
    split_ifs
    · rw [lens_runsFrom merge l]
      simp
    · rw [List.flatMap_cons, lens_runsFrom merge l]
      simp

/-- The runs have the blocks of the scatterlist. -/
theorem lens_runs (merge : Bool) (l : List Seg) :
    (runs merge l).flatMap Run.lens = l.map Seg.len := by
  cases l with
  | nil => rfl
  | cons b l => exact lens_runsFrom merge l _

theorem sum_len_runs (merge : Bool) (l : List Seg) : ((runs merge l).map Run.len).sum = total l :=
  calc ((runs merge l).map Run.len).sum
    _ = ((runs merge l).flatMap Run.lens).sum := by
      rw [List.flatMap_def, List.sum_flatten, List.map_map]; rfl
    _ = total l := by rw [lens_runs]; rfl

theorem bytes_singleton (w : ℕ) (b : Seg) :
    Run.bytes w ⟨b.addr, [b.len]⟩ = b.bytes.map (· % 2 ^ w) := by
  unfold Run.bytes Run.len Seg.bytes
  rw [List.sum_singleton, List.map_map]
  rfl

/-- A block that joins a run goes on where the run stops. -/
theorem bytes_join_run {w : ℕ} (hw : w ≤ 64) {r : Run} {b : Seg}
    (h : ulong (r.addr + r.len) = b.addr) :
    Run.bytes w ⟨r.addr, r.lens ++ [b.len]⟩ = r.bytes w ++ b.bytes.map (· % 2 ^ w) := by
  have hlen : Run.len ⟨r.addr, r.lens ++ [b.len]⟩ = r.len + b.len := by simp [Run.len]
  unfold Run.bytes
  rw [hlen, map_range_add]
  congr 1
  unfold Seg.bytes
  rw [List.map_map]
  apply List.map_congr_left
  intro j _
  have hdvd : 2 ^ w ∣ 2 ^ 64 := Nat.pow_dvd_pow 2 hw
  show (r.addr + (r.len + j)) % 2 ^ w = (b.addr + j) % 2 ^ w
  rw [← h, ← Nat.add_assoc, Nat.add_mod, ← Nat.mod_mod_of_dvd (r.addr + r.len) hdvd, ← Nat.add_mod]
  rfl

theorem bytes_runsFrom {w : ℕ} (hw : w ≤ 64) (merge : Bool) : ∀ (l : List Seg) (r : Run),
    (runsFrom merge r l).flatMap (Run.bytes w) = r.bytes w ++ (Segments.bytes l).map (· % 2 ^ w)
  | [], r => by simp [runsFrom]
  | b :: l, r => by
    rw [bytes_cons, List.map_append]
    unfold runsFrom
    split_ifs with h
    · rw [bytes_runsFrom hw merge l, bytes_join_run hw h.2.2, List.append_assoc]
    · rw [List.flatMap_cons, bytes_runsFrom hw merge l, bytes_singleton]

/-- The runs have the bytes of the scatterlist, in order. -/
theorem bytes_runs {w : ℕ} (hw : w ≤ 64) (merge : Bool) (l : List Seg) :
    (runs merge l).flatMap (Run.bytes w) = (Segments.bytes l).map (· % 2 ^ w) := by
  cases l with
  | nil => rfl
  | cons b l =>
    rw [show runs merge (b :: l) = runsFrom merge ⟨b.addr, [b.len]⟩ l from rfl, bytes_runsFrom hw,
      bytes_singleton, bytes_cons, List.map_append]

/-! ### Descriptors -/

/-- The flags of a count are none of its lower bits. -/
theorem tcmOf_low (dir : PciDir) (dma64 : Bool) : (tcmOf dir dma64).setWidth 28 = 0 := by
  cases dir <;> cases dma64 <;> decide

theorem tcmOf_bits (dir : PciDir) (dma64 : Bool) :
    (tcmOf dir dma64).getLsbD 31 = decide (dir = .fromDevice) ∧
      (tcmOf dir dma64).getLsbD 28 = dma64 := by
  cases dir <;> cases dma64 <;> decide

/-- A count below the flags is apart from them. -/
theorem tcmOf_and (dir : PciDir) (dma64 : Bool) {n : ℕ} (hn : n < 2 ^ 28) :
    tcmOf dir dma64 &&& BitVec.ofNat 32 n = 0 := by
  apply BitVec.eq_of_getLsbD_eq
  intro i hi
  rw [BitVec.getLsbD_and, BitVec.getLsbD_ofNat]
  by_cases h28 : i < 28
  · have hlow : ((tcmOf dir dma64).setWidth 28).getLsbD i = false := by rw [tcmOf_low]; simp
    rw [BitVec.getLsbD_setWidth, decide_eq_true h28, Bool.true_and] at hlow
    simp [hlow]
  · have hbit : n.testBit i = false :=
      Nat.testBit_lt_two_pow (hn.trans_le (Nat.pow_le_pow_right (by decide) (by omega)))
    simp [hbit]

/-- A descriptor of a run at card address `o`. -/
structure Describes (tcm : BitVec 32) (o : ℕ) (d : SgList) (r : Run) : Prop where
  hadd : d.hadd = BitVec.ofNat 32 r.addr
  hadd_high : d.hadd_high = BitVec.ofNat 32 (r.addr >>> 32)
  cadd : d.cadd = BitVec.ofNat 32 o
  low : d.count.setWidth 28 = BitVec.ofNat 28 r.words
  flags : r.words < 2 ^ 28 → d.count = tcm + BitVec.ofNat 32 r.words

/-- The descriptors of a list of runs, the first at card address `o`. -/
def DescribesAll (tcm : BitVec 32) : ℕ → List SgList → List Run → Prop
  | _, [], [] => True
  | o, d :: ds, r :: rs => Describes tcm o d r ∧ DescribesAll tcm (o + r.len) ds rs
  | _, _, _ => False

theorem Describes.next {tcm : BitVec 32} {o : ℕ} {d : SgList} {r : Run} (h : Describes tcm o d r)
    (a b : BitVec 32) :
    Describes tcm o { d with next := a, next_high := b } r :=
  ⟨h.hadd, h.hadd_high, h.cadd, h.low, h.flags⟩

/-- The loop is filling a descriptor of the run `r` at card address `o`. -/
structure Fills (tcm : BitVec 32) (o : ℕ) (s : CardSg) (d : SgList) (r : Run) : Prop where
  plist : s.plist = some d
  describes : Describes tcm o d r
  paddr : s.paddr = ulong (r.addr + r.len)
  tsize : s.tsize = ulong r.len
  cardoff : s.cardoff = BitVec.ofNat 32 (o + r.len)

/-- A block that starts a descriptor. -/
theorem fills_new (dir : PciDir) (dma64 : Bool) {s : CardSg} {o : ℕ}
    (ho : s.cardoff = BitVec.ofNat 32 o) (b : Seg) :
    ∃ d, Fills (tcmOf dir dma64) o (cardsgNew (tcmOf dir dma64) s b) d ⟨b.addr, [b.len]⟩ := by
  have hwords : Run.words ⟨b.addr, [b.len]⟩ = b.len / 4 := List.sum_singleton ..
  have hlen : Run.len ⟨b.addr, [b.len]⟩ = b.len := List.sum_singleton ..
  refine ⟨_, rfl, ⟨rfl, rfl, ho, ?_, fun hlt => ?_⟩, ?_, ?_, ?_⟩
  · rw [hwords]
    show (BitVec.ofNat 32 (b.len / 4) ||| tcmOf dir dma64).setWidth 28 = _
    rw [BitVec.setWidth_or, tcmOf_low, BitVec.setWidth_ofNat_of_le (by decide)]
    exact BitVec.or_zero
  · rw [hwords] at hlt ⊢
    show BitVec.ofNat 32 (b.len / 4) ||| tcmOf dir dma64 = _
    rw [BitVec.add_eq_or_of_and_eq_zero _ _ (tcmOf_and dir dma64 hlt), BitVec.or_comm]
  · rw [hlen]
    rfl
  · rw [hlen]
    rfl
  · rw [hlen, BitVec.ofNat_add, ← ho]
    rfl

/-- A block merged into the descriptor before it. -/
theorem Fills.merge {tcm : BitVec 32} {o : ℕ} {s : CardSg} {d : SgList} {r : Run}
    (h : Fills tcm o s d r) (b : Seg) :
    ∃ d', Fills tcm o (cardsgMerge s d b) d' ⟨r.addr, r.lens ++ [b.len]⟩ := by
  have hwords : Run.words ⟨r.addr, r.lens ++ [b.len]⟩ = r.words + b.len / 4 := by simp [Run.words]
  have hlen : Run.len ⟨r.addr, r.lens ++ [b.len]⟩ = r.len + b.len := by simp [Run.len]
  have hd := h.describes
  refine ⟨_, rfl, ⟨hd.hadd, hd.hadd_high, hd.cadd, ?_, fun hlt => ?_⟩, ?_, ?_, ?_⟩
  · rw [hwords]
    show (d.count + BitVec.ofNat 32 (b.len / 4)).setWidth 28 = _
    rw [BitVec.setWidth_add _ _ (by decide), hd.low, BitVec.setWidth_ofNat_of_le (by decide),
      BitVec.ofNat_add]
  · rw [hwords] at hlt ⊢
    show d.count + BitVec.ofNat 32 (b.len / 4) = _
    rw [hd.flags (by omega), BitVec.add_assoc, BitVec.ofNat_add]
  · rw [hlen]
    show ulong (s.paddr + b.len) = _
    rw [h.paddr, ← Nat.add_assoc]
    exact Nat.mod_add_mod ..
  · rw [hlen]
    show ulong (s.tsize + b.len) = _
    rw [h.tsize]
    exact Nat.mod_add_mod ..
  · rw [hlen, ← Nat.add_assoc, BitVec.ofNat_add, ← h.cardoff]
    rfl

/-- The rest of the loop fills the descriptors of the rest of the runs. -/
theorem cardsg_loop {dir : PciDir} {dma64 : Bool} (merge : Bool) :
    ∀ (l : List Seg) {s : CardSg} {o : ℕ} {d : SgList}
    {r : Run}, Fills (tcmOf dir dma64) o s d r →
    ∃ ds d', (l.foldl (cardsgStep merge (tcmOf dir dma64)) s).done = s.done ++ ds ∧
      (l.foldl (cardsgStep merge (tcmOf dir dma64)) s).plist = some d' ∧
      DescribesAll (tcmOf dir dma64) o (ds ++ [d']) (runsFrom merge r l)
  | [], s, o, d, r, h => ⟨[], d, (List.append_nil _).symm, h.plist, h.describes, trivial⟩
  | b :: l, s, o, d, r, h => by
    have hstep : cardsgStep merge (tcmOf dir dma64) s b =
        if merge = true ∧ ulong r.len < maxDmaSize ∧ ulong (r.addr + r.len) = b.addr
          then cardsgMerge s d b
        else cardsgNew (tcmOf dir dma64) s b := by
      unfold cardsgStep
      rw [h.plist, h.paddr, h.tsize]
    rw [List.foldl_cons, hstep]
    unfold runsFrom
    split_ifs with hjoin
    · obtain ⟨d', hd'⟩ := h.merge b
      exact cardsg_loop merge l hd'
    · obtain ⟨d', hd'⟩ := fills_new dir dma64 h.cardoff b
      obtain ⟨ds, e, hdone, hplist, hall⟩ := cardsg_loop merge l hd'
      refine ⟨d :: ds, e, ?_, hplist, h.describes, hall⟩
      rw [hdone]
      show s.done ++ s.plist.toList ++ ds = _
      rw [h.plist]
      simp

theorem describesAll_last {tcm : BitVec 32} {d d' : SgList}
    (h : ∀ o r, Describes tcm o d r → Describes tcm o d' r) :
    ∀ {o : ℕ} {ds : List SgList} {rs : List Run}, DescribesAll tcm o (ds ++ [d]) rs →
      DescribesAll tcm o (ds ++ [d']) rs
  | _, [], [], hall => absurd hall id
  | o, [], r :: _, hall => ⟨h o r hall.1, hall.2⟩
  | _, _ :: _, [], hall => absurd hall id
  | _, _ :: _, _ :: _, hall => ⟨hall.1, describesAll_last h hall.2⟩

theorem cardsgEnd_some {s : CardSg} {plist : SgList} (h : s.plist = some plist) :
    cardsgEnd s = s.done ++ [{ plist with next := 0, next_high := 0 }] := by
  unfold cardsgEnd
  rw [h]

/-- The card's list has one descriptor for each run. -/
theorem cardsg_describes (M : ModParams) (dir : PciDir) (cardoff : BitVec 32) (dma64 : Bool)
    (list_pac : ℕ) (sgl : List Seg) :
    DescribesAll (tcmOf dir dma64) cardoff.toNat (dmaCardsg M dir cardoff dma64 list_pac sgl)
    (runs M.dma_merge sgl) := by
  cases sgl with
  | nil => exact trivial
  | cons b l =>
    have ho : cardoff = BitVec.ofNat 32 cardoff.toNat := by simp
    obtain ⟨d, hd⟩ := fills_new dir dma64 (s := ⟨0, 0, cardoff, list_pac, [], none⟩) ho b
    obtain ⟨ds, d', hdone, hplist, hall⟩ := cardsg_loop M.dma_merge l hd
    have hlist : dmaCardsg M dir cardoff dma64 list_pac (b :: l) = ds ++
        [{ d' with next := 0, next_high := 0 }] := by
      unfold dmaCardsg
      exact (cardsgEnd_some hplist).trans (congrArg (· ++ _) hdone)
    rw [hlist]
    exact describesAll_last (fun o r h => h.next 0 0) hall

/-! ### The chain of descriptors -/

/-- The descriptor points to the place behind place `j` of the list. -/
def SgList.LinksOn (d : SgList) (list_pac j : ℕ) : Prop :=
  d.next = BitVec.ofNat 32 (list_pac + sglistSize * (j + 1)) ∧
    d.next_high = BitVec.ofNat 32 ((list_pac + sglistSize * (j + 1)) >>> 32)

/-- Every descriptor filled so far points to the place behind its own, and
`next` is the place behind them all. -/
structure CardSg.Linked (list_pac : ℕ) (s : CardSg) (l : List SgList) : Prop where
  list : s.done ++ s.plist.toList = l
  next : s.next = list_pac + sglistSize * l.length
  links : ∀ (j : ℕ) (d : SgList), l[j]? = some d → d.LinksOn list_pac j
  start : s.plist = none → s.done = []

namespace CardSg.Linked

/-- A list longer by one. -/
theorem snoc {list_pac : ℕ} {l : List SgList}
    (h : ∀ (j : ℕ) (d : SgList), l[j]? = some d → d.LinksOn list_pac j) {e : SgList}
    (he : e.LinksOn list_pac l.length) :
    ∀ (j : ℕ) (d : SgList), (l ++ [e])[j]? = some d → d.LinksOn list_pac j := by
  intro j d hj
  by_cases hlt : j < l.length
  · rw [List.getElem?_append_left hlt] at hj
    exact h j d hj
  · have hlen := (List.getElem?_eq_some_iff.mp hj).1
    rw [List.length_append, List.length_singleton] at hlen
    obtain rfl : j = l.length := by omega
    obtain rfl : e = d := by simpa using hj
    exact he

theorem step {list_pac : ℕ} {s : CardSg} {l : List SgList} (h : s.Linked list_pac l)
    (merge : Bool) (tcm : BitVec 32) (b : Seg) :
    ∃ m, (cardsgStep merge tcm s b).Linked list_pac m := by
  have hnew : (cardsgNew tcm s b).Linked list_pac (l ++ [cardsgFill tcm s b]) := by
    have hnext : s.next + sglistSize = list_pac + sglistSize * (l.length + 1) := by
      rw [h.next, Nat.mul_succ, Nat.add_assoc]
    refine ⟨congrArg (· ++ [cardsgFill tcm s b]) h.list, ?_, snoc h.links ⟨?_, ?_⟩,
      fun he => by cases he⟩
    · rw [List.length_append, List.length_singleton]
      exact hnext
    · rw [← hnext]
      rfl
    · rw [← hnext]
      rfl
  unfold cardsgStep
  split
  · exact ⟨_, hnew⟩
  · next plist hplist =>
    split_ifs
    · -- the count of the last descriptor grows
      have hlist := h.list
      rw [hplist, Option.toList_some] at hlist
      have hlen := congrArg List.length hlist
      rw [List.length_append, List.length_singleton] at hlen
      have hinit : ∀ (j : ℕ) (d : SgList), s.done[j]? = some d → d.LinksOn list_pac j :=
        fun j d hj => by
        apply h.links j d
        rw [← hlist, List.getElem?_append_left (List.getElem?_eq_some_iff.mp hj).1]
        exact hj
      have hlast : plist.LinksOn list_pac s.done.length := h.links _ _ (by rw [← hlist]; simp)
      refine ⟨s.done ++ [{ plist with count := plist.count + BitVec.ofNat 32 (b.len / 4) }],
        rfl, ?_, snoc hinit hlast,
        fun he => by cases he⟩
      rw [List.length_append, List.length_singleton, hlen]
      exact h.next
    · exact ⟨_, hnew⟩

theorem foldl {list_pac : ℕ} (merge : Bool) (tcm : BitVec 32) :
    ∀ (sgl : List Seg) {s : CardSg} {l : List SgList},
    s.Linked list_pac l → ∃ m, (sgl.foldl (cardsgStep merge tcm) s).Linked list_pac m
  | [], _, l, h => ⟨l, h⟩
  | b :: sgl, _, _, h => by
    obtain ⟨m, hm⟩ := h.step merge tcm b
    exact foldl merge tcm sgl hm

/-- The list handed to the card ends with the last descriptor. -/
theorem ends {list_pac : ℕ} {s : CardSg} {l : List SgList} (h : s.Linked list_pac l) {j : ℕ}
    {d : SgList} (hd : (cardsgEnd s)[j]? = some d) :
    (j + 1 < (cardsgEnd s).length → d.LinksOn list_pac j) ∧
      ((cardsgEnd s).length ≤ j + 1 → d.next = 0 ∧ d.next_high = 0) := by
  rcases hp : s.plist with _ | plist
  · simp [cardsgEnd, hp, h.start hp] at hd
  · rw [cardsgEnd_some hp] at hd ⊢
    have hlist := h.list
    rw [hp, Option.toList_some] at hlist
    rw [List.length_append, List.length_singleton]
    constructor
    · intro hj
      rw [List.getElem?_append_left (by omega)] at hd
      apply h.links j d
      rw [← hlist, List.getElem?_append_left (by omega)]
      exact hd
    · intro hj
      have hlen := (List.getElem?_eq_some_iff.mp hd).1
      rw [List.length_append, List.length_singleton] at hlen
      obtain rfl : j = s.done.length := by omega
      obtain rfl : { plist with next := 0, next_high := 0 } = d := by simpa using hd
      exact ⟨rfl, rfl⟩

end CardSg.Linked

/-- Every descriptor points to the next one, and the last one to none. -/
theorem cardsg_linked (M : ModParams) (dir : PciDir) (cardoff : BitVec 32) (dma64 : Bool)
    (list_pac : ℕ) (sgl : List Seg) {j : ℕ} {d : SgList}
    (h : (dmaCardsg M dir cardoff dma64 list_pac sgl)[j]? = some d) :
    (j + 1 < (dmaCardsg M dir cardoff dma64 list_pac sgl).length → d.LinksOn list_pac j) ∧
      ((dmaCardsg M dir cardoff dma64 list_pac sgl).length ≤ j + 1 →
        d.next = 0 ∧ d.next_high = 0) := by
  have hstart : CardSg.Linked list_pac ⟨0, 0, cardoff, list_pac, [], none⟩ [] :=
    ⟨rfl, rfl, fun j d hj => by simp at hj, fun _ => rfl⟩
  obtain ⟨m, hm⟩ := hstart.foldl M.dma_merge (tcmOf dir dma64) sgl
  exact hm.ends h

/-! ### What the descriptors move -/

/-- The width of the addresses a card is given. -/
def busWidth (dma64 : Bool) : ℕ := if dma64 then 64 else 32

/-- A run all of whose bytes its descriptor counts. -/
def Run.Whole (r : Run) : Prop := 4 * r.words = r.len ∧ r.words < 2 ^ 28

theorem Run.whole_iff (r : Run) : r.Whole ↔ (∀ n ∈ r.lens, 4 ∣ n) ∧ r.len < 2 ^ 30 := by
  rw [← r.words_le.2]
  unfold Run.Whole
  refine and_congr_right fun h => ?_
  omega

/-- The runs are whole when the blocks are whole words and no run is too long
for a count. -/
theorem runs_whole_iff (merge : Bool) (l : List Seg) :
    (∀ r ∈ runs merge l, r.Whole) ↔ (∀ b ∈ l, 4 ∣ b.len) ∧ ∀ r ∈ runs merge l, r.len < 2 ^ 30 := by
  have hlens : (∀ r ∈ runs merge l, ∀ n ∈ r.lens, 4 ∣ n) ↔ ∀ b ∈ l, 4 ∣ b.len := by
    calc (∀ r ∈ runs merge l, ∀ n ∈ r.lens, 4 ∣ n)
      _ ↔ ∀ n ∈ (runs merge l).flatMap Run.lens, 4 ∣ n := List.forall_mem_flatMap.symm
      _ ↔ ∀ b ∈ l, 4 ∣ b.len := by rw [lens_runs, List.forall_mem_map]
  rw [← hlens, ← forall₂_and]
  exact forall₂_congr fun r _ => r.whole_iff

theorem Describes.words {tcm : BitVec 32} {o : ℕ} {d : SgList} {r : Run} (h : Describes tcm o d r) :
    d.words = r.words % 2 ^ 28 := by
  unfold SgList.words
  rw [h.low, BitVec.toNat_ofNat]

/-- The bits of a count above its words are the flags. -/
theorem Describes.flag_bit {dir : PciDir} {dma64 : Bool} {o : ℕ} {d : SgList} {r : Run}
    (h : Describes (tcmOf dir dma64) o d r) (hlt : r.words < 2 ^ 28) {i : ℕ} (hi : 28 ≤ i) :
    d.count.getLsbD i = (tcmOf dir dma64).getLsbD i := by
  have hno : r.words.testBit i = false :=
    Nat.testBit_lt_two_pow (hlt.trans_le (Nat.pow_le_pow_right (by decide) hi))
  rw [h.flags hlt, BitVec.add_eq_or_of_and_eq_zero _ _ (tcmOf_and dir dma64 hlt), BitVec.getLsbD_or,
    BitVec.getLsbD_ofNat, hno]
  simp

/-- Bits 31 and 28 are the direction and the width. -/
theorem Describes.bits {dir : PciDir} {dma64 : Bool} {o : ℕ} {d : SgList} {r : Run}
    (h : Describes (tcmOf dir dma64) o d r) (hlt : r.words < 2 ^ 28) :
    d.count.getLsbD 31 = decide (dir = .fromDevice) ∧ d.count.getLsbD 28 = dma64 :=
  ⟨(h.flag_bit hlt (by decide)).trans (tcmOf_bits dir dma64).1,
    (h.flag_bit hlt le_rfl).trans (tcmOf_bits dir dma64).2⟩

/-- The descriptor of a whole run moves the run's bytes. -/
theorem Describes.moves {dir : PciDir} {dma64 : Bool} {o : ℕ} {d : SgList} {r : Run}
    (h : Describes (tcmOf dir dma64) o d r) (hr : r.Whole) :
    d.moves = placed (decide (dir = .fromDevice)) o (r.bytes (busWidth dma64)) := by
  obtain ⟨hlen, hlt⟩ := hr
  have hwords : d.words = r.words := by rw [h.words, Nat.mod_eq_of_lt hlt]
  obtain ⟨hdir, h28⟩ := h.bits hlt
  have hwidth : d.width = busWidth dma64 := by
    unfold SgList.width busWidth
    rw [h28]
  have hhost : d.host = r.addr % 2 ^ 64 := by
    unfold SgList.host
    rw [h.hadd, h.hadd_high, BitVec.toNat_ofNat, BitVec.toNat_ofNat, Nat.shiftRight_eq_div_pow]
    omega
  have hdvd : 2 ^ busWidth dma64 ∣ 2 ^ 64 :=
    Nat.pow_dvd_pow 2 (by unfold busWidth; split_ifs <;> decide)
  unfold SgList.moves Run.bytes
  rw [placed_range, hwords, hlen, show d.toHost = _ from hdir, hwidth, hhost, h.cadd,
    BitVec.toNat_ofNat]
  apply List.map_congr_left
  intro j _
  rw [Nat.mod_add_mod, Nat.add_mod, Nat.mod_mod_of_dvd _ hdvd, ← Nat.add_mod]

theorem describesAll_moves {dir : PciDir} {dma64 : Bool} :
    ∀ {o : ℕ} {ds : List SgList} {rs : List Run},
    DescribesAll (tcmOf dir dma64) o ds rs → (∀ r ∈ rs, r.Whole) →
    moves ds = placed (decide (dir = .fromDevice)) o (rs.flatMap (Run.bytes (busWidth dma64)))
  | _, [], [], _, _ => rfl
  | o, d :: ds, r :: rs, h, hr => by
    have hd := h.1.moves (hr r (List.mem_cons_self ..))
    have hds := describesAll_moves h.2 fun r' hr' => hr r' (List.mem_cons_of_mem _ hr')
    rw [List.flatMap_cons, placed_append, Run.length_bytes, ← hd, ← hds]
    rfl

/-- The words the descriptors count are those of the runs, within 28 bits. -/
theorem describesAll_words {tcm : BitVec 32} :
    ∀ {o : ℕ} {ds : List SgList} {rs : List Run}, DescribesAll tcm o ds rs →
    ds.map SgList.words = rs.map fun r => r.words % 2 ^ 28
  | _, [], [], _ => rfl
  | o, d :: ds, r :: rs, h =>
    by rw [List.map_cons, List.map_cons, h.1.words, describesAll_words h.2]

/-- How many bytes the descriptors move. -/
theorem describesAll_length {tcm : BitVec 32} {o : ℕ} {ds : List SgList} {rs : List Run}
    (h : DescribesAll tcm o ds rs) :
    (moves ds).length = (rs.map fun r => 4 * (r.words % 2 ^ 28)).sum :=
  calc (moves ds).length
    _ = (ds.map fun d => 4 * d.words).sum := by
      unfold moves
      rw [List.length_flatMap]
      exact congrArg List.sum (List.map_congr_left fun d _ => by simp [SgList.moves])
    _ = ((ds.map SgList.words).map (4 * ·)).sum := by rw [List.map_map]; rfl
    _ = (rs.map fun r => 4 * (r.words % 2 ^ 28)).sum := by
      rw [describesAll_words h, List.map_map]; rfl

theorem length_runsFrom_le (merge : Bool) :
    ∀ (l : List Seg) (r : Run), (runsFrom merge r l).length ≤ l.length + 1
  | [], _ => le_rfl
  | b :: l, r => by
    unfold runsFrom
    split_ifs
    · exact (length_runsFrom_le merge l _).trans (Nat.le_succ _)
    · exact Nat.succ_le_succ (length_runsFrom_le merge l _)

theorem describesAll_length_eq {tcm : BitVec 32} {o : ℕ} {ds : List SgList} {rs : List Run}
    (h : DescribesAll tcm o ds rs) :
    ds.length = rs.length := by
  have hwords := congrArg List.length (describesAll_words h)
  rwa [List.length_map, List.length_map] at hwords

/-- There are no more descriptors than segments. -/
theorem cardsg_length_le (M : ModParams) (dir : PciDir) (cardoff : BitVec 32) (dma64 : Bool)
    (list_pac : ℕ) (sgl : List Seg) :
    (dmaCardsg M dir cardoff dma64 list_pac sgl).length ≤ sgl.length := by
  rw [describesAll_length_eq (cardsg_describes M dir cardoff dma64 list_pac sgl)]
  cases sgl with
  | nil => exact le_rfl
  | cons b l => exact length_runsFrom_le M.dma_merge l _

/-- Descriptors that move as many bytes as the runs have miss none of them. -/
theorem whole_of_sum :
    ∀ {rs : List Run}, (rs.map Run.len).sum ≤ (rs.map fun r => 4 * (r.words % 2 ^ 28)).sum →
    ∀ r ∈ rs, r.Whole := by
  have hle : ∀ r : Run, 4 * (r.words % 2 ^ 28) ≤ r.len := fun r => by
    have := r.words_le.1
    have := Nat.mod_le r.words (2 ^ 28)
    omega
  intro rs
  induction rs with
  | nil => simp
  | cons r rs ih =>
    intro h
    rw [List.map_cons, List.map_cons, List.sum_cons, List.sum_cons] at h
    have hr := hle r
    have hrs : (rs.map fun r => 4 * (r.words % 2 ^ 28)).sum ≤ (rs.map Run.len).sum :=
      List.sum_le_sum fun r _ => hle r
    refine List.forall_mem_cons.mpr ⟨?_, ih (by omega)⟩
    have hwords := r.words_le.1
    have hmod := Nat.mod_lt r.words (by decide : 0 < 2 ^ 28)
    unfold Run.Whole
    omega

/-! ### The request -/

/-- Where an entry of a scatterlist lies on the bus, when page `n` lies at `base n`. -/
def SgPage.onBus (base : ℕ → ℕ) (e : SgPage) : Seg := ⟨base e.page + e.off, e.len⟩

/-- What `pci_map_sg` does with a scatterlist: it keeps the entries in order
and joins at most adjacent ones, within the card's DMA mask. -/
structure Kernel.MapsSg (k : Kernel) (base : ℕ → ℕ) (dma64 : Bool) (sgl : List SgPage) : Prop where
  coalesces : Coalesces (sgl.map (SgPage.onBus base)) (k.mapSg sgl)
  mask : ∀ a ∈ bytes (k.mapSg sgl), a < 2 ^ busWidth dma64

namespace DmaInfo

/-- The pages of the user buffer. -/
def pageCount (info : DmaInfo) : ℕ :=
  (info.uadd.toNat + info.len.toNat - 1) / pageSize - info.uadd.toNat / pageSize + 1

/-- The scatterlist of the user buffer. -/
def sgl (info : DmaInfo) : List SgPage :=
  mapsgEntries (fun i => info.uadd.toNat / pageSize + i) info.uadd.toNat info.len.toNat
    info.pageCount

/-- The direction of the request. -/
def pciDir (info : DmaInfo) : PciDir := if info.dir = ajaDmatocard then .toDevice else .fromDevice

/-- The bytes asked for: byte `i` of the user buffer, to or from byte `i` from `cadd` on. -/
def moves (info : DmaInfo) (base : ℕ → ℕ) : List (Bool × ℕ × ℕ) :=
  (List.range info.len.toNat).map fun i =>
    (decide (info.pciDir = .fromDevice), loc pageSize base (info.uadd.toNat + i),
      (info.cadd.toNat + i) % 2 ^ 32)

theorem moves_eq (info : DmaInfo) (base : ℕ → ℕ) :
    info.moves base = placed (decide (info.pciDir = .fromDevice)) info.cadd.toNat
      ((List.range info.len.toNat).map fun i => loc pageSize base (info.uadd.toNat + i)) := by
  rw [placed_range]
  rfl

end DmaInfo

theorem mapsgLoop_onBus (base : ℕ → ℕ) (fpage : ℕ) : ∀ (n i size : ℕ),
    (mapsgLoop (fun i => fpage + i) n i size).map (SgPage.onBus base) =
      pagesFrom pageSize base n (fpage + i) size
  | 0, _, _ => rfl
  | n + 1, i, size => by
    unfold mapsgLoop pagesFrom
    simp only [List.map_cons]
    rw [mapsgLoop_onBus base fpage n (i + 1), Nat.add_assoc]
    rfl

/-- The entries of the scatterlist are the bytes of the user buffer, in order. -/
theorem DmaInfo.bytes_sgl (info : DmaInfo) (base : ℕ → ℕ) (hlen : 0 < info.len.toNat) :
    bytes (info.sgl.map (SgPage.onBus base)) =
      (List.range info.len.toNat).map fun i => loc pageSize base (info.uadd.toNat + i) := by
  have hpages : info.sgl.map (SgPage.onBus base) =
      pages pageSize base (info.pageCount - 1) info.uadd.toNat info.len.toNat := by
    unfold DmaInfo.sgl mapsgEntries pages
    simp only [List.map_cons]
    rw [mapsgLoop_onBus]
    rfl
  rw [hpages]
  apply bytes_pages (by decide) base
  unfold DmaInfo.pageCount pageSize
  omega

theorem dmaMapsg_ok {k : Kernel} {pages : ℕ → ℕ} {data size count : ℕ} {sgl : List Seg}
    (h : dmaMapsg k pages data size count = .ok sgl) :
    sgl = k.mapSg (mapsgEntries pages data size count) ∧ sgl ≠ [] := by
  unfold dmaMapsg at h
  simp only at h
  split_ifs at h with hlen
  obtain rfl := Except.ok.inj h
  exact ⟨rfl, fun hnil => hlen (by rw [hnil]; exact Nat.zero_lt_one)⟩

theorem dmaGetpages_ok {M : ModParams} {k : Kernel} {data : ℕ} {count : ℤ} {pages : ℕ → ℕ}
    (h : dmaGetpages M k data count = .ok pages) :
    count ≤ M.max_dmalist ∧ pages = fun i => data / pageSize + i := by
  unfold dmaGetpages at h
  simp only at h
  split_ifs at h with hmax herr
  exact ⟨not_lt.mp hmax, (Except.ok.inj h).symm⟩

/-- The count of pages, of a buffer that does not wrap. -/
theorem count_eq {data size : ℕ} (hdata : data < 2 ^ 64) (hsize : size < 2 ^ 32) (h8 : 8 ≤ size)
    (hwrap : ¬ ulong (data + size) < data) :
    wrap ((ulong (data + size + (2 ^ 64 - 1)) / pageSize : ℕ) - (data / pageSize : ℕ) + 1) =
      ((data + size - 1) / pageSize - data / pageSize + 1 : ℕ) := by
  have hlast : ulong (data + size + (2 ^ 64 - 1)) = data + size - 1 := by
    unfold ulong at hwrap ⊢
    omega
  rw [hlast]
  unfold pageSize
  rw [wrap_of_range (by omega) (by omega)]
  omega

/-- What an accepted request passed, and what it was given. -/
structure DmaInfo.Given (M : ModParams) (k : Kernel) (dma64 : Bool) (info : DmaInfo)
    (d : Dma) : Prop where
  nonnull : info.uadd ≠ 0
  len : 8 ≤ info.len.toNat
  nowrap : info.uadd.toNat + info.len.toNat < 2 ^ 64
  pages : (info.pageCount : ℤ) ≤ M.max_dmalist
  dir : d.dir = info.pciDir
  count : d.count = info.pageCount
  sgl : d.sgl = k.mapSg info.sgl
  sgl_ne : d.sgl ≠ []
  list : d.list = dmaCardsg M info.pciDir info.cadd dma64 k.list_pac (k.mapSg info.sgl)

theorem dmaInit_ok {M : ModParams} {k : Kernel} {dma64 : Bool} {info : DmaInfo} {d : Dma}
    (h : dmaInit M k dma64 info.dir info.uadd.toNat info.cadd info.len.toNat = .ok d) :
    info.Given M k dma64 d := by
  unfold dmaInit at h
  simp only at h
  have hdir :
      (if info.dir = ajaDmatocard then PciDir.toDevice else PciDir.fromDevice) = info.pciDir := rfl
  rw [hdir] at h
  split_ifs at h with hbuf hdata h8 hwrap
  have hnowrap : info.uadd.toNat + info.len.toNat < 2 ^ 64 := by
    have := info.uadd.isLt
    have := info.len.isLt
    unfold ulong at hwrap
    omega
  rw [count_eq info.uadd.isLt info.len.isLt (not_lt.mp h8) hwrap] at h
  rcases hpages : dmaGetpages M k info.uadd.toNat _ with err | pages
  · rw [hpages] at h
    simp at h
  · rw [hpages] at h
    simp only [Int.toNat_natCast] at h
    rcases hsgl : dmaMapsg k pages info.uadd.toNat info.len.toNat _ with err | sgl
    · rw [hsgl] at h
      simp at h
    · rw [hsgl] at h
      obtain rfl := Except.ok.inj h
      obtain ⟨hmax, rfl⟩ := dmaGetpages_ok hpages
      obtain ⟨rfl, hne⟩ := dmaMapsg_ok hsgl
      exact ⟨fun hnull => hdata (by rw [hnull]; rfl), not_lt.mp h8, hnowrap,
        hmax, rfl, rfl, rfl, hne, rfl⟩

/-- The blocks a request is given have the bytes of the user buffer, in order. -/
theorem Kernel.MapsSg.bytes_eq {k : Kernel} {base : ℕ → ℕ} {dma64 : Bool} {info : DmaInfo}
    (h : k.MapsSg base dma64 info.sgl) (hlen : 0 < info.len.toNat) :
    bytes (k.mapSg info.sgl) = (List.range info.len.toNat).map fun i =>
      loc pageSize base (info.uadd.toNat + i) :=
  h.coalesces.bytes_eq.trans (info.bytes_sgl base hlen)

theorem Kernel.MapsSg.total_eq {k : Kernel} {base : ℕ → ℕ} {dma64 : Bool} {info : DmaInfo}
    (h : k.MapsSg base dma64 info.sgl) (hlen : 0 < info.len.toNat) :
    total (k.mapSg info.sgl) = info.len.toNat := by
  rw [← length_bytes, h.bytes_eq hlen, List.length_map, List.length_range]

/-- A run is never longer than the buffer, and the descriptors of a card bound
the buffer: with up to 2^18 of them every run is short enough. -/
theorem runs_short {M : ModParams} {k : Kernel} {base : ℕ → ℕ} {dma64 : Bool} {info : DmaInfo}
    {d : Dma} (hmap : k.MapsSg base dma64 info.sgl) (hmax : M.max_dmalist < 2 ^ 18)
    (h : dmaInit M k dma64 info.dir info.uadd.toNat info.cadd info.len.toNat = .ok d) :
    ∀ r ∈ runs M.dma_merge (k.mapSg info.sgl), r.len < 2 ^ 30 := by
  intro r hr
  have h8 := (dmaInit_ok h).len
  have hcount := (dmaInit_ok h).pages
  have hpages : info.len.toNat ≤ info.pageCount * 4096 := by
    unfold DmaInfo.pageCount pageSize
    omega
  calc r.len
    _ ≤ ((runs M.dma_merge (k.mapSg info.sgl)).map Run.len).sum :=
      List.le_sum_of_mem (List.mem_map_of_mem hr)
    _ = info.len.toNat := by rw [sum_len_runs, hmap.total_eq (by omega)]
    _ < 2 ^ 30 := by omega

/-- An accepted request moves exactly the bytes asked for, each once, if and
only if every block it was given is a whole number of words and no run of
merged blocks has 2^30 bytes or more. -/
theorem dma_moves_iff {M : ModParams} {k : Kernel} {base : ℕ → ℕ} {dma64 : Bool} {info : DmaInfo}
    {d : Dma} (hmap : k.MapsSg base dma64 info.sgl)
    (h : dmaInit M k dma64 info.dir info.uadd.toNat info.cadd info.len.toNat = .ok d) :
    (moves d.list).Perm (info.moves base) ↔
      (∀ b ∈ k.mapSg info.sgl, 4 ∣ b.len) ∧
        ∀ r ∈ runs M.dma_merge (k.mapSg info.sgl), r.len < 2 ^ 30 := by
  have hlen := (dmaInit_ok h).len
  have hlist := (dmaInit_ok h).list
  have hbytes := hmap.bytes_eq (by omega)
  have htotal := hmap.total_eq (by omega)
  set sgl := k.mapSg info.sgl
  have hall :
    DescribesAll (tcmOf info.pciDir dma64) info.cadd.toNat d.list (runs M.dma_merge sgl) :=
    hlist ▸ cardsg_describes M info.pciDir info.cadd dma64 k.list_pac sgl
  rw [← runs_whole_iff]
  constructor
  · intro hperm
    -- as many bytes are moved as were asked for, and no run moves more than it has
    have hmoved : (moves d.list).length = info.len.toNat := by
      rw [hperm.length_eq]
      unfold DmaInfo.moves
      rw [List.length_map, List.length_range]
    rw [describesAll_length hall] at hmoved
    rw [← sum_len_runs M.dma_merge] at htotal
    exact whole_of_sum (by omega)
  · intro hwhole
    have hwidth : busWidth dma64 ≤ 64 := by unfold busWidth; split_ifs <;> decide
    have hbus : (bytes sgl).map (· % 2 ^ busWidth dma64) = bytes sgl :=
      (List.map_congr_left fun a ha => Nat.mod_eq_of_lt (hmap.mask a ha)).trans (List.map_id _)
    rw [describesAll_moves hall hwhole, bytes_runs hwidth, hbus, hbytes, ← info.moves_eq base]

/-- A kernel without an IOMMU, whose page `n` lies at `base n`. -/
def Kernel.direct (base : ℕ → ℕ) : Kernel where
  buffers := true
  getUserPages := id
  mapSg := List.map (SgPage.onBus base)
  list_pac := 0x2000
  reserved := fun _ => false

/-- A request from a buffer of `len` bytes that starts a page. -/
abbrev alignedRequest (len : BitVec 32) : DmaInfo := ⟨0, len, ajaDmatocard, 0x1000⟩

theorem mapsSg_direct {base : ℕ → ℕ} {len : BitVec 32} (h0 : 0 < len.toNat)
    (hbase : ∀ n ≤ len.toNat / pageSize + 1, base n + pageSize ≤ 2 ^ 32) :
    (Kernel.direct base).MapsSg base false (alignedRequest len).sgl := by
  refine ⟨Coalesces.refl _, fun a ha => ?_⟩
  have hbytes := (alignedRequest len).bytes_sgl base h0
  rw [show bytes ((Kernel.direct base).mapSg (alignedRequest len).sgl) = _ from hbytes] at ha
  obtain ⟨i, hi, rfl⟩ := List.mem_map.mp ha
  have hi' : i < len.toNat := List.mem_range.mp hi
  have hpage : (0x1000 + i) / pageSize ≤ len.toNat / pageSize + 1 := by
    unfold pageSize
    omega
  have hoff : (0x1000 + i) % pageSize < pageSize := Nat.mod_lt _ (by decide)
  have hfits := hbase _ hpage
  show loc pageSize base (0x1000 + i) < 2 ^ 32
  unfold loc
  omega

/-- A page and a half are moved from two pages that do not lie together. -/
theorem dma_moves_words :
    ∃ d, dmaInit {} (Kernel.direct (· * 0x2000)) false ajaDmatocard 0x1000 0 0x1800 = .ok d ∧
      d.list.length = 2 ∧ (moves d.list).Perm ((alignedRequest 0x1800).moves (· * 0x2000)) := by
  have hmap : (Kernel.direct (· * 0x2000)).MapsSg (· * 0x2000) false (alignedRequest 0x1800).sgl :=
    mapsSg_direct (by decide) (by decide)
  exact ⟨_,
    rfl, by decide +kernel, (dma_moves_iff (M := {}) hmap rfl).mpr ⟨by decide +kernel, by decide +kernel⟩⟩

/-- The ninth byte of a page is not moved. -/
theorem dma_drops_byte :
    ∃ d, dmaInit {} (Kernel.direct (· * pageSize)) false ajaDmatocard 0x1000 0 9 = .ok d ∧
      (Kernel.direct (· * pageSize)).MapsSg (· * pageSize) false (alignedRequest 9).sgl ∧
      ¬ (moves d.list).Perm ((alignedRequest 9).moves (· * pageSize)) := by
  refine ⟨_, rfl, mapsSg_direct (by decide) (by decide), fun h => ?_⟩
  exact absurd h.length_eq (by decide +kernel)

end AjaDriver
