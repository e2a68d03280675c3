/-
# Merged descriptors

What `dma_merge` does to a list of descriptors. The descriptors of a mapped
buffer are one chain that the card follows from the first to the last, and they
move the buffer's words to or from the card one behind the other, whether blocks
are merged or not (`merge_moves_words`). The length of a descriptor is bounded by
`MAX_DMA_SIZE` only before a block is merged, not after: a descriptor may be
longer (`dma_limit_iff`).
-/
import AjaDriver.Dma.Bytes
import AjaDriver.Lib.Links

namespace AjaDriver

open Segments

/-! ### The length of a run -/

/-- A run is short of `maxDmaSize` before its last block. -/
theorem runsFrom_len_le {B : ℕ} (hB : maxDmaSize + B < 2 ^ 64) (merge : Bool) :
    ∀ {l : List Seg} {r : Run},
    r.len ≤ maxDmaSize + B → (∀ b ∈ l, b.len ≤ B) → ∀ t ∈ runsFrom merge r l, t.len ≤ maxDmaSize + B
  | [], r, hr, _, t, ht => by
    rw [runsFrom, List.mem_singleton] at ht
    rwa [ht]
  | b :: l, r, hr, hl, t, ht => by
    have hb := hl b (List.mem_cons_self ..)
    have hl' : ∀ b ∈ l, b.len ≤ B := fun b hb => hl b (List.mem_cons_of_mem _ hb)
    have hnew : Run.len ⟨b.addr, [b.len]⟩ ≤ maxDmaSize + B := by
      show [b.len].sum ≤ _
      rw [List.sum_singleton]
      omega
    unfold runsFrom at ht
    split_ifs at ht with hjoin
    · refine runsFrom_len_le hB merge ?_ hl' t ht
      have hshort : r.len < maxDmaSize := by
        have hlen : ulong r.len = r.len := Nat.mod_eq_of_lt (by omega)
        rw [← hlen]
        exact hjoin.2.1
      have hjoined : Run.len ⟨r.addr, r.lens ++ [b.len]⟩ = r.len + b.len := by simp [Run.len]
      omega
    · rcases List.mem_cons.mp ht with rfl | ht
      · exact hr
      · exact runsFrom_len_le hB merge hnew hl' t ht

theorem runs_len_le {B : ℕ} (hB : maxDmaSize + B < 2 ^ 64) (merge : Bool) {sgl : List Seg}
    (h : ∀ b ∈ sgl, b.len ≤ B) :
    ∀ t ∈ runs merge sgl, t.len ≤ maxDmaSize + B := by
  cases sgl with
  | nil => simp [runs]
  | cons b l =>
    refine runsFrom_len_le hB merge ?_ fun b hb => h b (List.mem_cons_of_mem _ hb)
    have hb := h b (List.mem_cons_self ..)
    show [b.len].sum ≤ _
    rw [List.sum_singleton]
    omega

/-! ### The words moved -/

/-- The words moved by a descriptor: the direction, the address on the bus and
on the card. -/
def SgList.wordMoves (d : SgList) : List (Bool × ℕ × ℕ) :=
  (List.range d.words).map fun j =>
    (d.toHost, (d.host + 4 * j) % 2 ^ d.width, (d.cadd.toNat + 4 * j) % 2 ^ 32)

/-- The words moved by a list of descriptors. -/
def wordMoves (l : List SgList) : List (Bool × ℕ × ℕ) := l.flatMap SgList.wordMoves

/-- The words of the segments `l`, laid end to end on the card from `o` on. -/
def laid (toHost : Bool) : ℕ → List Seg → List (Bool × ℕ × ℕ)
  | _, [] => []
  | o, b :: l =>
    ((List.range (b.len / 4)).map fun j => (toHost, ulong (b.addr + 4 * j), o + 4 * j)) ++
      laid toHost (o + b.len) l

/-- The words are every fourth byte. -/
theorem wordMoves_eq : ∀ l : List SgList, wordMoves l = wordHeads (moves l)
  | [] => rfl
  | d :: l => by
    have hlen : 4 ∣ d.moves.length := by
      unfold SgList.moves
      rw [List.length_map, List.length_range]
      exact Nat.dvd_mul_right ..
    have hd : d.wordMoves = wordHeads d.moves := by
      unfold SgList.moves
      rw [wordHeads_range]
      rfl
    calc wordMoves (d :: l)
      _ = d.wordMoves ++ wordMoves l := List.flatMap_cons
      _ = wordHeads d.moves ++ wordHeads (moves l) := by rw [hd, wordMoves_eq l]
      _ = wordHeads (d.moves ++ moves l) := (wordHeads_append hlen).symm

/-- The words of whole segments, when the card's addresses do not wrap. -/
theorem wordHeads_placed (toHost : Bool) :
    ∀ {l : List Seg} {o : ℕ}, (∀ b ∈ l, 4 ∣ b.len) → o + total l ≤ 2 ^ 32 →
    wordHeads (placed toHost o ((bytes l).map ulong)) = laid toHost o l
  | [], _, _, _ => rfl
  | b :: l, o, hl, ho => by
    rw [total_cons] at ho
    obtain ⟨n, hn⟩ := hl b (List.mem_cons_self ..)
    have hb : b.bytes.map ulong = (List.range (4 * n)).map fun j => ulong (b.addr + j) := by
      unfold Seg.bytes
      rw [List.map_map, hn]
      rfl
    have hfirst : wordHeads (placed toHost o (b.bytes.map ulong)) =
        (List.range (b.len / 4)).map fun j => (toHost, ulong (b.addr + 4 * j), o + 4 * j) := by
      rw [hb, placed_range, wordHeads_range, hn, Nat.mul_div_cancel_left n (by decide)]
      apply List.map_congr_left
      intro j hj
      have hj' : j < n := List.mem_range.mp hj
      show (toHost, ulong (b.addr + 4 * j), (o + 4 * j) % 2 ^ 32) = _
      rw [Nat.mod_eq_of_lt (by omega)]
    have hlen : (b.bytes.map ulong).length = b.len := by rw [List.length_map, Seg.length_bytes]
    have hwhole : 4 ∣ (placed toHost o (b.bytes.map ulong)).length := by
      unfold placed
      rw [List.length_mapIdx, hlen, hn]
      exact Nat.dvd_mul_right ..
    rw [bytes_cons, List.map_append, placed_append, wordHeads_append hwhole, hfirst, hlen,
      wordHeads_placed toHost (fun b hb => hl b (List.mem_cons_of_mem _ hb)) (by omega)]
    rfl

/-! ### The chain -/

/-- The address of the next descriptor. -/
def SgList.nextAddr (d : SgList) : Option ℕ :=
  if d.next = 0 ∧ d.next_high = 0 then none else some (d.next_high.toNat * 2 ^ 32 + d.next.toNat)

/-- The descriptor at address `a` of a list at `list_pac`. -/
def descAt (list_pac : ℕ) (l : List SgList) (a : ℕ) : Option SgList :=
  if list_pac ≤ a ∧ sglistSize ∣ a - list_pac then l[(a - list_pac) / sglistSize]? else none

/-- Where the descriptor at an address points. -/
def nextAt (list_pac : ℕ) (l : List SgList) (a : ℕ) : Option ℕ :=
  (descAt list_pac l a).bind SgList.nextAddr

theorem descAt_place (list_pac : ℕ) (l : List SgList) (j : ℕ) :
    descAt list_pac l (list_pac + sglistSize * j) = l[j]? := by
  unfold descAt
  rw [Nat.add_sub_cancel_left, if_pos ⟨by omega, Nat.dvd_mul_right ..⟩,
    Nat.mul_div_cancel_left j (by decide)]

theorem SgList.LinksOn.nextAddr {d : SgList} {list_pac j : ℕ} (h : d.LinksOn list_pac j)
    (h0 : 0 < list_pac) (hwrap : list_pac + sglistSize * (j + 1) < 2 ^ 64) :
    d.nextAddr = some (list_pac + sglistSize * (j + 1)) := by
  set a := list_pac + sglistSize * (j + 1)
  have ha : d.next_high.toNat * 2 ^ 32 + d.next.toNat = a := by
    rw [h.1, h.2, BitVec.toNat_ofNat, BitVec.toNat_ofNat, Nat.shiftRight_eq_div_pow]
    omega
  unfold SgList.nextAddr
  rw [if_neg, ha]
  rintro ⟨hn, hh⟩
  rw [hn, hh] at ha
  have hpos : 0 < a := by omega
  exact absurd ha.symm hpos.ne'

/-- From place `j` on the chain visits the places left. -/
theorem chain_from {list_pac : ℕ} {l : List SgList} (h0 : 0 < list_pac)
    (hwrap : list_pac + sglistSize * l.length ≤ 2 ^ 64)
    (hon : ∀ j d, l[j]? = some d → (j + 1 < l.length → d.LinksOn list_pac j) ∧
      (l.length ≤ j + 1 → d.next = 0 ∧ d.next_high = 0)) :
    ∀ (n j : ℕ), n + j + 1 = l.length → Intrusive.Chain (nextAt list_pac l)
    (some (list_pac + sglistSize * j))
      ((List.range' j (n + 1)).map fun i => list_pac + sglistSize * i)
  | n, j, hj => by
    have hlt : j < l.length := by omega
    have hget : l[j]? = some l[j] := List.getElem?_eq_getElem hlt
    have hat : nextAt list_pac l (list_pac + sglistSize * j) = l[j].nextAddr := by
      unfold nextAt
      rw [descAt_place, hget, Option.bind_some]
    rw [List.range'_succ, List.map_cons]
    refine ⟨rfl, ?_⟩
    rw [hat]
    cases n with
    | zero =>
      obtain ⟨hn, hh⟩ := (hon j _ hget).2 (by omega)
      exact if_pos ⟨hn, hh⟩
    | succ n =>
      have hlink := (hon j _ hget).1 (by omega)
      rw [hlink.nextAddr h0 (by unfold sglistSize at hwrap ⊢; omega)]
      exact chain_from h0 hwrap hon n (j + 1) (by omega)

/-- The descriptors are one chain, each of them visited once and in order. -/
theorem cardsg_chain (M : ModParams) (dir : PciDir) (cardoff : BitVec 32) (dma64 : Bool)
    {list_pac : ℕ} {sgl : List Seg} (h0 : 0 < list_pac)
    (hne : dmaCardsg M dir cardoff dma64 list_pac sgl ≠ [])
    (hwrap : list_pac + sglistSize * (dmaCardsg M dir cardoff dma64 list_pac sgl).length ≤ 2 ^ 64) :
    Intrusive.Chain (nextAt list_pac (dmaCardsg M dir cardoff dma64 list_pac sgl)) (some list_pac)
      ((List.range (dmaCardsg M dir cardoff dma64 list_pac sgl).length).map fun i =>
        list_pac + sglistSize * i) := by
  set l := dmaCardsg M dir cardoff dma64 list_pac sgl
  obtain ⟨n, hn⟩ : ∃ n, l.length = n + 1 := Nat.exists_eq_succ_of_ne_zero (by simpa using hne)
  rw [List.range_eq_range', hn]
  exact chain_from h0 hwrap (fun j d hd => cardsg_linked M dir cardoff dma64 list_pac sgl hd) n 0
    hn.symm

/-! ### Merging changes nothing -/

theorem describesAll_mem {tcm : BitVec 32} :
    ∀ {o : ℕ} {ds : List SgList} {rs : List Run}, DescribesAll tcm o ds rs →
    ∀ d ∈ ds, ∃ o', ∃ r ∈ rs, Describes tcm o' d r
  | _, [], [], _, _, hd => by simp at hd
  | o, d :: ds, r :: rs, h, e, he => by
    rcases List.mem_cons.mp he with rfl | he
    · exact ⟨o, r, List.mem_cons_self .., h.1⟩
    · obtain ⟨o', r', hr', hd⟩ := describesAll_mem h.2 e he
      exact ⟨o', r', List.mem_cons_of_mem _ hr', hd⟩

/-- A scatterlist that is not empty has a descriptor. -/
theorem cardsg_ne_nil (M : ModParams) (dir : PciDir) (cardoff : BitVec 32) (dma64 : Bool)
    (list_pac : ℕ) {sgl : List Seg} (hne : sgl ≠ []) :
    dmaCardsg M dir cardoff dma64 list_pac sgl ≠ [] := by
  intro hnil
  have hall := cardsg_describes M dir cardoff dma64 list_pac sgl
  rw [hnil] at hall
  have hruns : runs M.dma_merge sgl = [] := by
    cases hr : runs M.dma_merge sgl with
    | nil => rfl
    | cons r rs =>
      rw [hr] at hall
      exact absurd hall id
  have hlens := lens_runs M.dma_merge sgl
  rw [hruns] at hlens
  exact hne (List.map_eq_nil_iff.mp hlens.symm)

/-- The descriptors of whole segments move their words. -/
theorem cardsg_words (M : ModParams) (dir : PciDir) {cardoff : BitVec 32} {dma64 : Bool}
    (list_pac : ℕ) {sgl : List Seg} (hwhole : ∀ r ∈ runs M.dma_merge sgl, r.Whole)
    (hcard : cardoff.toNat + total sgl ≤ 2 ^ 32)
    (hbus : dma64 = false → ∀ a ∈ bytes sgl, a < 2 ^ 32) :
    wordMoves (dmaCardsg M dir cardoff dma64 list_pac sgl) = laid (decide (dir = .fromDevice))
      cardoff.toNat sgl := by
  have hwidth : busWidth dma64 ≤ 64 := by unfold busWidth; split_ifs <;> decide
  have hmod : (bytes sgl).map (· % 2 ^ busWidth dma64) = (bytes sgl).map ulong := by
    apply List.map_congr_left
    intro a ha
    cases dma64 with
    | true => rfl
    | false =>
      have ha32 := hbus rfl a ha
      show a % 2 ^ 32 = a % 2 ^ 64
      omega
  rw [wordMoves_eq, describesAll_moves (cardsg_describes M dir cardoff dma64 list_pac sgl) hwhole,
    bytes_runs hwidth, hmod]
  exact wordHeads_placed _ ((runs_whole_iff M.dma_merge sgl).mp hwhole).1 hcard

/-- The descriptors of a buffer whose segments have at most 64 KiB, merged or
not, are one chain that ends with the last of them; the flags of each are the
direction and the width; and the words they move are those of the segments, laid
end to end from the card's offset on, so the same whether merged or not. -/
theorem merge_moves_words (M : ModParams) (dir : PciDir) (cardoff : BitVec 32) (dma64 : Bool)
    {list_pac : ℕ} {sgl : List Seg} (hne : sgl ≠ [])
    (hlen : ∀ b ∈ sgl, 4 ∣ b.len ∧ b.len ≤ 0x10000) (hcard : cardoff.toNat + total sgl ≤ 2 ^ 32)
    (hbus : dma64 = false → ∀ a ∈ bytes sgl, a < 2 ^ 32) (h0 : 0 < list_pac)
    (hwrap : list_pac + sglistSize * sgl.length ≤ 2 ^ 64) :
    let l := fun merge => dmaCardsg { M with dma_merge := merge } dir cardoff dma64 list_pac sgl
    (∀ merge, l merge ≠ [] ∧ Intrusive.Chain (nextAt list_pac (l merge)) (some list_pac)
      ((List.range (l merge).length).map fun k => list_pac + sglistSize * k) ∧
      ∀ d, (l merge).getLast? = some d → d.next = 0 ∧ d.next_high = 0) ∧
    (∀ merge, ∀ d ∈ l merge, d.count.getLsbD 31 = decide (dir = .fromDevice) ∧
      d.count.getLsbD 28 = dma64) ∧
    (∀ merge, wordMoves (l merge) = laid (decide (dir = .fromDevice)) cardoff.toNat sgl) ∧
    wordMoves (l true) = wordMoves (l false) := by
  intro l
  have hwhole : ∀ merge, ∀ r ∈ runs merge sgl, r.Whole := fun merge => by
    have hshort := runs_len_le (B := 0x10000) (by decide) merge fun b hb => (hlen b hb).2
    exact (runs_whole_iff merge sgl).mpr
      ⟨fun b hb => (hlen b hb).1, fun r hr => (hshort r hr).trans_lt (by decide)⟩
  have hwords : ∀ merge, wordMoves (l merge) = laid (decide (dir = .fromDevice)) cardoff.toNat
      sgl := fun merge =>
    cardsg_words { M with dma_merge := merge } dir list_pac (hwhole merge) hcard hbus
  refine ⟨fun merge => ?_, fun merge d hd => ?_, hwords, (hwords true).trans (hwords false).symm⟩
  · have hl : l merge ≠ [] := cardsg_ne_nil _ dir cardoff dma64 list_pac hne
    have hle : (l merge).length ≤ sgl.length := cardsg_length_le _ dir cardoff dma64 list_pac sgl
    have hwrap' : list_pac + sglistSize * (l merge).length ≤ 2 ^ 64 :=
      (Nat.add_le_add_left (Nat.mul_le_mul_left sglistSize hle) list_pac).trans hwrap
    refine ⟨hl, cardsg_chain _ dir cardoff dma64 h0 hl hwrap', fun d hd => ?_⟩
    rw [List.getLast?_eq_getElem?] at hd
    exact (cardsg_linked _ dir cardoff dma64 list_pac sgl hd).2 (Nat.le_add_of_sub_le le_rfl)
  · have hall := cardsg_describes { M with dma_merge := merge } dir cardoff dma64 list_pac sgl
    obtain ⟨o, r, hr, hdesc⟩ := describesAll_mem hall d hd
    exact hdesc.bits (hwhole merge r hr).2

/-- Two adjacent pages and one apart from them. -/
theorem merge_moves_words_three :
    let sgl : List Seg := [⟨0x10000, 0x1000⟩, ⟨0x11000, 0x1000⟩, ⟨0x20000, 0x1000⟩]
    wordMoves (dmaCardsg { dma_merge := true } .toDevice 0x400 true 0x2000 sgl) =
      wordMoves (dmaCardsg { dma_merge := false } .toDevice 0x400 true 0x2000 sgl) :=
  (merge_moves_words {} .toDevice 0x400 true (by decide) (by decide) (by decide) (by decide)
    (by decide) (by decide)).2.2.2

/-! ### The size limit -/

/-- If the run has fewer than `maxDmaSize` bytes and ends where the block starts,
its words and the block's are at most `maxDmaSize` bytes. -/
def Run.Fits (r : Run) (b : Seg) : Prop :=
  r.len < maxDmaSize → ulong (r.addr + r.len) = b.addr → 4 * (r.words + b.len / 4) ≤ maxDmaSize

/-- In every round of the loop the block fits the last run of the blocks before it. -/
def MergesFit (sgl : List Seg) : Prop :=
  ∀ (l : List Seg) (b : Seg) (m : List Seg), sgl = l ++ b :: m →
    ∀ r, (runs true l).getLast? = some r → r.Fits b

/-- One block more: the last run takes it, or it starts a run. -/
theorem runsFrom_concat (merge : Bool) (b : Seg) : ∀ (l : List Seg) (r : Run),
    ∃ rs t, runsFrom merge r l = rs ++ [t] ∧ runsFrom merge r (l ++ [b]) = rs ++
      runsFrom merge t [b]
  | [], r => ⟨[], r, rfl, rfl⟩
  | c :: l, r => by
    have hcons : ∀ m, runsFrom merge r (c :: m) =
        if merge = true ∧ ulong r.len < maxDmaSize ∧ ulong (r.addr + r.len) = c.addr then
          runsFrom merge ⟨r.addr, r.lens ++ [c.len]⟩ m
        else r :: runsFrom merge ⟨c.addr, [c.len]⟩ m := fun _ => rfl
    rw [List.cons_append, hcons, hcons]
    split_ifs with hjoin
    · exact runsFrom_concat merge b l _
    · obtain ⟨rs, t, h1, h2⟩ := runsFrom_concat merge b l ⟨c.addr, [c.len]⟩
      exact ⟨r :: rs, t, by rw [h1, List.cons_append], by rw [h2, List.cons_append]⟩

/-- A list fits when it does without its last block, and that one does. -/
theorem mergesFit_concat {l : List Seg} {b : Seg} :
    MergesFit (l ++ [b]) ↔ MergesFit l ∧ ∀ r, (runs true l).getLast? = some r → r.Fits b := by
  constructor
  · intro h
    refine ⟨fun l' c m hl => h l' c (m ++ [b]) ?_, h l b [] rfl⟩
    rw [hl, List.append_assoc, List.cons_append]
  · rintro ⟨hinit, hlast⟩ l' c m hl
    rcases List.eq_nil_or_concat m with rfl | ⟨m', e, rfl⟩
    · obtain ⟨rfl, hbc⟩ := List.append_inj' hl rfl
      obtain rfl := List.singleton_inj.mp hbc
      exact hlast
    · have hl' : l ++ [b] = (l' ++ c :: m') ++ [e] := by rw [hl, List.concat_eq_append]; simp
      exact hinit l' c m' (List.append_inj' hl' rfl).1

/-- A block of its own is within the limit. -/
theorem words_new {b : Seg} (hb : b.len ≤ maxDmaSize) :
    4 * Run.words ⟨b.addr, [b.len]⟩ ≤ maxDmaSize := by
  have hwords := (Run.words_le ⟨b.addr, [b.len]⟩).1
  have hlen : Run.len ⟨b.addr, [b.len]⟩ = b.len := List.sum_singleton ..
  omega

/-- One block more is within the limit when the run was, and the block fits. -/
theorem runsFrom_limit_iff {t : Run} {b : Seg} (hlen : ulong t.len = t.len)
    (hb : b.len ≤ maxDmaSize) :
    (∀ r ∈ runsFrom true t [b], 4 * r.words ≤ maxDmaSize) ↔
      4 * t.words ≤ maxDmaSize ∧ t.Fits b := by
  have hwords : Run.words ⟨t.addr, t.lens ++ [b.len]⟩ = t.words + b.len / 4 := by simp [Run.words]
  unfold runsFrom
  rw [hlen]
  split_ifs with hjoin
  · rw [runsFrom, List.forall_mem_singleton, hwords]
    constructor
    · intro hfit
      exact ⟨by omega, fun _ _ => hfit⟩
    · rintro ⟨-, hfit⟩
      exact hfit hjoin.2.1 hjoin.2.2
  · rw [List.forall_mem_cons, runsFrom, List.forall_mem_singleton]
    constructor
    · rintro ⟨ht, -⟩
      exact ⟨ht, fun hless hadj => absurd ⟨rfl, hless, hadj⟩ hjoin⟩
    · rintro ⟨ht, -⟩
      exact ⟨ht, words_new hb⟩

/-- The runs are within the limit exactly when every merged block fits. -/
theorem runs_limit_iff (sgl : List Seg) (h : ∀ b ∈ sgl, b.len ≤ maxDmaSize) :
    (∀ r ∈ runs true sgl, 4 * r.words ≤ maxDmaSize) ↔ MergesFit sgl := by
  induction sgl using List.reverseRecOn with
  | nil => exact iff_of_true (by simp [runs]) fun l b m hl => absurd hl (by simp)
  | append_singleton l b ih =>
    have hb : b.len ≤ maxDmaSize := h b (by simp)
    have hl : ∀ c ∈ l, c.len ≤ maxDmaSize := fun c hc => h c (List.mem_append_left _ hc)
    rw [mergesFit_concat, ← ih hl]
    cases l with
    | nil =>
      refine iff_of_true (fun r hr => ?_) ⟨by simp [runs], fun r hr => by simp [runs] at hr⟩
      obtain rfl := List.mem_singleton.mp hr
      exact words_new hb
    | cons c l =>
      obtain ⟨rs, t, hbefore, hafter⟩ := runsFrom_concat true b l ⟨c.addr, [c.len]⟩
      have hruns : runs true (c :: l) = rs ++ [t] := hbefore
      have hshort : t.len ≤ maxDmaSize + maxDmaSize :=
        runs_len_le (by decide) true hl t (by rw [hruns]; simp)
      have hlen : ulong t.len = t.len := Nat.mod_eq_of_lt (hshort.trans_lt (by decide))
      rw [show runs true (c :: l ++ [b]) = _ from hafter, hruns, List.getLast?_concat,
        List.forall_mem_append,
        List.forall_mem_append, List.forall_mem_singleton, runsFrom_limit_iff hlen hb, and_assoc]
      refine and_congr_right fun _ => and_congr_right fun _ =>
        ⟨fun hfit r hr => ?_, fun hfit => hfit t rfl⟩
      obtain rfl := Option.some.inj hr
      exact hfit

/-- With merging on, and segments of at most `MAX_DMA_SIZE` bytes, no descriptor
moves more than that exactly when every merged block fits. -/
theorem dma_limit_iff {M : ModParams} (hmerge : M.dma_merge = true) (dir : PciDir)
    (cardoff : BitVec 32) (dma64 : Bool) (list_pac : ℕ) {sgl : List Seg}
    (hlen : ∀ b ∈ sgl, b.len ≤ maxDmaSize) :
    (∀ d ∈ dmaCardsg M dir cardoff dma64 list_pac sgl, 4 * d.words ≤ maxDmaSize) ↔
      MergesFit sgl := by
  have hall := cardsg_describes M dir cardoff dma64 list_pac sgl
  rw [hmerge] at hall
  have hwords : ∀ r ∈ runs true sgl, r.words % 2 ^ 28 = r.words := fun r hr => by
    have hshort := runs_len_le (B := maxDmaSize) (by decide) true hlen r hr
    have hle := r.words_le.1
    unfold maxDmaSize at hshort
    omega
  have hmap :
    (dmaCardsg M dir cardoff dma64 list_pac sgl).map SgList.words = (runs true sgl).map Run.words :=
    (describesAll_words hall).trans (List.map_congr_left hwords)
  rw [← runs_limit_iff sgl hlen]
  calc (∀ d ∈ dmaCardsg M dir cardoff dma64 list_pac sgl, 4 * d.words ≤ maxDmaSize)
    _ ↔ ∀ n ∈ (dmaCardsg M dir cardoff dma64 list_pac sgl).map SgList.words, 4 * n ≤
      maxDmaSize := by rw [List.forall_mem_map]
    _ ↔ ∀ r ∈ runs true sgl, 4 * r.words ≤ maxDmaSize := by rw [hmap, List.forall_mem_map]

/-- Two adjacent blocks of 64 KiB. -/
theorem dma_limit_two : MergesFit [⟨0x10000, 0x10000⟩, ⟨0x20000, 0x10000⟩] :=
  (dma_limit_iff (M := {}) rfl .toDevice 0 false 0x2000 (by decide)).mp (by decide)

/-- A buffer that starts in the middle of a page, in pages adjacent on the bus:
the limit is passed by the page that would reach it. -/
theorem dma_over_limit :
    let sgl : List Seg :=
  ⟨0x10800, 0x800⟩ :: (List.range 240).map fun i => ⟨0x11000 + 0x1000 * i, 0x1000⟩
    (∀ b ∈ sgl, b.len ≤ maxDmaSize) ∧
      ¬ ∀ d ∈ dmaCardsg {} .toDevice 0 false 0x2000 sgl, 4 * d.words ≤ maxDmaSize := by
  intro sgl
  exact ⟨by decide +kernel, by decide +kernel⟩

end AjaDriver
