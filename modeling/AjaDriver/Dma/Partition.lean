/-
# The scatterlist covers the buffer

`aja_dma_init` counts the pages of a user buffer from the numbers of the first
and the last one, and `aja_dma_mapsg` cuts the buffer with that count: the rest
of the first page, then whole pages, then what is left. For every request that
is accepted the count is the number of pages that hold a byte of the buffer,
and the entries are one for each of them, none empty and none over the end of
its page, and together the buffer (`dma_partition`). A descriptor is written
for a segment or merged away, so they are never more than the pages.
-/
import AjaDriver.Dma.Release
import Mathlib.Order.Interval.Finset.Nat

namespace AjaDriver

open Segments

namespace DmaInfo

/-- The pages that hold a byte of the user buffer. -/
def touched (info : DmaInfo) : Finset ℕ :=
  (Finset.Ico info.uadd.toNat (info.uadd.toNat + info.len.toNat)).image (· / pageSize)

/-- The checks of `aja_dma_init` and `aja_dma_getpages`. -/
structure Accepted (M : ModParams) (info : DmaInfo) : Prop where
  nonnull : info.uadd ≠ 0
  len : 8 ≤ info.len.toNat
  nowrap : info.uadd.toNat + info.len.toNat < 2 ^ 64
  pages : (info.touched.card : ℤ) ≤ M.max_dmalist

/-- The entries `l` are the user buffer, page by page. -/
structure Partitions (info : DmaInfo) (l : List SgPage) : Prop where
  length : l.length = info.touched.card
  page : ∀ i e, l[i]? = some e → e.page = info.uadd.toNat / pageSize + i
  off : ∀ i e, l[i]? = some e → e.off = if i = 0 then info.uadd.toNat % pageSize else 0
  pos : ∀ e ∈ l, 0 < e.len
  within : ∀ e ∈ l, e.off + e.len ≤ pageSize
  sum : (l.map SgPage.len).sum = info.len.toNat
  /-- laid end to end, they are the bytes from `uadd` on -/
  bytes : (l.flatMap fun e => (List.range e.len).map (e.page * pageSize + e.off + ·)) =
    (List.range info.len.toNat).map (info.uadd.toNat + ·)

variable {info : DmaInfo}

/-! ### The count -/

theorem touched_eq (h : 0 < info.len.toNat) : info.touched =
    Finset.Icc (info.uadd.toNat / pageSize)
    ((info.uadd.toNat + info.len.toNat - 1) / pageSize) := by
  ext p
  unfold touched pageSize
  rw [Finset.mem_image, Finset.mem_Icc]
  constructor
  · rintro ⟨x, hx, rfl⟩
    obtain ⟨hle, hlt⟩ := Finset.mem_Ico.mp hx
    exact ⟨Nat.div_le_div_right hle, Nat.div_le_div_right (by omega)⟩
  · rintro ⟨hle, hlt⟩
    -- the first byte of the page, or of the buffer
    exact ⟨max info.uadd.toNat (p * 4096), Finset.mem_Ico.mpr (by omega), by omega⟩

theorem card_touched (h : 0 < info.len.toNat) : info.touched.card = info.pageCount := by
  have hle : info.uadd.toNat / pageSize ≤ (info.uadd.toNat + info.len.toNat - 1) / pageSize :=
    Nat.div_le_div_right (by omega)
  rw [touched_eq h, Nat.card_Icc]
  unfold pageCount
  omega

end DmaInfo

/-! ### The entries -/

/-- The entries of the pages behind the first. -/
theorem mapsgLoop_entry {pages : ℕ → ℕ} {c i n j : ℕ} {e : SgPage}
    (hn : c * pageSize < n + pageSize) (he : (mapsgLoop pages c i n)[j]? = some e) :
    e.page = pages (i + j) ∧ e.off = 0 ∧ 0 < e.len ∧ e.len ≤ pageSize := by
  induction c generalizing i n j with
  | zero => simp [mapsgLoop] at he
  | succ c ih =>
    have hpage : 0 < pageSize := by decide
    rw [Nat.succ_mul] at hn
    cases j with
    | zero =>
      obtain rfl : (⟨pages i, min n pageSize, 0⟩ : SgPage) = e := by simpa [mapsgLoop] using he
      exact ⟨rfl, rfl, by simp only; omega, min_le_right _ _⟩
    | succ j =>
      have hrest : c * pageSize < n - min n pageSize + pageSize := by omega
      unfold mapsgLoop at he
      simp only [List.getElem?_cons_succ] at he
      obtain ⟨hpage, h⟩ := ih hrest he
      exact ⟨by rw [hpage, Nat.add_assoc, Nat.add_comm 1], h⟩

theorem length_mapsgLoop (pages : ℕ → ℕ) : ∀ (c i n : ℕ), (mapsgLoop pages c i n).length = c
  | 0, _, _ => rfl
  | c + 1, i, n => by rw [mapsgLoop, List.length_cons, length_mapsgLoop pages c]

/-- The entries of the whole buffer. -/
theorem sgl_entry {info : DmaInfo} (h : 0 < info.len.toNat) {i : ℕ} {e : SgPage}
    (he : info.sgl[i]? = some e) :
    e.page = info.uadd.toNat / pageSize + i ∧
      (e.off = if i = 0 then info.uadd.toNat % pageSize else 0) ∧ 0 < e.len ∧
      e.off + e.len ≤ pageSize := by
  have hoff : info.uadd.toNat % pageSize < pageSize := Nat.mod_lt _ (by decide)
  cases i with
  | zero =>
    obtain rfl := Option.some.inj he
    exact ⟨rfl, rfl, by simp only; omega, by simp only; omega⟩
  | succ i =>
    have hcount : (info.pageCount - 1) * pageSize <
        info.len.toNat - min info.len.toNat (pageSize - info.uadd.toNat % pageSize) + pageSize := by
      unfold DmaInfo.pageCount pageSize
      omega
    obtain ⟨hpage, hzero, hpos, hle⟩ := mapsgLoop_entry hcount he
    exact ⟨by
      rw [hpage, Nat.add_comm 1], by rw [hzero, if_neg (Nat.succ_ne_zero i)], hpos, by omega⟩

/-- A byte of the user buffer is a byte of its page. -/
theorem loc_self (x : ℕ) : loc pageSize (· * pageSize) x = x := Nat.div_add_mod' x pageSize

theorem sgl_bytes {info : DmaInfo} (h : 0 < info.len.toNat) :
    bytes (info.sgl.map (SgPage.onBus (· * pageSize))) = (List.range info.len.toNat).map
      (info.uadd.toNat + ·) := by
  rw [info.bytes_sgl _ h]
  simp only [loc_self]

/-- The entries are the buffer, page by page. -/
theorem sgl_partitions {info : DmaInfo} (h : 0 < info.len.toNat) : info.Partitions info.sgl where
  length := by
    rw [info.card_touched h]
    unfold DmaInfo.sgl mapsgEntries
    rw [List.length_cons, length_mapsgLoop]
    exact Nat.sub_add_cancel (Nat.succ_pos _)
  page i e he := (sgl_entry h he).1
  off i e he := (sgl_entry h he).2.1
  pos e he := by
    obtain ⟨i, hi⟩ := List.getElem?_of_mem he
    exact (sgl_entry h hi).2.2.1
  within e he := by
    obtain ⟨i, hi⟩ := List.getElem?_of_mem he
    exact (sgl_entry h hi).2.2.2
  sum := by
    have hlen := congrArg List.length (sgl_bytes h)
    rw [length_bytes, List.length_map, List.length_range] at hlen
    rw [← hlen, total, List.map_map]
    rfl
  bytes := by
    rw [← sgl_bytes h, bytes, List.flatMap_map]
    rfl

/-! ### The request -/

theorem DmaInfo.Given.accepted {M : ModParams} {k : Kernel} {dma64 : Bool} {info : DmaInfo}
    {d : Dma} (h : info.Given M k dma64 d) : info.Accepted M := by
  refine ⟨h.nonnull, h.len, h.nowrap, ?_⟩
  rw [info.card_touched (by have := h.len; omega)]
  exact h.pages

theorem DmaInfo.Accepted.pages_eq {M : ModParams} {info : DmaInfo} (h : info.Accepted M) :
    info.pages = info.touched.card := by
  have hwrap : ulong (info.uadd.toNat + info.len.toNat) = info.uadd.toNat + info.len.toNat :=
    Nat.mod_eq_of_lt h.nowrap
  rw [info.card_touched (by have := h.len; omega)]
  exact count_eq info.uadd.isLt info.len.isLt h.len (by omega)

/-- The checks are those of the code: a request that passes them is accepted
where it is given buffers, its pages and a mapping for them. -/
theorem accepted_iff (M : ModParams) (info : DmaInfo) (dma64 : Bool) : info.Accepted M ↔
    ∃ k d, dmaInit M k dma64 info.dir info.uadd.toNat info.cadd info.len.toNat = .ok d := by
  refine ⟨fun h => ⟨.direct id, ?_⟩, fun ⟨k, d, h⟩ => (dmaInit_ok h).accepted⟩
  have hwrap : ulong (info.uadd.toNat + info.len.toNat) = info.uadd.toNat + info.len.toNat :=
    Nat.mod_eq_of_lt h.nowrap
  have hnonnull : info.uadd.toNat ≠ 0 := fun hzero => h.nonnull (BitVec.eq_of_toNat_eq hzero)
  have hpages : dmaGetpages M (.direct id) info.uadd.toNat info.pages = .ok fun i =>
    info.uadd.toNat / pageSize + i :=
    getpages_ok (h.pages_eq.trans_le h.pages) rfl
  unfold DmaInfo.pages at hpages
  unfold dmaInit
  simp only at hpages ⊢
  rw [if_neg (by simp [Kernel.direct]), if_neg hnonnull, if_neg (not_lt.mpr h.len),
    if_neg (by omega), hpages]
  exact ⟨_, rfl⟩

/-- For every request that passes the checks `dma->count` is the number of its
pages, and the entries are the buffer page by page; and if `pci_map_sg` gives
no more segments than entries, the descriptors fit the list. -/
theorem dma_partition (M : ModParams) (info : DmaInfo) (h : info.Accepted M) :
    info.pages = info.touched.card ∧
    info.Partitions (mapsgEntries (fun i => info.uadd.toNat / pageSize + i) info.uadd.toNat
      info.len.toNat info.pages.toNat) ∧
    ∀ (k : Kernel) (dma64 : Bool) (d : Dma),
      dmaInit M k dma64 info.dir info.uadd.toNat info.cadd info.len.toNat = .ok d →
      d.count = info.touched.card ∧
        d.sgl = k.mapSg (mapsgEntries (fun i => info.uadd.toNat / pageSize + i) info.uadd.toNat
          info.len.toNat info.pages.toNat) ∧
        (d.sgl.length ≤ d.count → (d.list.length : ℤ) ≤ M.max_dmalist) := by
  have hlen : 0 < info.len.toNat := by have := h.len; omega
  have hmax := h.pages
  rw [h.pages_eq, Int.toNat_natCast]
  rw [info.card_touched hlen] at hmax ⊢
  refine ⟨rfl, sgl_partitions hlen, fun k dma64 d hd => ?_⟩
  have hgiven := dmaInit_ok hd
  refine ⟨hgiven.count, hgiven.sgl, fun hle => ?_⟩
  have hlist := cardsg_length_le M info.pciDir info.cadd dma64 k.list_pac (k.mapSg info.sgl)
  rw [← hgiven.list, ← hgiven.sgl] at hlist
  rw [hgiven.count] at hle
  omega

/-- Eight bytes over the end of a page are in two pages. -/
theorem dma_partition_two :
    DmaInfo.Partitions ⟨0, 8, ajaDmatocard, 0x1FFC⟩ [⟨1, 4, 0xFFC⟩, ⟨2, 4, 0⟩] := by
  have hcard : DmaInfo.touched ⟨0, 8, ajaDmatocard, 0x1FFC⟩ = {1, 2} := by decide
  exact (dma_partition {} ⟨0, 8, ajaDmatocard, 0x1FFC⟩
    ⟨by decide, by decide, by decide, by rw [hcard]; decide⟩).2.1

end AjaDriver
