/-
# The page pool and its FIFO

`stream.pagealloc` holds one item for every page buffer of the card: whether
the page is in use, and its links in the FIFO that `stream.pfirst` and
`stream.plast` start and end. `stream.fifo` counts the FIFO's level on its own.

The operations follow the driver's statement by statement. A pointer into
`pagealloc` is the index of its item; every index used into one of the
stream's arrays is recorded in `touched`, so that "no access leaves its
array" can be said. Beside each operation stand the lemmas that say what it
does: to the links it is an operation of `Intrusive.Links`.

Key theorems: `Holds.push`, `Holds.pop_nil`, `Holds.pop_cons`, `Holds.alloc`
(the FIFO is a queue of page numbers), `Sound.push`, `Sound.pop`,
`Sound.alloc` (what is left of it under any use).
-/
import AjaDriver.Lib.Links
import AjaDriver.Ioctls

namespace AjaDriver

open Function Word Intrusive

/-- `aja_pageitem_t`. -/
structure PageItem where
  next : Option ℤ
  prev : Option ℤ
  page : ℤ
  inuse : Bool

/-- The arrays of `aja_stream_t`. -/
inductive Tbl
  | pagealloc
  | pagemeta
  | last
  deriving DecidableEq, Repr

/-- The number of entries of an array. -/
def Tbl.size : Tbl → ℤ
  | .pagealloc => ajaMaxpages
  | .pagemeta => ajaMaxpages
  | .last => ajaMaxchans

/-- The fields `pagealloc`, `pfirst`, `plast` and `fifo` of `aja_stream_t`,
and the record of the indices used into the stream's arrays. -/
structure Pool where
  pagealloc : ℤ → PageItem
  pfirst : Option ℤ
  plast : Option ℤ
  fifo : ℤ
  touched : List (Tbl × ℤ)

namespace Pool

/-- Index `i` is used into array `t`. -/
def touch (P : Pool) (t : Tbl) (i : ℤ) : Pool := { P with touched := (t, i) :: P.touched }

/-- Write to item `i`. -/
def modify (P : Pool) (i : ℤ) (f : PageItem → PageItem) : Pool :=
  { P.touch .pagealloc i with pagealloc := update P.pagealloc i (f (P.pagealloc i)) }

/-- The pool's part of `aja_stream_clear`. -/
def clear (P : Pool) : Pool where
  pagealloc i :=
    if 0 ≤ i ∧ i < ajaMaxpages then { next := none, prev := none, page := i, inuse := false }
    else P.pagealloc i
  pfirst := none
  plast := none
  fifo := 0
  touched := (List.range ajaMaxpages).map (fun i : ℕ => (Tbl.pagealloc, (i : ℤ))) ++ P.touched

/-- The loop of `aja_stream_page_alloc` over the page numbers left. -/
def pageAllocLoop (P : Pool) : List ℕ → ℤ × Pool
  | [] => (-EAGAIN, P)
  | i :: is =>
    if (P.pagealloc i).inuse then pageAllocLoop (P.touch .pagealloc i) is
    else (i, (P.touch .pagealloc i).modify i fun p =>
      { p with prev := none, next := none, inuse := true })

/-- `aja_stream_page_alloc`. -/
def streamPageAlloc (P : Pool) (pagect : ℤ) : ℤ × Pool := pageAllocLoop P (List.range pagect.toNat)

/-- `aja_stream_page_free`. -/
def streamPageFree (P : Pool) (page : ℤ) : Pool :=
  if page < 0 ∨ page ≥ ajaMaxpages then P
  else P.modify page fun p => { p with inuse := false }

/-- `aja_stream_fifo_push`. -/
def streamFifoPush (P : Pool) (page : ℤ) : ℤ × Pool :=
  if !isValidPage page then (-EINVAL, P)
  else
    match P.plast with
    | none =>
      let P := P.modify page fun p => { p with next := none }
      let P := P.modify page fun p => { p with prev := none }
      (0, { P with pfirst := some page, plast := some page, fifo := wrap (P.fifo + 1) })
    | some np =>
      let P := P.modify np fun p => { p with next := some page }
      let P := P.modify page fun p => { p with prev := some np }
      let P := P.modify page fun p => { p with next := none }
      (0, { P with plast := some page, fifo := wrap (P.fifo + 1) })

/-- The list part of `aja_stream_fifo_pop`: the page of the first item, or
`-EAGAIN`. -/
def popFirst (P : Pool) : ℤ × Pool :=
  match P.pfirst with
  | none => (-EAGAIN, P)
  | some p =>
    match (P.pagealloc p).next with
    | none => ((P.pagealloc p).page, { P.touch .pagealloc p with pfirst := none, plast := none })
    | some np =>
      ((P.pagealloc p).page,
        { (P.touch .pagealloc p).modify np fun i =>
          { i with prev := none } with pfirst := some np })

/-- `aja_stream_fifo_pop`: the level goes down even when the list is empty. -/
def streamFifoPop (P : Pool) : ℤ × Pool :=
  (P.popFirst.1, { P.popFirst.2 with fifo := wrap (P.fifo - 1) })

/-! ### The links -/

/-- The pool's links. -/
def links (P : Pool) : Links ℤ :=
  ⟨fun i => (P.pagealloc i).next, fun i => (P.pagealloc i).prev, P.pfirst, P.plast⟩

/-- Is the page in use? -/
def inuse (P : Pool) (i : ℤ) : Bool := (P.pagealloc i).inuse

/-- The page number an item carries. -/
def pageNo (P : Pool) (i : ℤ) : ℤ := (P.pagealloc i).page

@[simp] theorem links_touch (P : Pool) (t : Tbl) (i : ℤ) : (P.touch t i).links = P.links := rfl
@[simp] theorem inuse_touch (P : Pool) (t : Tbl) (i : ℤ) : (P.touch t i).inuse = P.inuse := rfl
@[simp] theorem pageNo_touch (P : Pool) (t : Tbl) (i : ℤ) : (P.touch t i).pageNo = P.pageNo := rfl
@[simp] theorem fifo_touch (P : Pool) (t : Tbl) (i : ℤ) : (P.touch t i).fifo = P.fifo := rfl
@[simp] theorem fifo_modify (P : Pool) (i : ℤ) (f : PageItem → PageItem) :
    (P.modify i f).fifo = P.fifo := rfl

theorem pagealloc_modify (P : Pool) (i j : ℤ) (f : PageItem → PageItem) :
    (P.modify i f).pagealloc j = if j = i then f (P.pagealloc i) else P.pagealloc j := by
  simp only [modify, update_apply]

/-! ### Freeing -/

@[simp] theorem links_free (P : Pool) (p : ℤ) : (P.streamPageFree p).links = P.links := by
  unfold streamPageFree
  split_ifs
  · rfl
  · simp only [links, Links.mk.injEq]
    refine ⟨?_, ?_, rfl, rfl⟩ <;> funext j <;> rw [pagealloc_modify] <;>
      split_ifs with h <;> simp [h]

@[simp] theorem pageNo_free (P : Pool) (p : ℤ) : (P.streamPageFree p).pageNo = P.pageNo := by
  unfold streamPageFree
  split_ifs
  · rfl
  · funext j
    rw [pageNo, pagealloc_modify]
    split_ifs with h <;> simp [h, pageNo]

@[simp] theorem fifo_free (P : Pool) (p : ℤ) : (P.streamPageFree p).fifo = P.fifo := by
  unfold streamPageFree
  split_ifs <;> simp

theorem inuse_free (P : Pool) {p : ℤ} (h1 : 0 ≤ p) (h2 : p < 64) :
    (P.streamPageFree p).inuse = update P.inuse p false := by
  unfold streamPageFree
  rw [if_neg (by simp only [ajaMaxpages]; omega)]
  funext j
  rw [inuse, pagealloc_modify, update_apply]
  split_ifs <;> rfl

/-! ### Pushing -/

theorem push_invalid (P : Pool) {p : ℤ} (h : ¬ (0 ≤ p ∧ p < 64)) :
    P.streamFifoPush p = (-EINVAL, P) := by
  unfold streamFifoPush
  have hv : isValidPage p = false := by rw [← Bool.not_eq_true, isValidPage_iff]; exact h
  rw [if_pos (by simp [hv])]

theorem push_ret (P : Pool) {p : ℤ} (h1 : 0 ≤ p) (h2 : p < 64) : (P.streamFifoPush p).1 = 0 := by
  unfold streamFifoPush
  rw [if_neg (by simp [h1, h2])]
  cases P.plast <;> rfl

theorem links_push (P : Pool) {p : ℤ} (h1 : 0 ≤ p) (h2 : p < 64) :
    (P.streamFifoPush p).2.links = P.links.push p := by
  unfold streamFifoPush Links.push
  rw [if_neg (by simp [h1, h2])]
  cases hl : P.plast with
  | none =>
    simp only [links, hl, Links.mk.injEq, pagealloc_modify]
    refine ⟨?_, ?_, trivial, trivial⟩ <;> funext j <;> split_ifs with h <;> simp [h]
  | some z =>
    simp only [links, hl, Links.mk.injEq]
    refine ⟨?_, ?_, rfl, trivial⟩ <;> funext j <;> simp only [pagealloc_modify, update_apply] <;>
      split_ifs <;> simp_all

@[simp] theorem inuse_push (P : Pool) (p : ℤ) : (P.streamFifoPush p).2.inuse = P.inuse := by
  unfold streamFifoPush
  split_ifs
  · rfl
  · cases P.plast <;> funext j <;> simp only [inuse, pagealloc_modify] <;> split_ifs <;> simp_all

@[simp] theorem pageNo_push (P : Pool) (p : ℤ) : (P.streamFifoPush p).2.pageNo = P.pageNo := by
  unfold streamFifoPush
  split_ifs
  · rfl
  · cases P.plast <;> funext j <;> simp only [pageNo, pagealloc_modify] <;> split_ifs <;> simp_all

theorem fifo_push (P : Pool) {p : ℤ} (h1 : 0 ≤ p) (h2 : p < 64) :
    (P.streamFifoPush p).2.fifo = wrap (P.fifo + 1) := by
  unfold streamFifoPush
  rw [if_neg (by simp [h1, h2])]
  cases P.plast <;> rfl

/-! ### Popping -/

theorem links_pop (P : Pool) : P.streamFifoPop.2.links = P.links.pop.2 := by
  unfold streamFifoPop popFirst Links.pop
  cases hf : P.pfirst with
  | none => simp only [links, hf]
  | some p =>
    cases hn : (P.pagealloc p).next with
    | none => simp only [links, hf, hn, touch]
    | some n =>
      simp only [links, hf, hn, Links.mk.injEq]
      refine ⟨?_, ?_, trivial, rfl⟩ <;> funext j <;> simp only [pagealloc_modify, update_apply] <;>
        split_ifs <;> simp_all [touch]

theorem pop_ret (P : Pool) : P.streamFifoPop.1 = (P.links.pop.1.map P.pageNo).getD (-EAGAIN) := by
  unfold streamFifoPop popFirst Links.pop
  cases hf : P.pfirst with
  | none => simp [links, hf]
  | some p => cases hn : (P.pagealloc p).next <;> simp [links, hf, hn, pageNo]

@[simp] theorem inuse_pop (P : Pool) : P.streamFifoPop.2.inuse = P.inuse := by
  unfold streamFifoPop popFirst
  cases P.pfirst with
  | none => rfl
  | some p =>
    simp only
    cases (P.pagealloc p).next with
    | none => rfl
    | some n =>
      funext j
      simp only [inuse, pagealloc_modify]
      split_ifs with h <;> simp [h, touch]

@[simp] theorem pageNo_pop (P : Pool) : P.streamFifoPop.2.pageNo = P.pageNo := by
  unfold streamFifoPop popFirst
  cases P.pfirst with
  | none => rfl
  | some p =>
    simp only
    cases (P.pagealloc p).next with
    | none => rfl
    | some n =>
      funext j
      simp only [pageNo, pagealloc_modify]
      split_ifs with h <;> simp [h, touch]

@[simp] theorem fifo_pop (P : Pool) : P.streamFifoPop.2.fifo = wrap (P.fifo - 1) := rfl

/-! ### Allocating -/

/-- `P'` is `P` with page `i` taken from the free ones. -/
structure Takes (P : Pool) (i : ℤ) (P' : Pool) : Prop where
  free : P.inuse i = false
  links : P'.links = P.links.unlink i
  inuse : P'.inuse = update P.inuse i true
  pageNo : P'.pageNo = P.pageNo
  fifo : P'.fifo = P.fifo

/-- `P'` is `P` but for the record of the indices used. -/
structure Keeps (P P' : Pool) : Prop where
  links : P'.links = P.links
  inuse : P'.inuse = P.inuse
  pageNo : P'.pageNo = P.pageNo
  fifo : P'.fifo = P.fifo

theorem keeps_touch (P : Pool) (t : Tbl) (i : ℤ) : P.Keeps (P.touch t i) := ⟨rfl, rfl, rfl, rfl⟩

theorem Keeps.trans {P P' P'' : Pool} (h : P.Keeps P') (h' : P'.Keeps P'') : P.Keeps P'' :=
  ⟨h'.links.trans h.links, h'.inuse.trans h.inuse, h'.pageNo.trans h.pageNo, h'.fifo.trans h.fifo⟩

/-- What the allocation loop does over the page numbers `is`: it takes the
first free one, or finds all in use. -/
theorem pageAllocLoop_cases : ∀ (is : List ℕ) (P : Pool),
    (∃ (pre : List ℕ) (i : ℕ) (post : List ℕ), is = pre ++ i :: post ∧
      (∀ j ∈ pre, P.inuse j = true) ∧ (P.pageAllocLoop is).1 = i ∧
      P.Takes i (P.pageAllocLoop is).2) ∨
    ((∀ j ∈ is, P.inuse j = true) ∧ (P.pageAllocLoop is).1 = -EAGAIN ∧
      P.Keeps (P.pageAllocLoop is).2)
  | [], P => Or.inr ⟨by simp, rfl, rfl, rfl, rfl, rfl⟩
  | i :: is, P => by
    unfold pageAllocLoop
    by_cases hi : (P.pagealloc i).inuse = true
    · rw [if_pos hi]
      rcases pageAllocLoop_cases is (P.touch .pagealloc i) with
        ⟨pre, k, post, rfl, hpre, hk, ht⟩ | ⟨hall, hk, ht⟩
      · refine Or.inl ⟨i :: pre, k, post, rfl, ?_, hk,
          ⟨ht.free, ht.links, ht.inuse, ht.pageNo, ht.fifo⟩⟩
        exact List.forall_mem_cons.mpr ⟨hi, hpre⟩
      · exact Or.inr ⟨List.forall_mem_cons.mpr ⟨hi, hall⟩, hk,
          ⟨ht.links, ht.inuse, ht.pageNo, ht.fifo⟩⟩
    · rw [if_neg hi]
      refine Or.inl ⟨[], i, is, rfl, by simp, rfl, by simpa [inuse] using hi, ?_, ?_, ?_, rfl⟩
      · simp only [Pool.links, Links.unlink, Links.mk.injEq]
        refine ⟨?_, ?_, rfl, rfl⟩ <;> funext j <;> simp only [pagealloc_modify, update_apply] <;>
          split_ifs <;> rfl
      · funext j
        simp only [inuse, pagealloc_modify, update_apply]
        split_ifs <;> rfl
      · funext j
        simp only [pageNo, pagealloc_modify]
        split_ifs with h <;> simp [h, touch]

/-- In a range, the numbers before an entry are the ones below it. -/
theorem range_split {n i : ℕ} {pre post : List ℕ} (h : List.range n = pre ++ i :: post) :
    i < n ∧ ∀ j < i, j ∈ pre := by
  have hs : (List.range n).Pairwise (· < ·) := List.pairwise_lt_range
  have hin : i ∈ List.range n := by rw [h]; simp
  refine ⟨List.mem_range.mp hin, fun j hj => ?_⟩
  have hjn : j ∈ List.range n := List.mem_range.mpr (hj.trans (List.mem_range.mp hin))
  rw [h, List.mem_append, List.mem_cons] at hjn
  rw [h, List.pairwise_append, List.pairwise_cons] at hs
  rcases hjn with hjn | rfl | hjn
  · exact hjn
  · exact absurd hj (lt_irrefl _)
  · exact absurd (hs.2.1.1 j hjn) (not_lt.mpr hj.le)

/-- `aja_stream_page_alloc` takes the lowest free page below `pagect` and
resets its links, or finds every page in use and changes nothing. -/
theorem alloc_cases (P : Pool) (pagect : ℤ) :
    (∃ p, 0 ≤ p ∧ p < pagect ∧ (∀ j, 0 ≤ j → j < p → P.inuse j = true) ∧
      (P.streamPageAlloc pagect).1 = p ∧ P.Takes p (P.streamPageAlloc pagect).2) ∨
    ((∀ j, 0 ≤ j → j < pagect → P.inuse j = true) ∧ (P.streamPageAlloc pagect).1 = -EAGAIN ∧
      P.Keeps (P.streamPageAlloc pagect).2) := by
  unfold streamPageAlloc
  rcases pageAllocLoop_cases (List.range pagect.toNat)
    P with ⟨pre, i, post, hr, hpre, h⟩ | ⟨hall, h⟩
  · obtain ⟨hi, hlt⟩ := range_split hr
    refine Or.inl ⟨i, by omega, by omega, fun j h0 hj => ?_, h⟩
    obtain ⟨k, rfl⟩ := Int.eq_ofNat_of_zero_le h0
    exact hpre k (hlt k (by omega))
  · refine Or.inr ⟨fun j h0 hj => ?_, h⟩
    obtain ⟨k, rfl⟩ := Int.eq_ofNat_of_zero_le h0
    exact hall k (List.mem_range.mpr (by omega))

@[simp] theorem links_clear_first (P : Pool) : P.clear.links.first = none := rfl
@[simp] theorem links_clear_last (P : Pool) : P.clear.links.last = none := rfl
@[simp] theorem fifo_clear (P : Pool) : P.clear.fifo = 0 := rfl

theorem next_clear (P : Pool) {i j : ℤ} (h : P.clear.links.next i = some j) :
    P.links.next i = some j := by
  simp only [links, clear] at h ⊢
  split_ifs at h
  exact h

theorem inuse_clear (P : Pool) {i : ℤ} (h1 : 0 ≤ i) (h2 : i < 64) : P.clear.inuse i = false := by
  simp [inuse, clear, ajaMaxpages, h1, h2]

theorem pageNo_clear (P : Pool) {i : ℤ} (h1 : 0 ≤ i) (h2 : i < 64) : P.clear.pageNo i = i := by
  simp [pageNo, clear, ajaMaxpages, h1, h2]

/-! ### The FIFO as a queue -/

/-- The pool's FIFO holds exactly the pages `q`, oldest first. -/
structure Holds (P : Pool) (q : List ℤ) : Prop where
  isQueue : P.links.IsQueue q
  numbered : ∀ i, 0 ≤ i → i < 64 → P.pageNo i = i
  valid : ∀ p ∈ q, 0 ≤ p ∧ p < 64

theorem holds_clear (P : Pool) : P.clear.Holds [] where
  isQueue := ⟨rfl, trivial, rfl⟩
  numbered i h1 h2 := P.pageNo_clear h1 h2
  valid := by simp

/-- Only the links and the page numbers matter. -/
theorem Holds.congr {P P' : Pool} {q : List ℤ} (h : P.Holds q) (hl : P'.links = P.links)
    (hn : P'.pageNo = P.pageNo) : P'.Holds q :=
  ⟨hl ▸ h.isQueue, hn ▸ h.numbered, h.valid⟩

theorem Holds.free {P : Pool} {q : List ℤ} (h : P.Holds q) (p : ℤ) : (P.streamPageFree p).Holds q :=
  h.congr (P.links_free p) (P.pageNo_free p)

theorem Holds.push {P : Pool} {q : List ℤ} (h : P.Holds q) {p : ℤ} (h1 : 0 ≤ p) (h2 : p < 64)
    (hp : p ∉ q) : (P.streamFifoPush p).2.Holds (q ++ [p]) where
  isQueue := by rw [P.links_push h1 h2]; exact h.isQueue.push hp
  numbered := by rw [pageNo_push]; exact h.numbered
  valid := by
    intro a ha
    rcases List.mem_append.mp ha with ha | ha
    · exact h.valid a ha
    · rw [List.mem_singleton.mp ha]; exact ⟨h1, h2⟩

/-- Popping an empty FIFO takes no page. -/
theorem Holds.pop_nil {P : Pool} (h : P.Holds []) :
    P.streamFifoPop.1 = -EAGAIN ∧ P.streamFifoPop.2.Holds [] := by
  have hp := h.isQueue.pop_nil
  refine ⟨by rw [pop_ret, hp]; rfl, ?_⟩
  exact h.congr (by rw [links_pop, hp]) (pageNo_pop P)

/-- Popping takes the oldest page. -/
theorem Holds.pop_cons {P : Pool} {p : ℤ} {q : List ℤ} (h : P.Holds (p :: q)) :
    P.streamFifoPop.1 = p ∧ P.streamFifoPop.2.Holds q := by
  obtain ⟨hp, hq⟩ := h.isQueue.pop_cons
  obtain ⟨h1, h2⟩ := h.valid p (List.mem_cons_self ..)
  refine ⟨by rw [pop_ret, hp]; exact h.numbered p h1 h2, ?_, ?_, ?_⟩
  · rw [links_pop]; exact hq
  · rw [pageNo_pop]; exact h.numbered
  · exact fun a ha => h.valid a (List.mem_cons_of_mem _ ha)

theorem Holds.takes {P P' : Pool} {q : List ℤ} {p : ℤ} (h : P.Holds q) (ht : P.Takes p P')
    (hp : p ∉ q) : P'.Holds q where
  isQueue := by rw [ht.links]; exact h.isQueue.unlink hp
  numbered := by rw [ht.pageNo]; exact h.numbered
  valid := h.valid

theorem Holds.keeps {P P' : Pool} {q : List ℤ} (h : P.Holds q) (hk : P.Keeps P') : P'.Holds q :=
  h.congr hk.links hk.pageNo

theorem Holds.unique {P : Pool} {q q' : List ℤ} (h : P.Holds q) (h' : P.Holds q') : q = q' :=
  h.isQueue.unique h'.isQueue

theorem Holds.nodup {P : Pool} {q : List ℤ} (h : P.Holds q) : q.Nodup := h.isQueue.nodup

/-- Pages that are named once are no more than there are. -/
theorem length_le_pages {l : List ℤ} (hn : l.Nodup) (hv : ∀ p ∈ l, 0 ≤ p ∧ p < 64) :
    l.length ≤ 64 := by
  have hsub : l ⊆ (List.range 64).map fun i : ℕ => (i : ℤ) := fun p hp => by
    obtain ⟨h0, h64⟩ := hv p hp
    exact List.mem_map.mpr ⟨p.toNat, List.mem_range.mpr (by omega), by omega⟩
  have hle := (List.subperm_of_subset hn hsub).length_le
  rwa [List.length_map, List.length_range] at hle

/-- A FIFO holds at most 64 pages. -/
theorem Holds.length_le {P : Pool} {q : List ℤ} (h : P.Holds q) : q.length ≤ 64 :=
  length_le_pages h.nodup h.valid

/-! ### What any use leaves -/

/-- The indices of a page item. -/
def pageSet : Set ℤ := {i | 0 ≤ i ∧ i < 64}

theorem zero_mem_pageSet : (0 : ℤ) ∈ pageSet := ⟨le_rfl, by decide⟩

/-- The links are safe within the array, every item carries a page number of
the array, and no index used so far left its array. -/
structure Sound (P : Pool) : Prop where
  safe : P.links.Safe pageSet
  pages : ∀ i ∈ pageSet, P.pageNo i ∈ pageSet
  touched : ∀ e ∈ P.touched, 0 ≤ e.2 ∧ e.2 < e.1.size

theorem Sound.touch {P : Pool} (h : P.Sound) {t : Tbl} {i : ℤ} (h1 : 0 ≤ i) (h2 : i < t.size) :
    (P.touch t i).Sound :=
  ⟨h.safe, h.pages, List.forall_mem_cons.mpr ⟨⟨h1, h2⟩, h.touched⟩⟩

theorem Sound.touch_page {P : Pool} (h : P.Sound) {i : ℤ} (hi : i ∈ pageSet) :
    (P.touch .pagealloc i).Sound := h.touch hi.1 hi.2

theorem Sound.clear {P : Pool} (h : P.Sound) : P.clear.Sound where
  safe := by
    refine ⟨by simp, by simp, by simp, fun a b e => ?_, ?_⟩
    · exact h.safe.next_mem a b (P.next_clear e)
    · exact h.safe.acyclic.mono fun a b e => P.next_clear e
  pages i hi := by rw [P.pageNo_clear hi.1 hi.2]; exact hi
  touched e he := by
    rcases List.mem_append.mp he with he | he
    · obtain ⟨i, hi, rfl⟩ := List.mem_map.mp he
      have := List.mem_range.mp hi
      exact ⟨Int.natCast_nonneg i, by simpa [Tbl.size] using this⟩
    · exact h.touched e he

theorem Sound.free {P : Pool} (h : P.Sound) (p : ℤ) : (P.streamPageFree p).Sound where
  safe := by rw [links_free]; exact h.safe
  pages := by rw [pageNo_free]; exact h.pages
  touched := by
    unfold streamPageFree
    split_ifs with hp
    · exact h.touched
    · exact (h.touch (t := .pagealloc) (i := p) (by omega) (by simp only [Tbl.size]; omega)).touched

theorem Sound.push {P : Pool} (h : P.Sound) (p : ℤ) : (P.streamFifoPush p).2.Sound := by
  by_cases hp : 0 ≤ p ∧ p < 64
  · refine ⟨?_, ?_, ?_⟩
    · rw [P.links_push hp.1 hp.2]; exact h.safe.push hp
    · rw [pageNo_push]; exact h.pages
    · unfold streamFifoPush
      rw [if_neg (by simp [hp])]
      cases hz : P.plast with
      | none => exact ((h.touch_page hp).touch_page hp).touched
      | some z =>
        have hz' : z ∈ pageSet := h.safe.last_mem z hz
        exact (((h.touch_page hz').touch_page hp).touch_page hp).touched
  · rw [P.push_invalid hp]; exact h

/-- The number a pop returns is a page of the array, or `-EAGAIN`. -/
theorem Sound.pop_ret {P : Pool} (h : P.Sound) :
    P.streamFifoPop.1 = -EAGAIN ∨ P.streamFifoPop.1 ∈ pageSet := by
  rw [Pool.pop_ret]
  cases hp : P.links.pop.1 with
  | none => exact Or.inl rfl
  | some p =>
    right
    refine h.pages p (h.safe.first_mem p ?_)
    unfold Links.pop at hp
    cases hf : P.links.first with
    | none => rw [hf] at hp; simp at hp
    | some a =>
      rw [hf] at hp
      simp only at hp
      split at hp <;> simpa using hp

theorem Sound.pop {P : Pool} (h : P.Sound) : P.streamFifoPop.2.Sound where
  safe := by rw [links_pop]; exact h.safe.pop
  pages := by rw [pageNo_pop]; exact h.pages
  touched := by
    unfold streamFifoPop popFirst
    cases hf : P.pfirst with
    | none => exact h.touched
    | some p =>
      have hp : p ∈ pageSet := h.safe.first_mem p hf
      simp only
      cases hn : (P.pagealloc p).next with
      | none => exact (h.touch_page hp).touched
      | some n => exact ((h.touch_page hp).touch_page (h.safe.next_mem p n hn)).touched

theorem Sound.allocLoop_touched : ∀ (is : List ℕ) (P : Pool), P.Sound → (∀ i ∈ is, i < 64) →
    ∀ e ∈ (P.pageAllocLoop is).2.touched, 0 ≤ e.2 ∧ e.2 < e.1.size
  | [], _, h, _ => h.touched
  | i :: is, P, h, hb => by
    have hi : (i : ℤ) ∈ pageSet := ⟨by omega, by exact_mod_cast hb i (List.mem_cons_self ..)⟩
    unfold pageAllocLoop
    split_ifs
    · exact allocLoop_touched is _ (h.touch_page hi) fun j hj => hb j (List.mem_cons_of_mem _ hj)
    · exact ((h.touch_page hi).touch_page hi).touched

theorem Sound.alloc {P : Pool} (h : P.Sound) {pagect : ℤ} (hc : pagect ≤ 64) :
    (P.streamPageAlloc pagect).2.Sound := by
  have ht : ∀ e ∈ (P.streamPageAlloc pagect).2.touched, 0 ≤ e.2 ∧ e.2 < e.1.size :=
    allocLoop_touched _ P h fun i hi => by have := List.mem_range.mp hi; omega
  rcases P.alloc_cases pagect with ⟨p, -, -, -, -, hk⟩ | ⟨-, -, hk⟩
  · exact ⟨hk.links ▸ h.safe.unlink p, hk.pageNo ▸ h.pages, ht⟩
  · exact ⟨hk.links ▸ h.safe, hk.pageNo ▸ h.pages, ht⟩

end Pool

end AjaDriver
