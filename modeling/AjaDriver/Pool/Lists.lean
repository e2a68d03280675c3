/-
# The FIFO under any use

Pages pushed twice, or allocated again while queued, leave the `prev` links and
the newest page wrong. The FIFO is still a list of pages: the one that `next`
lists from `pfirst` on (`exists_lists`), and popping takes its pages in order
(`Lists.pop_cons`), the level beside it being any number. It rests on what every
operation leaves alone, the numbers of the pages and the range of the level
(`Uses`).
-/
import AjaDriver.Ready.Runs
import Mathlib.Data.Int.Interval

namespace AjaDriver

open Function Word Intrusive

variable {TC : Type}

namespace Pool

/-! ### The list and its pops -/

/-- The FIFO lists the pages `q`, oldest first; the level is any `int`. -/
structure Lists (P : Pool) (q : List ℤ) : Prop where
  chain : Chain P.links.next P.links.first q
  pages : ∀ p ∈ q, 0 ≤ p ∧ P.pageNo p = p
  ranged : wrap P.fifo = P.fifo

variable {P P' : Pool} {q : List ℤ}

theorem Lists.keeps (h : P.Lists q) (hk : P.Keeps P') : P'.Lists q :=
  ⟨hk.links ▸ h.chain, hk.pageNo ▸ h.pages, by rw [hk.fifo]; exact h.ranged⟩

theorem Lists.pop_nil (h : P.Lists []) :
    P.streamFifoPop.1 = -EAGAIN ∧ P.streamFifoPop.2.Lists [] := by
  have hp := Links.pop_of_nil h.chain
  refine ⟨by rw [pop_ret, hp]; rfl, ?_, by simp, by simp⟩
  rw [links_pop, hp]
  exact h.chain

/-- Popping takes the oldest page. -/
theorem Lists.pop_cons {p : ℤ} (h : P.Lists (p :: q)) :
    P.streamFifoPop.1 = p ∧ P.streamFifoPop.2.Lists q := by
  obtain ⟨hp, hq⟩ := Links.pop_of_cons h.chain
  refine ⟨?_, ?_, ?_, by simp⟩
  · rw [pop_ret, hp]
    exact (h.pages p (List.mem_cons_self ..)).2
  · rw [links_pop]
    exact hq
  · rw [pageNo_pop]
    exact fun a ha => h.pages a (List.mem_cons_of_mem _ ha)

theorem lists_listing : Listing Lists where
  nil h := ⟨by rw [h.pop_nil.1]; decide, h.pop_nil.2⟩
  cons h := ⟨h.pop_cons.1, (h.pages _ (List.mem_cons_self ..)).1, h.pop_cons.2⟩

/-- The bump takes the pages of the rounds that its level allows, or of all the
FIFO. -/
theorem Lists.bumpLoop {c : ℕ} (hc : 0 < c) (k : ℕ) (h : P.Lists q) :
    (bumpLoop c k P).2.Lists (q.drop (bumpRounds c P.fifo k * c)) ∧
      (bumpLoop c k P).1 = (if q.length < bumpRounds c P.fifo k * c then .dry
        else if bumpRounds c P.fifo k < k then .short else .done) := by
  have hloop := lists_listing.bumpLoop hc k h h.ranged
  by_cases hdry : q.length < bumpRounds c P.fifo k * c
  · rw [if_pos hdry] at hloop ⊢
    have hreads := hloop.2.reads
    rw [List.drop_eq_nil_of_le (Nat.le_succ _)] at hreads
    rw [List.drop_eq_nil_of_le hdry.le]
    exact ⟨hreads, hloop.1⟩
  · rw [if_neg hdry] at hloop ⊢
    exact ⟨hloop.2.reads, hloop.1⟩

/-! ### What every operation leaves alone -/

/-- `P'` is `P` after operations: the pages have their numbers, and the level is an
`int` if it was one. -/
structure Uses (P P' : Pool) : Prop where
  pageNo : P'.pageNo = P.pageNo
  ranged : wrap P.fifo = P.fifo → wrap P'.fifo = P'.fifo

theorem Uses.refl (P : Pool) : Uses P P := ⟨rfl, id⟩

theorem Uses.trans {P'' : Pool} (h : Uses P P') (h' : Uses P' P'') : Uses P P'' :=
  ⟨h'.pageNo.trans h.pageNo, h'.ranged ∘ h.ranged⟩

theorem uses_touch (P : Pool) (t : Tbl) (i : ℤ) : Uses P (P.touch t i) := ⟨rfl, id⟩

theorem uses_free (P : Pool) (p : ℤ) : Uses P (P.streamPageFree p) :=
  ⟨P.pageNo_free p, by rw [fifo_free]; exact id⟩

theorem uses_push (P : Pool) (p : ℤ) : Uses P (P.streamFifoPush p).2 := by
  refine ⟨P.pageNo_push p, fun hr => ?_⟩
  by_cases hp : 0 ≤ p ∧ p < 64
  · rw [P.fifo_push hp.1 hp.2, wrap_wrap]
  · rw [P.push_invalid hp]
    exact hr

theorem uses_pop (P : Pool) : Uses P P.streamFifoPop.2 :=
  ⟨P.pageNo_pop, fun _ => by rw [fifo_pop, wrap_wrap]⟩

theorem uses_alloc (P : Pool) (pagect : ℤ) : Uses P (P.streamPageAlloc pagect).2 := by
  rcases P.alloc_cases pagect with ⟨p, -, -, -, -, ht⟩ | ⟨-, -, hk⟩
  · exact ⟨ht.pageNo, by rw [ht.fifo]; exact id⟩
  · exact ⟨hk.pageNo, by rw [hk.fifo]; exact id⟩

theorem uses_bumpChans : ∀ (n : ℕ) (P : Pool), Uses P (AjaDriver.bumpChans n P).2
  | 0, P => .refl P
  | n + 1, P => by
    unfold AjaDriver.bumpChans
    split_ifs
    · exact P.uses_pop
    · exact P.uses_pop.trans (uses_bumpChans n _)

theorem uses_bumpLoop (chans : ℤ) : ∀ (k : ℕ) (P : Pool), Uses P (AjaDriver.bumpLoop chans k P).2
  | 0, P => .refl P
  | k + 1, P => by
    unfold AjaDriver.bumpLoop
    split_ifs
    · exact .refl P
    · exact (P.uses_bumpChans _).trans (uses_bumpLoop chans k _)
    · exact P.uses_bumpChans _

end Pool

open Pool Card

theorem uses_of_view {c d : Card TC} (h : d.view = c.view) : Uses c.stream.pool d.stream.pool := by
  rw [pool_of_view h]
  exact .refl _

theorem uses_setMeta (c : Card TC) (p : ℤ) (m : StreamMeta TC) :
    Uses c.stream.pool (c.setMeta p m).stream.pool :=
  uses_touch _ .pagemeta p

theorem uses_freeupSlot (x : FreeupIn TC) (i : ℤ) (c : Card TC) :
    Uses c.stream.pool (freeupSlot x i c).stream.pool := by
  have hfree : ∀ P : Pool, Uses P (P.streamPageFree (c.stream.last i).page) :=
    fun P => P.uses_free _
  have hpush :
    ∀ P : Pool,
      Uses P ((P.touch .pagemeta (c.stream.last i).page).streamFifoPush (c.stream.last i).page).2 :=
    fun P => (P.uses_touch _ _).trans (uses_push _ _)
  unfold freeupSlot
  simp only
  split_ifs
  · exact ((hfree _).trans (hpush _)).trans (uses_touch _ .last i)
  · exact (hpush _).trans (uses_touch _ .last i)
  · exact (hfree _).trans (uses_touch _ .last i)
  · exact uses_touch _ .last i

theorem uses_freeup (x : FreeupIn TC) (c : Card TC) :
    Uses c.stream.pool (streamFreeup x c).stream.pool :=
  (uses_freeupSlot x 0 c).trans (uses_freeupSlot x 1 _)

theorem uses_playbackFrame (c : Card TC) (n : ℤ) :
    Uses c.stream.pool (streamPlaybackFrame c n).2.stream.pool := by
  unfold streamPlaybackFrame
  simp only
  split_ifs
  · exact uses_pop _
  · exact (uses_pop _).trans (uses_touch _ .pagemeta _)
  all_goals exact ((uses_pop _).trans (uses_touch _ .pagemeta _)).trans (uses_touch _ .last n)

theorem uses_loadLoop (k : ℕ) (n newp : ℤ) (c : Card TC) :
    Uses c.stream.pool (loadLoop k n newp c).2.stream.pool :=
  loadLoop_rel (R := fun c d => Uses c.stream.pool d.stream.pool) (fun _ => .refl _)
    (fun _ _ _ => .trans)
    uses_playbackFrame k n newp c

theorem uses_captureFrame (c : Card TC) (n : ℤ) :
    Uses c.stream.pool (streamCaptureFrame c n).2.stream.pool := by
  unfold streamCaptureFrame
  simp only
  split_ifs
  · exact uses_alloc _ _
  all_goals exact (uses_alloc _ _).trans (uses_touch _ .last n)

variable [Timecode TC]

theorem uses_playbackLoad (c : Card TC) : Uses c.stream.pool (playbackLoad c).stream.pool := by
  have hloop := uses_loadLoop c.stream.chans.toNat 0 0 c
  rcases playbackLoad_cases c with ⟨-, he⟩ | ⟨p, -, he⟩
  · rw [he]
    exact hloop
  · have hkeeps := (playbackMeta_metaOnly p (loadLoop c.stream.chans.toNat 0 0 c).2).keeps
    rw [he]
    exact hloop.trans ⟨hkeeps.pageNo, by rw [hkeeps.fifo]; exact id⟩

theorem uses_playback (c : Card TC) : Uses c.stream.pool (streamPlayback c).stream.pool := by
  have hbump := uses_bumpLoop c.stream.chans ((streamSpeedcount c.stream).1 - 1).toNat c.stream.pool
  rcases streamPlayback_cases c with ⟨-, he⟩ | he | he | he | he | he <;> rw [he]
  · exact .refl _
  · exact .refl _
  · exact .refl _
  · exact hbump
  · exact hbump
  · exact hbump.trans (uses_playbackLoad (c.counted.withPool _))

theorem uses_captureLoop (inc : ℤ) (k : ℕ) (n : ℤ) (c : Card TC) :
    Uses c.stream.pool (captureLoop inc k n c).stream.pool :=
  captureLoop_rel (R := fun c d => Uses c.stream.pool d.stream.pool) (fun _ => .refl _)
    (fun _ _ _ => .trans)
    uses_captureFrame uses_setMeta inc k n c

theorem uses_capture (c : Card TC) : Uses c.stream.pool (streamCapture c).stream.pool := by
  rcases streamCapture_cases c with ⟨-, he⟩ | he | he <;> rw [he]
  · exact .refl _
  · exact .refl _
  · have hbump : Uses c.stream.pool (captureBump c.due c.counted).stream.pool :=
      uses_of_view (view_captureBump c.counted c.due)
    exact hbump.trans (uses_captureLoop _ _ _ _)

/-! ### In every run -/

/-- The level is an `int`, and once a stream has a direction every page carries its
own number. -/
structure Card.Filed (c : Card TC) : Prop where
  ranged : wrap c.stream.pool.fifo = c.stream.pool.fifo
  numbered : c.stream.flags = 0 ∨ ∀ i ∈ pageSet, c.stream.pool.pageNo i = i

namespace Card.Filed

variable {c d : Card TC}

omit [Timecode TC] in
theorem uses (h : c.Filed) (hflags : d.stream.flags = c.stream.flags)
    (hpool : Uses c.stream.pool d.stream.pool) :
    d.Filed where
  ranged := hpool.ranged h.ranged
  numbered := by
    rw [hflags, hpool.pageNo]
    exact h.numbered

omit [Timecode TC] in
theorem of_view (h : c.Filed) (hv : d.view = c.view) : d.Filed :=
  h.uses (flags_of_view hv) (uses_of_view hv)

omit [Timecode TC] in
theorem freeup (h : c.Filed) (x : FreeupIn TC) : (streamFreeup x c).Filed :=
  h.uses (steady_freeup x c).flags (uses_freeup x c)

omit [Timecode TC] in
theorem streamInit (c : Card TC) (pid : ℤ) (i : StreamInit) : (streamInit c pid i).Filed := by
  have hpool : (AjaDriver.streamInit c pid i).stream.pool = c.stream.pool.clear := by
    rw [stream_streamInit]
    rfl
  constructor
  · rw [hpool]
    rfl
  · rw [hpool]
    exact Or.inr fun p hp => pageNo_clear _ hp.1 hp.2

/-- Every operation keeps the card filed. -/
theorem kept : Card.Kept fun c : Card TC => c.Filed where
  view h hv := h.of_view hv
  init _ := streamInit _
  touch h _ _ := h.uses rfl (uses_touch _ _ _)
  setMeta h _ _ _ := h.uses rfl (uses_setMeta _ _ _)
  alloc h := h.uses rfl (uses_alloc _ _)
  free h _ := h.uses rfl (uses_free _ _)
  push h _ := h.uses rfl (uses_push _ _)
  pop h := h.uses rfl (uses_pop _)
  freeup h := h.freeup
  playback h := h.uses (retyped_streamPlayback _).flags (uses_playback _)
  capture h := h.uses (retyped_streamCapture _).flags (uses_capture _)

end Card.Filed

theorem Card.Filed.new (pcitc p2slave : Bool) : (Card.new pcitc p2slave : Card TC).Filed where
  ranged := rfl
  numbered := Or.inl rfl

omit [Timecode TC] in
/-- The FIFO of a stream that has a direction is a list of pages. -/
theorem exists_lists {c : Card TC} (hsound : c.Sound) (hfiled : c.Filed)
    (hflags : c.stream.flags ≠ 0) :
    ∃ q, c.stream.pool.Lists q := by
  have hfinite : pageSet.Finite := Set.finite_Ico 0 64
  obtain ⟨q, hchain, hmem⟩ := hsound.pool.safe.exists_chain hfinite
  have hnumbered := hfiled.numbered.resolve_left hflags
  exact ⟨q, hchain, fun p hp => ⟨(hmem p hp).1, hnumbered p (hmem p hp)⟩, hfiled.ranged⟩

end AjaDriver
