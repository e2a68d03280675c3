/-
# What no client can break

From a freshly created card, under any sequence of operations with any
arguments and any interrupts between them: every index used into
`pagealloc`, `meta` and `last` is in range, `pfirst` is null exactly when
`plast` is, and the `next` links have no cycle (`structures_safe`). Pages
pushed twice, freed or allocated again while queued lose the FIFO's contents,
so nothing is said about those: the invariant is `Card.Sound`. What an invariant
of a card must be kept by is said once, for every run, by `Card.Kept`.
-/
import AjaDriver.View
import AjaDriver.Lib.Runs

namespace AjaDriver

open Function Pool

variable {TC : Type}

/-! ### Invariants of a card -/

section Kept

variable [Timecode TC]

/-- The card after the operations `ops`, in order. -/
def Card.run (M : ModParams) (c : Card TC) (ops : List (Op TC)) : Card TC :=
  ops.foldl (fun c op => (exec M c op).2) c

theorem Card.run_append (M : ModParams) (c : Card TC) (l m : List (Op TC)) :
    c.run M (l ++ m) = (c.run M l).run M m :=
  List.foldl_append

theorem Card.run_concat (M : ModParams) (c : Card TC) (l : List (Op TC)) (op : Op TC) :
    c.run M (l ++ [op]) = (exec M (c.run M l) op).2 :=
  List.foldl_concat ..

/-- A property of the view that an init, the uses of the pool and of the metadata
and the engines keep. -/
structure Card.Kept (I : Card TC → Prop) : Prop where
  view : ∀ {c d : Card TC}, I c → d.view = c.view → I d
  init : ∀ {c : Card TC}, I c → ∀ pid i, I (streamInit c pid i)
  touch : ∀ {c : Card TC}, I c → ∀ {p : ℤ}, p ∈ pageSet → I (c.touch .pagemeta p)
  setMeta : ∀ {c : Card TC}, I c → ∀ {p : ℤ}, p ∈ pageSet → ∀ m, I (c.setMeta p m)
  alloc : ∀ {c : Card TC}, I c → I (ioctlPageAlloc c).2
  free : ∀ {c : Card TC}, I c → ∀ p, I (ioctlPageFree c p).2
  push : ∀ {c : Card TC}, I c → ∀ p, I (ioctlFifoPush c p).2
  pop : ∀ {c : Card TC}, I c → I (ioctlFifoPop c).2
  freeup : ∀ {c : Card TC}, I c → ∀ x, I (streamFreeup x c)
  playback : ∀ {c : Card TC}, I c → I (streamPlayback c)
  capture : ∀ {c : Card TC}, I c → I (streamCapture c)

namespace Card.Kept

variable {I : Card TC → Prop}

theorem handleFrame (h : Kept I) {c : Card TC} (hc : I c) (irq : FrameIrq TC) :
    I (handleFrame irq c) := by
  cases hf : irq.field with
  | true => exact h.view hc (view_handleFrame_second hf c)
  | false =>
    have hup := h.freeup (h.view hc (view_frameCount irq c)) irq.freeupIn
    refine h.view ?_ (view_handleFrame_first hf c)
    split_ifs
    · exact h.capture (h.playback (h.view hup (view_frameAudio _)))
    · exact hup

/-- Every operation keeps it, whatever its arguments. -/
theorem exec (h : Kept I) {c : Card TC} (hc : I c) (M : ModParams) (op : Op TC) :
    I (exec M c op).2 := by
  cases op with
  | streamInit pid i => exact h.init hc pid i
  | streamStart w => exact h.view hc (view_ioctlStreamStart c w)
  | streamStop w => exact h.view hc (view_ioctlStreamStop c w)
  | release pid => exact h.view hc (view_release c pid)
  | getmeta page =>
    show I (ioctlGetmeta c page).2
    unfold ioctlGetmeta
    by_cases hp : isValidPage page = true
    · rw [if_neg (by simp [hp])]
      exact h.touch hc ((isValidPage_iff page).mp hp)
    · rw [if_pos (by simp [hp])]
      exact hc
  | setmeta page m =>
    show I (ioctlSetmeta c page m).2
    unfold ioctlSetmeta
    by_cases hp : isValidPage page = true
    · rw [if_neg (by simp [hp])]
      exact h.setMeta hc ((isValidPage_iff page).mp hp) m
    · rw [if_pos (by simp [hp])]
      exact hc
  | pageAlloc => exact h.alloc hc
  | pageFree page => exact h.free hc page
  | fifoPush page => exact h.push hc page
  | fifoPop => exact h.pop hc
  | settrig trig => exact h.view hc (view_ioctlSettrig c trig)
  | frame irq => exact h.handleFrame hc irq
  | setspeed _ | aframeAdd _ | timecodeSetflags _ | timecodeClrflags _ | timecodeSet _ =>
    exact h.view hc rfl

theorem run (h : Kept I) (M : ModParams) :
    ∀ (ops : List (Op TC)) {c : Card TC}, I c → I (c.run M ops)
  | [], _, hc => hc
  | op :: ops, _, hc => run h M ops (h.exec hc M op)

end Card.Kept

end Kept

/-! ### What is sound -/

theorem Pool.Sound.bumpChans : ∀ (n : ℕ) {P : Pool}, P.Sound → (bumpChans n P).2.Sound
  | 0, _, h => h
  | n + 1, P, h => by
    unfold AjaDriver.bumpChans
    split_ifs
    · exact h.pop
    · exact h.pop.bumpChans n

theorem Pool.Sound.bumpLoop (chans : ℤ) : ∀ (k : ℕ) {P : Pool}, P.Sound →
    (bumpLoop chans k P).2.Sound
  | 0, _, h => h
  | k + 1, P, h => by
    unfold AjaDriver.bumpLoop
    split_ifs
    · exact h
    · exact (h.bumpChans _).bumpLoop chans k
    · exact h.bumpChans _

/-- The pool is sound, the channel count fits `last`, the page count fits the
arrays, and the last pages are pages. -/
structure Card.Sound (c : Card TC) : Prop where
  pool : c.stream.pool.Sound
  chans : c.stream.chans ≤ 2
  pagect : c.stream.pagect ≤ 64
  last : ∀ i, 0 ≤ i → i < 2 → (c.stream.last i).page ∈ pageSet

namespace Card.Sound

/-- Only the view matters. -/
theorem of_view {c d : Card TC} (h : d.Sound) (hv : c.view = d.view) : c.Sound where
  pool := by rw [pool_of_view hv]; exact h.pool
  chans := by rw [chans_of_view hv]; exact h.chans
  pagect := by rw [pagect_of_view hv]; exact h.pagect
  last := by rw [last_of_view hv]; exact h.last

theorem withPool {c : Card TC} (h : c.Sound) {P : Pool} (hP : P.Sound) : (c.withPool P).Sound :=
  ⟨hP, h.chans, h.pagect, h.last⟩

theorem prset {c : Card TC} (h : c.Sound) (r : Register) (v : ℤ) : (c.prset r v).Sound :=
  ⟨h.pool, h.chans, h.pagect, h.last⟩

theorem touch_meta {c : Card TC} (h : c.Sound) {p : ℤ} (hp : p ∈ pageSet) :
    (c.touch .pagemeta p).Sound :=
  h.withPool (h.pool.touch hp.1 hp.2)

theorem setMeta {c : Card TC} (h : c.Sound) {p : ℤ} (hp : p ∈ pageSet) (m : StreamMeta TC) :
    (c.setMeta p m).Sound :=
  ⟨(h.touch_meta hp).pool, h.chans, h.pagect, h.last⟩

theorem setLast {c : Card TC} (h : c.Sound) {n : ℤ} (h0 : 0 ≤ n) (h2 : n < 2) {l : LastPage}
    (hl : l.page ∈ pageSet) : (c.setLast n l).Sound where
  pool := h.pool.touch h0 h2
  chans := h.chans
  pagect := h.pagect
  last i hi hi2 := by
    show (update c.stream.last n l i).page ∈ pageSet
    rw [update_apply]
    split_ifs
    · exact hl
    · exact h.last i hi hi2

/-! ### The engines -/

theorem freeupSlot {c : Card TC} (h : c.Sound) (x : FreeupIn TC) {i : ℤ} (h0 : 0 ≤ i) (h2 : i < 2) :
    (freeupSlot x i c).Sound := by
  have hl := h.last i h0 h2
  unfold AjaDriver.freeupSlot
  simp only
  refine Card.Sound.setLast ?_ h0 h2 hl
  have hfree : (if (c.stream.last i).type &&& ajaPlayback ≠ 0 then
      c.withPool (c.stream.pool.streamPageFree (c.stream.last i).page) else c).Sound := by
    split_ifs
    · exact h.withPool (h.pool.free _)
    · exact h
  by_cases hc : (c.stream.last i).type &&& ajaCapture ≠ 0
  · rw [if_pos hc]
    have hm :=
      hfree.setMeta hl
        (x.mark (Stream.pagemeta (Card.stream (if (c.stream.last i).type &&& ajaPlayback ≠ 0
      then c.withPool (c.stream.pool.streamPageFree (c.stream.last i).page) else c))
        (c.stream.last i).page))
    exact hm.withPool (hm.pool.push _)
  · rw [if_neg hc]; exact hfree

theorem freeup {c : Card TC} (h : c.Sound) (x : FreeupIn TC) : (streamFreeup x c).Sound :=
  (h.freeupSlot x (by omega) (by omega)).freeupSlot x (by omega) (by omega)

/-- Loading a channel; the page it returns, if any, is a page. -/
theorem playbackFrame {c : Card TC} (h : c.Sound) {n : ℤ} (h0 : 0 ≤ n) (h2 : n < 2) :
    (streamPlaybackFrame c n).2.Sound ∧
      (0 ≤ (streamPlaybackFrame c n).1 → (streamPlaybackFrame c n).1 ∈ pageSet) := by
  unfold streamPlaybackFrame
  simp only
  have hp := h.withPool h.pool.pop
  rcases h.pool.pop_ret with hr | hr
  · rw [hr, if_pos (by decide)]
    exact ⟨hp, fun hn => by simp [ENOMEM] at hn⟩
  · rw [if_neg (by have := hr.1; omega)]
    have hm := hp.touch_meta hr
    split_ifs
    · exact ⟨hm, fun hn => by simp [EINVAL] at hn⟩
    · exact ⟨(hm.prset _ _).setLast h0 h2 hr, fun _ => hr⟩
    · exact ⟨(hm.prset _ _).setLast h0 h2 hr, fun _ => hr⟩

theorem loadLoop : ∀ (k : ℕ) (n newp : ℤ) {c : Card TC}, c.Sound → 0 ≤ n → n + k ≤ 2 →
    newp ∈ pageSet → (loadLoop k n newp c).2.Sound ∧
      ∀ p, (loadLoop k n newp c).1 = some p → p ∈ pageSet
  | 0, _, _, _, h, _, _, hp => ⟨h, fun p e => by cases e; exact hp⟩
  | k + 1, n, newp, c, h, h0, h2, hp => by
    obtain ⟨hs, hr⟩ := h.playbackFrame (n := n) h0 (by push_cast at h2; omega)
    unfold AjaDriver.loadLoop
    simp only
    split_ifs with hneg
    · exact ⟨hs, fun p e => by cases e⟩
    · exact loadLoop k _ _ hs (by omega) (by push_cast at h2; omega) (hr (by omega))
    · exact loadLoop k _ _ hs (by omega) (by push_cast at h2; omega) hp

/-- Arming a channel; the page it returns, if any, is a page. -/
theorem captureFrame {c : Card TC} (h : c.Sound) {n : ℤ} (h0 : 0 ≤ n) (h2 : n < 2) :
    (streamCaptureFrame c n).2.Sound ∧
      (0 ≤ (streamCaptureFrame c n).1 → (streamCaptureFrame c n).1 ∈ pageSet) := by
  have hc := h.pagect
  have hp := h.withPool (h.pool.alloc hc)
  unfold streamCaptureFrame
  simp only
  rcases c.stream.pool.alloc_cases c.stream.pagect with ⟨p, hp0, hpc, -, hr, -⟩ | ⟨-, hr, -⟩
  · have hpage : (c.stream.pool.streamPageAlloc c.stream.pagect).1 ∈ pageSet := by
      rw [hr]
      exact ⟨hp0, by omega⟩
    rw [if_neg (by omega)]
    exact ⟨(hp.prset _ _).setLast h0 h2 hpage, fun _ => hpage⟩
  · rw [hr, if_pos (by decide)]
    exact ⟨hp, fun hn => by simp [ENOMEM] at hn⟩

section Engine

variable [Timecode TC]

theorem playbackMeta {c : Card TC} (h : c.Sound) {p : ℤ} (hp : p ∈ pageSet) :
    (playbackMeta p c).Sound := by
  have hend : ∀ d : Card TC, d.Sound →
    ((d.setPriv (d.stream.pagemeta p).priv).setMeta p StreamMeta.zero).Sound :=
    fun d hd => Card.Sound.setMeta (hd.of_view (view_setPriv d _)) hp _
  unfold AjaDriver.playbackMeta
  apply hend _
  split_ifs
  · exact Card.Sound.setMeta ((h.touch_meta hp).of_view (view_mapTcg _ _)) hp _
  · exact h.touch_meta hp

theorem playbackLoad {c : Card TC} (h : c.Sound) : (playbackLoad c).Sound := by
  have hc := h.chans
  obtain ⟨hs, hr⟩ := h.loadLoop c.stream.chans.toNat 0 0 le_rfl (by omega) ⟨le_rfl, by omega⟩
  rcases playbackLoad_cases c with ⟨-, he⟩ | ⟨p, hp, he⟩
  · rw [he]
    exact hs
  · rw [he]
    exact hs.playbackMeta (hr p hp)

theorem playback {c : Card TC} (h : c.Sound) : (streamPlayback c).Sound := by
  have hcount : c.counted.Sound := h.of_view rfl
  have hbump :=
    hcount.withPool (h.pool.bumpLoop c.stream.chans ((streamSpeedcount c.stream).1 - 1).toNat)
  rcases streamPlayback_cases c with ⟨-, he⟩ | he | he | he | he | he <;> rw [he]
  · exact h
  · exact h.of_view rfl
  · exact hcount
  · exact hbump.of_view rfl
  · exact hbump
  · exact hbump.playbackLoad

theorem captureLoop (inc : ℤ) : ∀ (k : ℕ) {c : Card TC} {n : ℤ}, c.Sound → 0 ≤ n → n + k ≤ 2 →
    (captureLoop inc k n c).Sound
  | 0, _, _, h, _, _ => h
  | k + 1, c, n, h, h0, h2 => by
    push_cast at h2
    obtain ⟨hs, hr⟩ := h.captureFrame (n := n) h0 (by omega)
    unfold AjaDriver.captureLoop
    simp only
    split_ifs with hneg
    · exact hs
    · exact captureLoop inc k (hs.setMeta (hr (by omega)) _) (by omega) (by omega)

theorem capture {c : Card TC} (h : c.Sound) : (streamCapture c).Sound := by
  rcases streamCapture_cases c with ⟨-, he⟩ | he | he <;> rw [he]
  · exact h
  · exact h.of_view rfl
  · have hc := h.chans
    refine captureLoop _ _ ?_ le_rfl ?_
    · exact of_view (d := c) h (view_captureBump _ _)
    · show (0 : ℤ) + c.stream.chans.toNat ≤ 2
      omega

end Engine

/-! ### Operations -/

theorem streamInit {c : Card TC} (h : c.Sound) (pid : ℤ) (i : StreamInit) :
    (streamInit c pid i).Sound := by
  refine ⟨?_, ?_, ?_, ?_⟩ <;> rw [stream_streamInit]
  · exact h.pool.clear
  · exact clampChans_le i.chans
  · show (if i.pagect > (ajaMaxpages : ℤ) then (ajaMaxpages : ℤ) else i.pagect) ≤ 64
    simp only [ajaMaxpages]
    split_ifs <;> omega
  · intro n h0 h2
    show (if 0 ≤ n ∧ n < (ajaMaxchans : ℤ) then (⟨0, 0⟩ : LastPage)
      else c.stream.last n).page ∈ pageSet
    rw [if_pos ⟨h0, h2⟩]
    exact zero_mem_pageSet

variable [Timecode TC]

/-- Every operation keeps the card sound. -/
theorem kept : Card.Kept fun c : Card TC => c.Sound where
  view h hv := h.of_view hv
  init h := h.streamInit
  touch h _ hp := h.touch_meta hp
  setMeta h _ hp := h.setMeta hp
  alloc h := h.withPool (h.pool.alloc h.pagect)
  free h p := h.withPool (h.pool.free p)
  push h p := h.withPool (h.pool.push p)
  pop h := h.withPool h.pool.pop
  freeup h := h.freeup
  playback h := h.playback
  capture h := h.capture

end Card.Sound

/-! ### Runs from a new card -/

variable [Timecode TC]

theorem Card.Sound.new (pcitc p2slave : Bool) : (Card.new pcitc p2slave : Card TC).Sound where
  pool := ⟨Intrusive.Links.safe_empty _ _, fun _ _ => zero_mem_pageSet, by simp [Card.new]⟩
  chans := by simp [Card.new]
  pagect := by simp [Card.new]
  last _ _ _ := zero_mem_pageSet

theorem Card.Sound.run (M : ModParams) (ops : List (Op TC)) {c : Card TC} (h : c.Sound) :
    (c.run M ops).Sound :=
  Card.Sound.kept.run M ops h

/-- Any operations on a new card keep every index into `pagealloc`, `meta` and
`last` in range, the two ends of the FIFO null together and its links free of
cycles. -/
theorem structures_safe (M : ModParams) (pcitc p2slave : Bool) (ops : List (Op TC)) :
    let P := ((Card.new pcitc p2slave : Card TC).run M ops).stream.pool
    (∀ e ∈ P.touched, 0 ≤ e.2 ∧ e.2 < e.1.size) ∧ (P.pfirst = none ↔ P.plast = none) ∧
      Intrusive.Acyclic fun i => (P.pagealloc i).next := by
  have h := (Card.Sound.new pcitc p2slave : (Card.new pcitc p2slave : Card TC).Sound).run M ops
  exact ⟨h.pool.touched, h.pool.safe.ends, h.pool.safe.acyclic⟩

end AjaDriver
