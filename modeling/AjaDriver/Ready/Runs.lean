/-
# Every running playback stream is ready

What `Ready` asks of the last pages and of the number of channels holds in every
run of a card, whatever the client does: the type of a last page is 0 or a
direction of the stream, since `STREAM_INIT` clears both (`Card.Marked`). So a
playback stream that runs is ready as soon as its FIFO is a list and its level
the length of it (`ready_run`).
-/
import AjaDriver.Ready
import AjaDriver.Safety

namespace AjaDriver

open Function Card

variable {TC : Type}

/-! ### The types of the last pages -/

/-- `d` has the directions and the channels of `c`, and the types of its last pages
are those of `c`, or `t`. -/
structure Retyped (t : BitVec 32) (c d : Card TC) : Prop where
  flags : d.stream.flags = c.stream.flags
  chans : d.stream.chans = c.stream.chans
  last : ∀ i, (d.stream.last i).type = (c.stream.last i).type ∨ (d.stream.last i).type = t

section Retyped

variable {t : BitVec 32}

theorem Retyped.of_view {c d : Card TC} (h : d.view = c.view) : Retyped t c d where
  flags := flags_of_view h
  chans := chans_of_view h
  last i := by
    rw [last_of_view h]
    exact Or.inl rfl

theorem Retyped.of_steady {c d : Card TC} (h : Steady c d) (hlast : d.stream.last = c.stream.last) :
    Retyped t c d where
  flags := h.flags
  chans := h.chans
  last i := by
    rw [hlast]
    exact Or.inl rfl

theorem Retyped.trans {c d e : Card TC} (h : Retyped t c d) (h' : Retyped t d e) :
    Retyped t c e where
  flags := h'.flags.trans h.flags
  chans := h'.chans.trans h.chans
  last i := by
    rcases h'.last i with hi | hi
    · rw [hi]
      exact h.last i
    · exact Or.inr hi

theorem retyped_withPool (c : Card TC) (P : Pool) : Retyped t c (c.withPool P) :=
  .of_steady (steady_withPool c P) rfl

/-- A channel is given a page. -/
theorem Retyped.setLast {c d : Card TC} (h : Retyped t c d) (n p : ℤ) :
    Retyped t c (d.setLast n ⟨p, t⟩) where
  flags := h.flags
  chans := h.chans
  last i := by
    show ((update d.stream.last n ⟨p, t⟩ i).type = _) ∨ (update d.stream.last n ⟨p, t⟩ i).type = t
    rw [update_apply]
    split_ifs
    · exact Or.inr rfl
    · exact h.last i

end Retyped

theorem retyped_freeup (x : FreeupIn TC) (c : Card TC) : Retyped 0 c (streamFreeup x c) where
  flags := (steady_freeup x c).flags
  chans := (steady_freeup x c).chans
  last i := by
    unfold streamFreeup
    rw [last_freeupSlot, update_apply]
    split_ifs
    · exact Or.inr rfl
    · rw [last_freeupSlot, update_apply]
      split_ifs
      · exact Or.inr rfl
      · exact Or.inl rfl

theorem retyped_playbackFrame (c : Card TC) (n : ℤ) :
    Retyped ajaPlayback c (streamPlaybackFrame c n).2 := by
  unfold streamPlaybackFrame
  simp only
  split_ifs
  · exact retyped_withPool c _
  · exact retyped_withPool c _
  all_goals
    dsimp only
    apply Retyped.setLast
    exact .of_steady ⟨rfl, rfl, rfl, rfl, rfl, rfl⟩ rfl

theorem retyped_loadLoop (k : ℕ) (n newp : ℤ) (c : Card TC) :
    Retyped ajaPlayback c (loadLoop k n newp c).2 :=
  loadLoop_rel (fun _ => .of_view rfl) (fun _ _ _ => .trans) retyped_playbackFrame k n newp c

theorem retyped_captureFrame (c : Card TC) (n : ℤ) :
    Retyped ajaCapture c (streamCaptureFrame c n).2 := by
  unfold streamCaptureFrame
  simp only
  split_ifs
  · exact retyped_withPool c _
  all_goals
    dsimp only
    apply Retyped.setLast
    exact .of_steady ⟨rfl, rfl, rfl, rfl, rfl, rfl⟩ rfl

variable [Timecode TC]

theorem retyped_captureLoop (inc : ℤ) (k : ℕ) (n : ℤ) (c : Card TC) :
    Retyped ajaCapture c (captureLoop inc k n c) :=
  captureLoop_rel (fun _ => .of_view rfl) (fun _ _ _ => .trans) retyped_captureFrame
    (fun d p m => .of_steady (steady_setMeta d p m) rfl) inc k n c

theorem retyped_playbackLoad (c : Card TC) : Retyped ajaPlayback c (playbackLoad c) := by
  have hloop := retyped_loadLoop c.stream.chans.toNat 0 0 c
  rcases playbackLoad_cases c with ⟨-, he⟩ | ⟨p, -, he⟩
  · rw [he]
    exact hloop
  · have hmeta := playbackMeta_metaOnly p (loadLoop c.stream.chans.toNat 0 0 c).2
    rw [he]
    exact hloop.trans (.of_steady hmeta.steady hmeta.last)

/-- The playback engine, on a stream with `AJA_Playback`. -/
theorem retyped_streamPlayback (c : Card TC) : Retyped ajaPlayback c (streamPlayback c) := by
  have hcounted : Retyped ajaPlayback c c.counted := .of_view rfl
  have hbump :=
    hcounted.trans
      (retyped_withPool _ (bumpLoop c.stream.chans ((streamSpeedcount c.stream).1 - 1).toNat
    c.stream.pool).2)
  rcases streamPlayback_cases c with ⟨-, he⟩ | he | he | he | he | he <;> rw [he]
  · exact .of_view rfl
  · exact .of_view rfl
  · exact hcounted
  · exact hbump.trans (.of_view rfl)
  · exact hbump
  · exact hbump.trans (retyped_playbackLoad _)

/-- The capture engine, on a stream with `AJA_Capture`. -/
theorem retyped_streamCapture (c : Card TC) : Retyped ajaCapture c (streamCapture c) := by
  rcases streamCapture_cases c with ⟨-, he⟩ | he | he <;> rw [he]
  · exact .of_view rfl
  · exact .of_view rfl
  · have hbump : Retyped ajaCapture c (captureBump c.due c.counted) :=
      .of_view (view_captureBump c.counted c.due)
    exact hbump.trans (retyped_captureLoop _ _ _ _)

/-! ### In every run -/

/-- A stream that has a direction has a channel, and the types of the last pages are
directions that it has. -/
structure Card.Marked (c : Card TC) : Prop where
  chans : c.stream.flags = 0 ∨ 1 ≤ c.stream.chans
  last : ∀ i, 0 ≤ i → i < 2 →
    (c.stream.last i).type = 0 ∨ ∃ m : Mode, (c.stream.last i).type = m.type ∧
      c.stream.flags &&& m.type ≠ 0

namespace Card.Marked

variable {c d : Card TC}

omit [Timecode TC] in
theorem of_view (h : c.Marked) (hv : d.view = c.view) : d.Marked where
  chans := by
    rw [flags_of_view hv, chans_of_view hv]
    exact h.chans
  last := by
    rw [flags_of_view hv, last_of_view hv]
    exact h.last

omit [Timecode TC] in
/-- The pages freed up have no type any more. -/
theorem cleared (h : c.Marked) (hr : Retyped 0 c d) : d.Marked where
  chans := by
    rw [hr.flags, hr.chans]
    exact h.chans
  last i h0 h2 := by
    rw [hr.flags]
    rcases hr.last i with hi | hi
    · rw [hi]
      exact h.last i h0 h2
    · exact Or.inl hi

omit [Timecode TC] in
/-- An engine that runs in a direction of the stream gives its pages that type. -/
theorem engine (h : c.Marked) {m : Mode} (hm : c.stream.flags &&& m.type ≠ 0)
    (hr : Retyped m.type c d) : d.Marked where
  chans := by
    rw [hr.flags, hr.chans]
    exact h.chans
  last i h0 h2 := by
    rw [hr.flags]
    rcases hr.last i with hi | hi
    · rw [hi]
      exact h.last i h0 h2
    · exact Or.inr ⟨m, hi, hm⟩

theorem playback (h : c.Marked) : (streamPlayback c).Marked := by
  by_cases hm : c.stream.flags &&& Mode.playback.type = 0
  · have hidle : streamPlayback c = c := if_pos hm
    rw [hidle]
    exact h
  · exact h.engine hm (retyped_streamPlayback c)

theorem capture (h : c.Marked) : (streamCapture c).Marked := by
  by_cases hm : c.stream.flags &&& Mode.capture.type = 0
  · have hidle : streamCapture c = c := if_pos hm
    rw [hidle]
    exact h
  · exact h.engine hm (retyped_streamCapture c)

omit [Timecode TC] in
theorem streamInit (c : Card TC) (pid : ℤ) (i : StreamInit) : (streamInit c pid i).Marked := by
  constructor <;> rw [stream_streamInit]
  · exact Or.inr (one_le_clampChans i.chans)
  · intro n h0 h2
    show (if 0 ≤ n ∧ n < (ajaMaxchans : ℤ) then (⟨0, 0⟩ : LastPage) else c.stream.last n).type = 0 ∨
      _
    rw [if_pos ⟨h0, h2⟩]
    exact Or.inl rfl

/-- Every operation keeps the card marked. -/
theorem kept : Card.Kept fun c : Card TC => c.Marked where
  view h hv := h.of_view hv
  init _ := streamInit _
  touch h _ _ := h.cleared (retyped_withPool _ _)
  setMeta h _ _ _ := h.cleared (.of_steady (steady_setMeta _ _ _) rfl)
  alloc h := h.cleared (retyped_withPool _ _)
  free h _ := h.cleared (retyped_withPool _ _)
  push h _ := h.cleared (retyped_withPool _ _)
  pop h := h.cleared (retyped_withPool _ _)
  freeup h _ := h.cleared (retyped_freeup _ _)
  playback h := h.playback
  capture h := h.capture

theorem run (M : ModParams) (ops : List (Op TC)) {c : Card TC} (h : c.Marked) :
    (c.run M ops).Marked :=
  kept.run M ops h

omit [Timecode TC] in
/-- A stream of one direction: the last pages are its own. -/
theorem typed (h : c.Marked) {m : Mode} (hm : m.Of c.stream.flags) : c.Typed m := by
  intro i h0 h2
  rcases h.last i h0 h2 with hi | ⟨m', hi, hflag⟩
  · exact Or.inl hi
  · cases m'
    · rw [hm.1.mp hflag]
      exact Or.inr hi
    · rw [hm.2.mp hflag]
      exact Or.inr hi

end Card.Marked

theorem Card.Marked.new (pcitc p2slave : Bool) : (Card.new pcitc p2slave : Card TC).Marked where
  chans := Or.inl rfl
  last _ _ _ := Or.inl rfl

omit [Timecode TC] in
/-- The pages that the channels were given last are pages. -/
theorem Card.Sound.lastPages {c : Card TC} (h : c.Sound) : ∀ p ∈ c.lastPages, 0 ≤ p ∧ p < 64 := by
  have hpending : ∀ i, 0 ≤ i → i < 2 → ∀ p ∈ c.pending i, 0 ≤ p ∧ p < 64 := by
    intro i h0 h2 p hp
    unfold pending at hp
    split_ifs at hp
    · exact absurd hp List.not_mem_nil
    · rw [List.mem_singleton.mp hp]
      exact h.last i h0 h2
  intro p hp
  rcases List.mem_append.mp hp with hp | hp
  · exact hpending 0 le_rfl (by decide) p hp
  · exact hpending 1 (by decide) (by decide) p hp

/-- Whatever was done to a new card: a playback stream that runs is ready, if its
FIFO holds the pages `q` and its level is their number. -/
theorem ready_run (M : ModParams) (pcitc p2slave : Bool) (ops : List (Op TC)) {q : List ℤ} :
    let c := (Card.new pcitc p2slave : Card TC).run M ops
    Mode.playback.Of c.stream.flags → c.stream.running = true → c.stream.pool.Holds q →
      c.stream.pool.fifo = q.length → Ready c.stream.chans.toNat c q := by
  intro c hmode hrun hholds hlevel
  have hsound : c.Sound := (Card.Sound.new pcitc p2slave).run M ops
  have hmarked : c.Marked := (Card.Marked.new pcitc p2slave).run M ops
  have htwo := hsound.chans
  have hone : 1 ≤ c.stream.chans := by
    refine hmarked.chans.resolve_left fun hflags => ?_
    have hplay := hmode.1.mpr rfl
    rw [hflags] at hplay
    exact hplay (by decide)
  exact ⟨hmode,
    by omega, by omega, by omega, hrun, hholds, hlevel, hmarked.typed hmode, hsound.lastPages⟩

end AjaDriver
