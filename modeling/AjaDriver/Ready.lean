/-
# A playback stream and its FIFO

`Ready` says that a playback stream runs, that its FIFO holds the pages `q` and
that the level is their number: what its new frames do is then `playPlan`, and
the stream stays ready with what they leave (`Ready.newFrame`), with the
accumulator exactly as `aja_stream_speedcount` leaves it (`Ready.spdct`). The
streams of the runs of a client are among these (`Sys.Inv.ready`).
-/
import AjaDriver.Moves
import AjaDriver.Released

namespace AjaDriver

open Function Word Pool Card

variable {TC : Type}

/-- A running playback stream of `k` channels: the FIFO holds `q`, the level is
right, and the pages given to the channels last are pages. -/
structure Ready (k : ℕ) (c : Card TC) (q : List ℤ) : Prop where
  mode : Mode.playback.Of c.stream.flags
  chans : c.stream.chans = k
  pos : 0 < k
  two : k ≤ 2
  running : c.stream.running = true
  holds : c.stream.pool.Holds q
  level : c.stream.pool.fifo = q.length
  typed : c.Typed .playback
  last : ∀ p ∈ c.lastPages, 0 ≤ p ∧ p < 64

/-- In a run of a client, a stream that runs with the right level is ready. -/
theorem Sys.Inv.ready {k : ℕ} {s : Sys TC} {q : List ℤ} (h : s.Inv .playback k q)
    (hrun : s.card.stream.running = true) (hlevel : s.card.stream.pool.fifo = q.length) :
    Ready k s.card q where
  mode := h.mode
  chans := h.chans
  pos := h.pos
  two := h.two
  running := hrun
  holds := h.holds
  level := hlevel
  typed := h.typed
  last p hp := h.valid p (List.mem_append_right _ (List.mem_append_right _ hp))

/-- A stream that runs goes on with every interrupt. -/
theorem running_handleFrame [Timecode TC] {c : Card TC} (irq : FrameIrq TC)
    (h : c.stream.running = true) :
    (handleFrame irq c).stream.running = true := by
  obtain ⟨frames, audio, hnext⟩ := handleFrame_next irq c
  have hrun : (handleFrame irq c).stream.running = (c.control.next (cue c (.frame irq))).running :=
    congrArg Control.running hnext
  rw [hrun]
  cases hf : irq.field with
  | true =>
    rw [cue_secondField hf]
    exact h
  | false =>
    rw [cue_newFrame hf]
    show c.control.newFrame.running = true
    rw [Control.running_newFrame, show c.control.running = true from h, ite_self]

/-- The second field of a frame leaves the channels of the pages alone. -/
theorem chanOf_second [Timecode TC] {irq : FrameIrq TC} (hf : irq.field = true) (c : Card TC) :
    (handleFrame irq c).chanOf = c.chanOf := by
  unfold Card.chanOf
  rw [stream_handleFrame_second hf c]

namespace Ready

variable {k : ℕ} {c d : Card TC} {q : List ℤ}

theorem ranged (h : Ready k c q) : wrap c.stream.pool.fifo = c.stream.pool.fifo := by
  have hlen := h.holds.length_le
  rw [h.level]
  exact wrap_of_range (by omega) (by omega)

/-- What is not the speed may not change. -/
theorem congr (h : Ready k c q) (hflags : d.stream.flags = c.stream.flags)
    (hchans : d.stream.chans = c.stream.chans) (hrun : d.stream.running = c.stream.running)
    (hpool : d.stream.pool = c.stream.pool) (hlast : d.stream.last = c.stream.last) :
    Ready k d q where
  mode := by rw [hflags]; exact h.mode
  chans := hchans.trans h.chans
  pos := h.pos
  two := h.two
  running := hrun.trans h.running
  holds := by rw [hpool]; exact h.holds
  level := by rw [hpool]; exact h.level
  typed i h0 h2 := by rw [hlast]; exact h.typed i h0 h2
  last := by rw [lastPages_congr hlast]; exact h.last

variable [Timecode TC]

/-- One speed or another, the pages are the same. -/
theorem setspeed (h : Ready k c q) (M : ModParams) (v : ℤ) : Ready k (exec M c (.setspeed v)).2 q :=
  h.congr rfl rfl rfl rfl rfl

/-- The second field of a frame leaves the stream alone. -/
theorem secondField (h : Ready k c q) {irq : FrameIrq TC} (hf : irq.field = true) :
    Ready k (handleFrame irq c) q := by
  have hstream := stream_handleFrame_second hf c
  exact h.congr (by rw [hstream]) (by rw [hstream]) (by rw [hstream]) (by rw [hstream])
    (by rw [hstream])

/-- A new frame carries out its plan. -/
theorem playFrame (h : Ready k c q) {irq : FrameIrq TC} (hf : irq.field = false) :
    PlayFrame c (handleFrame irq c) q (playPlan c.chanOf k q.length c.due q) := by
  have hframe :=
    playFrame_running hf h.mode h.chans h.pos h.two h.holds h.ranged h.typed h.last h.running
  rwa [h.level] at hframe

/-- A new frame that does not run the FIFO dry leaves the stream ready. -/
theorem newFrame (h : Ready k c q) {irq : FrameIrq TC} (hf : irq.field = false)
    (hpops : (playPlan c.chanOf k q.length c.due q).pops ≤ q.length) :
    Ready k (handleFrame irq c) (q.drop (playPlan c.chanOf k q.length c.due q).pops) := by
  have hframe := h.playFrame hf
  have hlen := h.holds.length_le
  refine ⟨?_, hframe.chans.trans h.chans, h.pos, h.two, running_handleFrame irq h.running,
    hframe.holds, ?_, hframe.typed, ?_⟩
  · rw [hframe.flags]
    exact h.mode
  · rw [hframe.fifo, h.level, wrap_of_range (by omega) (by omega), List.length_drop]
    omega
  · intro p hp
    rw [hframe.lastPages] at hp
    exact h.holds.valid p ((playPlan_sublist ..).subset (List.mem_append_left _ hp))

/-- The accumulator after a new frame: one that finds the level too low counts
nothing. -/
theorem spdct (h : Ready k c q) {irq : FrameIrq TC} (hf : irq.field = false) :
    (handleFrame irq c).stream.spdct =
      if q.length < k then c.stream.spdct else (streamSpeedcount c.stream).2.spdct := by
  obtain ⟨hfree, -⟩ := frameStart_playback irq h.typed h.last
  have hstream := stream_handleFrame_first hf c
  rw [if_pos h.running] at hstream
  set b := streamFreeup irq.freeupIn (frameCount irq c)
  -- `a` is the card the engine finds
  set a := frameAudio b
  have hsteady : Steady c a := hfree.steady.trans (steady_frameAudio b)
  have hpool : a.stream.pool = b.stream.pool := pool_of_view (view_frameAudio b)
  have hfifo : a.stream.pool.fifo = c.stream.pool.fifo := by rw [hpool, hfree.fifo]
  have hflags : Mode.playback.Of a.stream.flags := by
    rw [hsteady.flags]
    exact h.mode
  have hplayed := streamPlayback_played (hflags.1.mpr rfl) (hsteady.chans.trans h.chans) h.pos h.two
    (by rw [hpool]; exact h.holds.congr hfree.links hfree.pageNo) (by rw [hfifo]; exact h.ranged)
  have heng : frameEngines b = streamPlayback a :=
    streamCapture_idle (by rw [hplayed.flags]; exact hflags)
  rw [hstream, heng, hplayed.spdct, hfifo, hsteady.chans, h.level, h.chans, hsteady.spdct,
    hsteady.counted]
  simp only [Nat.cast_lt]

/-- A page that stays in the FIFO keeps its channel. -/
theorem chanOf (h : Ready k c q) {irq : FrameIrq TC} (hf : irq.field = false) {p : ℤ}
    (hp : p ∈ q.drop (playPlan c.chanOf k q.length c.due q).pops) :
    (handleFrame irq c).chanOf p = c.chanOf p := by
  have hnodup := h.holds.nodup.sublist (playPlan_sublist c.chanOf k q.length c.due q)
  have hnot : p ∉ (playPlan c.chanOf k q.length c.due q).loaded :=
    fun e => (List.nodup_append.mp hnodup).2.2 p e p hp rfl
  unfold Card.chanOf
  rw [(h.playFrame hf).pagemeta p hnot]

end Ready

/-- The new frames among the interrupts. -/
def frameCt (irqs : List (FrameIrq TC)) : ℕ := irqs.countP fun irq => !irq.field

/-! ### A filled FIFO -/

/-- A FIFO to which the pages below `n` were pushed. -/
def filledPool : ℕ → Pool
  | 0 => Pool.clear ⟨fun _ => ⟨none, none, 0, false⟩, none, none, 0, []⟩
  | n + 1 => ((filledPool n).streamFifoPush n).2

theorem filledPool_holds : ∀ {n : ℕ}, n ≤ 64 →
    (filledPool n).Holds ((List.range n).map fun i : ℕ => (i : ℤ)) ∧ (filledPool n).fifo = n
  | 0, _ => ⟨holds_clear _, rfl⟩
  | n + 1, hn => by
    obtain ⟨hholds, hfifo⟩ := filledPool_holds (n := n) (by omega)
    have hnot : (n : ℤ) ∉ (List.range n).map fun i : ℕ => (i : ℤ) := by simp
    rw [filledPool, List.range_succ, List.map_append]
    refine ⟨hholds.push (by omega) (by omega) hnot, ?_⟩
    rw [fifo_push _ (by omega) (by omega), hfifo, wrap_of_range (by omega) (by omega)]
    push_cast
    rfl

/-- A card whose playback stream of `k` channels runs, the pages below `n` queued
for the channels in turn, with `spdct` in the accumulator. -/
def Card.filled [Timecode TC] (k n : ℕ) (spdct : ℤ) : Card TC :=
  { Card.new false false with
    stream := { (Card.new false false : Card TC).stream with
      flags := ajaPlayback
      pagect := 64
      chans := k
      spdct := spdct
      running := true
      pagemeta := fun p => { (StreamMeta.zero : StreamMeta TC) with chan := p % k }
      pool := filledPool n } }

theorem ready_filled [Timecode TC] {k n : ℕ} (hk : 0 < k) (h2 : k ≤ 2) (hn : n ≤ 64) (spdct : ℤ) :
    Ready k (Card.filled k n spdct : Card TC) ((List.range n).map fun i : ℕ => (i : ℤ)) where
  mode := show Mode.playback.Of ajaPlayback by decide
  chans := rfl
  pos := hk
  two := h2
  running := rfl
  holds := (filledPool_holds hn).1
  level := by
    rw [List.length_map, List.length_range]
    exact (filledPool_holds hn).2
  typed _ _ _ := Or.inl rfl
  last p hp := absurd hp List.not_mem_nil

end AjaDriver
