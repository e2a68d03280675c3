/-
# A frame interrupt

`aja_handle_frame` as a whole, for a stream of one direction: the last pages
are freed up, and a stream that was running carries out its plan. The second
field of a frame and the work around the engines change nothing the streams
are made of.
-/
import AjaDriver.Engine.Load
import AjaDriver.Engine.Arm
import AjaDriver.Engine.Freeup

namespace AjaDriver

open Function Word Pool Card

variable {TC : Type}

/-! ### The last pages of a frame -/

theorem record_length_two {t : BitVec 32} {l : List ℤ} {f : ℤ → LastPage} (hl : l.length ≤ 2) :
    (l = [] ∧ record t 0 l f = f) ∨ (∃ a, l = [a] ∧ record t 0 l f = update f 0 ⟨a, t⟩) ∨
      ∃ a b, l = [a, b] ∧ record t 0 l f = update (update f 0 ⟨a, t⟩) 1 ⟨b, t⟩ := by
  match l, hl with
  | [], _ => exact Or.inl ⟨rfl, rfl⟩
  | [a], _ => exact Or.inr (Or.inl ⟨a, rfl, rfl⟩)
  | [a, b], _ => exact Or.inr (Or.inr ⟨a, b, rfl, rfl⟩)

theorem mode_type_ne (m : Mode) : m.type ≠ 0#32 := by cases m <;> decide

/-- With no page waiting before, the pages a frame records are the last pages
after it. -/
theorem lastPages_record {d : Card TC} {m : Mode} {l : List ℤ} {f : ℤ → LastPage}
    (hl : l.length ≤ 2) (hf : ∀ i, 0 ≤ i → i < 2 → (f i).type = 0)
    (h : d.stream.last = record m.type 0 l f) :
    d.lastPages = l ∧ d.Typed m := by
  have hm := mode_type_ne m
  have h0 := hf 0 le_rfl (by decide)
  have h1 := hf 1 (by decide) (by decide)
  unfold lastPages pending Typed
  rw [h]
  rcases record_length_two (t := m.type) (f := f) hl with ⟨rfl, hr⟩ | ⟨a, rfl, hr⟩ | ⟨a, b, rfl, hr⟩
  · rw [hr, if_pos h0, if_pos h1]
    exact ⟨rfl, fun i hi hi2 => Or.inl (hf i hi hi2)⟩
  · rw [hr]
    refine ⟨by simp [h1, hm], fun i hi hi2 => ?_⟩
    obtain rfl | rfl : i = 0 ∨ i = 1 := by omega
    · right; simp
    · left; simpa using h1
  · rw [hr]
    refine ⟨by simp [hm], fun i hi hi2 => ?_⟩
    obtain rfl | rfl : i = 0 ∨ i = 1 := by omega
    · right; simp
    · right; simp

variable [Timecode TC]

/-! ### Playback -/

/-- The frames due at the next frame of a running stream. -/
def Card.due (c : Card TC) : ℤ := (streamSpeedcount c.stream).1

/-- What the next new frame of a playback stream of `k` channels does. -/
def Card.playStep (c : Card TC) (k : ℕ) (q : List ℤ) : PlayPlan :=
  if c.stream.running then playPlan c.chanOf k c.stream.pool.fifo c.due q else ⟨0, [], 0⟩

/-- `d` is `c`, whose FIFO held `q`, after a new frame that carried out `e`. -/
structure PlayFrame (c d : Card TC) (q : List ℤ) (e : PlayPlan) : Prop where
  holds : d.stream.pool.Holds (q.drop e.pops)
  fifo : d.stream.pool.fifo = wrap (c.stream.pool.fifo - e.pops)
  inuse : ∀ p, d.stream.pool.inuse p = (c.stream.pool.inuse p && !decide (p ∈ c.lastPages))
  lastPages : d.lastPages = e.loaded
  typed : d.Typed .playback
  outputs : d.outputs = c.outputs ++ tag 0 e.loaded
  inputs : d.inputs = c.inputs
  pagemeta : ∀ p ∉ e.loaded, d.stream.pagemeta p = c.stream.pagemeta p
  flags : d.stream.flags = c.stream.flags
  pagect : d.stream.pagect = c.stream.pagect
  chans : d.stream.chans = c.stream.chans
  speed : d.stream.speed = c.stream.speed
  spdct : d.stream.spdct = c.stream.spdct ∨ d.stream.spdct = (streamSpeedcount c.stream).2.spdct
  drops : d.stream.drop.count = c.stream.drop.count + e.drops

theorem playPlan_loaded_length (chanOf : ℤ → ℤ) (k : ℕ) (level due : ℤ) (q : List ℤ) :
    (playPlan chanOf k level due q).loaded.length ≤ k := by
  unfold playPlan
  simp only
  split_ifs <;> first
    | exact Nat.zero_le _
    | exact fit_length_le ..

/-- The part of a frame before the engines: the last pages become free. -/
theorem frameStart_playback (irq : FrameIrq TC) {c : Card TC} (ht : c.Typed .playback)
    (hv : ∀ p ∈ c.lastPages, 0 ≤ p ∧ p < 64) :
    Freed c (streamFreeup irq.freeupIn (frameCount irq c)) c.lastPages ∧
      ∀ i, 0 ≤ i → i < 2 →
        ((streamFreeup irq.freeupIn (frameCount irq c)).stream.last i).type = 0 := by
  have hview := view_frameCount irq c
  have hlast : (frameCount irq c).stream.last = c.stream.last := last_of_view hview
  have hpool : (frameCount irq c).stream.pool = c.stream.pool := pool_of_view hview
  obtain ⟨hf, h0⟩ := streamFreeup_playback irq.freeupIn (c := frameCount irq c)
    (fun i hi hi2 => by rw [hlast]; exact ht i hi hi2) (by rw [lastPages_congr hlast]; exact hv)
  rw [lastPages_congr hlast] at hf
  refine ⟨⟨?_, ?_, ?_, fun p => ?_, ?_, ?_, ?_, (steady_frameCount irq c).trans hf.steady⟩, h0⟩
  · rw [hf.links, hpool]
  · rw [hf.pageNo, hpool]
  · rw [hf.fifo, hpool]
  · rw [hf.inuse, hpool]
  · rw [hf.pagemeta, pagemeta_of_view hview]
  · rw [hf.outputs, outputs_of_view hview]
  · rw [hf.inputs, inputs_of_view hview]

theorem streamCapture_idle {c : Card TC} (hm : Mode.playback.Of c.stream.flags) :
    streamCapture c = c := by
  apply if_pos
  by_contra h
  exact absurd (hm.2.mp h) (by decide)

theorem streamPlayback_idle {c : Card TC} (hm : Mode.capture.Of c.stream.flags) :
    streamPlayback c = c := by
  apply if_pos
  by_contra h
  exact absurd (hm.1.mp h) (by decide)

/-- A new frame of a playback stream that is stopped: nothing is shown. -/
theorem playFrame_stopped {irq : FrameIrq TC} (hf : irq.field = false) {c : Card TC} {q : List ℤ}
    (h : c.stream.pool.Holds q) (hr : wrap c.stream.pool.fifo = c.stream.pool.fifo)
    (ht : c.Typed .playback) (hv : ∀ p ∈ c.lastPages, 0 ≤ p ∧ p < 64)
    (hrun : ¬ c.stream.running = true) :
    PlayFrame c (handleFrame irq c) q ⟨0, [], 0⟩ := by
  obtain ⟨hfree, htype⟩ := frameStart_playback irq ht hv
  have hview := view_handleFrame_first hf c
  have hstream := stream_handleFrame_first hf c
  rw [if_neg hrun] at hview hstream
  obtain ⟨hlp, htp⟩ := lastPages_record (d := handleFrame irq c) (m := .playback) (l := [])
    (Nat.zero_le _) htype
    (by rw [hstream]; rfl)
  refine ⟨?_, ?_, fun p => ?_, hlp, htp, ?_, ?_, fun p _ => ?_, ?_, ?_, ?_, ?_, Or.inl ?_, ?_⟩
  · rw [hstream]; exact h.congr hfree.links hfree.pageNo
  · rw [hstream, hfree.fifo, Nat.cast_zero, sub_zero, hr]
  · rw [hstream, hfree.inuse]
  · rw [outputs_of_view hview, hfree.outputs]; exact (List.append_nil _).symm
  · rw [inputs_of_view hview, hfree.inputs]
  · rw [hstream, hfree.pagemeta]
  · rw [hstream, hfree.steady.flags]
  · rw [hstream, hfree.steady.pagect]
  · rw [hstream, hfree.steady.chans]
  · rw [hstream, hfree.steady.speed]
  · rw [hstream, hfree.steady.spdct]
  · rw [hstream, hfree.steady.drops, add_zero]

/-- A new frame of a running playback stream: once the last pages are free,
the engine carries out its plan. -/
theorem playFrame_running {irq : FrameIrq TC} (hf : irq.field = false) {c : Card TC} {k : ℕ}
    {q : List ℤ} (hm : Mode.playback.Of c.stream.flags) (hk : c.stream.chans = k) (h0 : 0 < k)
    (h2 : k ≤ 2) (h : c.stream.pool.Holds q) (hr : wrap c.stream.pool.fifo = c.stream.pool.fifo)
    (ht : c.Typed .playback) (hv : ∀ p ∈ c.lastPages, 0 ≤ p ∧ p < 64)
    (hrun : c.stream.running = true) :
    PlayFrame c (handleFrame irq c) q (playPlan c.chanOf k c.stream.pool.fifo c.due q) := by
  obtain ⟨hfree, htype⟩ := frameStart_playback irq ht hv
  have hview := view_handleFrame_first hf c
  have hstream := stream_handleFrame_first hf c
  rw [if_pos hrun] at hview hstream
  set b := streamFreeup irq.freeupIn (frameCount irq c)
  -- `a` is the card the engine finds
  set a := frameAudio b
  have haview : a.view = b.view := view_frameAudio b
  have hasteady : Steady c a := hfree.steady.trans (steady_frameAudio b)
  have hapool : a.stream.pool = b.stream.pool := pool_of_view haview
  have haholds : a.stream.pool.Holds q := by rw [hapool]; exact h.congr hfree.links hfree.pageNo
  have hafifo : a.stream.pool.fifo = c.stream.pool.fifo := by rw [hapool, hfree.fifo]
  have hameta : a.stream.pagemeta = c.stream.pagemeta := by
    rw [pagemeta_of_view haview, hfree.pagemeta]
  have hachan : a.chanOf = c.chanOf := by
    funext p
    unfold chanOf
    rw [hameta]
  have haflags : Mode.playback.Of a.stream.flags := by rw [hasteady.flags]; exact hm
  have hplay := streamPlayback_played (haflags.1.mpr rfl) (hasteady.chans.trans hk) h0 h2 haholds
    (by rw [hafifo]; exact hr)
  rw [hachan, hafifo, hasteady.due] at hplay
  set e := playPlan c.chanOf k c.stream.pool.fifo c.due q
  have hplayed : Played a (streamPlayback a) q e := hplay
  have heng : frameEngines b = streamPlayback a :=
    streamCapture_idle (by rw [hplayed.flags]; exact haflags)
  rw [heng] at hview hstream
  have hlast :
      (handleFrame irq c).stream.last = record Mode.playback.type 0 e.loaded a.stream.last := by
    rw [hstream]
    exact hplayed.loads.last
  have hatype : ∀ i, 0 ≤ i → i < 2 → (a.stream.last i).type = 0 := by
    rw [last_of_view haview]
    exact htype
  have hlen : e.loaded.length ≤ 2 := (playPlan_loaded_length ..).trans h2
  obtain ⟨hlp, htp⟩ := lastPages_record hlen hatype hlast
  refine ⟨?_, ?_, fun p => ?_, hlp, htp, ?_, ?_, fun p hp => ?_, ?_, ?_, ?_, ?_, Or.symm ?_, ?_⟩
  · rw [hstream]; exact hplayed.loads.pool.holds
  · rw [hstream, hplayed.loads.pool.fifo, hafifo]
  · rw [hstream, hplayed.loads.pool.inuse, hapool, hfree.inuse]
  · rw [outputs_of_view hview, hplayed.loads.outputs, outputs_of_view haview, hfree.outputs]
  · rw [inputs_of_view hview, hplayed.loads.inputs, inputs_of_view haview, hfree.inputs]
  · rw [hstream, hplayed.loads.pagemeta p hp, hameta]
  · rw [hstream, hplayed.flags, hasteady.flags]
  · rw [hstream, hplayed.pagect, hasteady.pagect]
  · rw [hstream, hplayed.chans, hasteady.chans]
  · rw [hstream, hplayed.speed, hasteady.speed]
  · rw [hstream, hplayed.spdct]
    split_ifs
    · exact Or.inr hasteady.spdct
    · exact Or.inl hasteady.counted
  · rw [hstream, hplayed.drops, hasteady.drops]

/-- A new frame of a playback stream. -/
theorem handleFrame_playback {irq : FrameIrq TC} (hf : irq.field = false) {c : Card TC} {k : ℕ}
    {q : List ℤ} (hm : Mode.playback.Of c.stream.flags) (hk : c.stream.chans = k) (h0 : 0 < k)
    (h2 : k ≤ 2) (h : c.stream.pool.Holds q) (hr : wrap c.stream.pool.fifo = c.stream.pool.fifo)
    (ht : c.Typed .playback) (hv : ∀ p ∈ c.lastPages, 0 ≤ p ∧ p < 64) :
    PlayFrame c (handleFrame irq c) q (c.playStep k q) := by
  unfold playStep
  split_ifs with hrun
  · exact playFrame_running hf hm hk h0 h2 h hr ht hv hrun
  · exact playFrame_stopped hf h hr ht hv hrun

/-! ### Capture -/

/-- What the next new frame of a capture stream of `k` channels does: the
level it sees counts the last pages, which have joined the FIFO. -/
def Card.armStep (c : Card TC) (k : ℕ) : ArmPlan :=
  if c.stream.running then
    armPlan c.stream.pool.inuse c.stream.pagect k (wrap (c.stream.pool.fifo + c.lastPages.length))
  else ⟨[], 0⟩

/-- `d` is `c`, whose FIFO held `q`, after a new frame that carried out `e`. -/
structure ArmFrame (c d : Card TC) (q : List ℤ) (e : ArmPlan) : Prop where
  holds : d.stream.pool.Holds (q ++ c.lastPages)
  fifo : d.stream.pool.fifo = wrap (c.stream.pool.fifo + c.lastPages.length)
  inuse : d.stream.pool.inuse = fun p => decide (p ∈ e.armed) || c.stream.pool.inuse p
  lastPages : d.lastPages = e.armed
  typed : d.Typed .capture
  last : ∀ (j : ℕ) (p : ℤ), e.armed[j]? = some p → d.stream.last j = ⟨p, ajaCapture⟩
  outputs : d.outputs = c.outputs
  inputs : d.inputs = c.inputs ++ tag 0 e.armed
  flags : d.stream.flags = c.stream.flags
  pagect : d.stream.pagect = c.stream.pagect
  chans : d.stream.chans = c.stream.chans
  drops : d.stream.drop.count = c.stream.drop.count + e.drops

theorem armPlan_armed_length (inuse : ℤ → Bool) (pagect : ℤ) (k : ℕ) (level : ℤ) :
    (armPlan inuse pagect k level).armed.length ≤ k := by
  unfold armPlan
  split_ifs
  · exact Nat.zero_le _
  · exact List.length_take_le ..

/-- The part of a frame before the engines: the last pages join the FIFO. -/
theorem frameStart_capture (irq : FrameIrq TC) {c : Card TC} {q : List ℤ}
    (h : c.stream.pool.Holds q) (hr : wrap c.stream.pool.fifo = c.stream.pool.fifo)
    (ht : c.Typed .capture) (hv : ∀ p ∈ c.lastPages, 0 ≤ p ∧ p < 64)
    (hn : (q ++ c.lastPages).Nodup) :
    Published c (streamFreeup irq.freeupIn (frameCount irq c)) q c.lastPages ∧
      ∀ i, 0 ≤ i → i < 2 →
        ((streamFreeup irq.freeupIn (frameCount irq c)).stream.last i).type = 0 := by
  have hview := view_frameCount irq c
  have hlast : (frameCount irq c).stream.last = c.stream.last := last_of_view hview
  have hpool : (frameCount irq c).stream.pool = c.stream.pool := pool_of_view hview
  obtain ⟨hp, h0⟩ := streamFreeup_capture irq.freeupIn (c := frameCount irq c) (q := q)
    (by rw [hpool]; exact h)
    (by rw [hpool]; exact hr) (fun i hi hi2 => by rw [hlast]; exact ht i hi hi2)
    (by rw [lastPages_congr hlast]; exact hv) (by rw [lastPages_congr hlast]; exact hn)
  rw [lastPages_congr hlast] at hp
  refine ⟨⟨hp.holds, ?_, ?_, ?_, ?_, (steady_frameCount irq c).trans hp.steady⟩, h0⟩
  · rw [hp.fifo, hpool]
  · rw [hp.inuse, hpool]
  · rw [hp.outputs, outputs_of_view hview]
  · rw [hp.inputs, inputs_of_view hview]

/-- A new frame of a capture stream that is stopped: nothing is armed. -/
theorem armFrame_stopped {irq : FrameIrq TC} (hf : irq.field = false) {c : Card TC} {q : List ℤ}
    (h : c.stream.pool.Holds q) (hr : wrap c.stream.pool.fifo = c.stream.pool.fifo)
    (ht : c.Typed .capture) (hv : ∀ p ∈ c.lastPages, 0 ≤ p ∧ p < 64)
    (hn : (q ++ c.lastPages).Nodup) (hrun : ¬ c.stream.running = true) :
    ArmFrame c (handleFrame irq c) q ⟨[], 0⟩ := by
  obtain ⟨hpub, htype⟩ := frameStart_capture irq h hr ht hv hn
  have hview := view_handleFrame_first hf c
  have hstream := stream_handleFrame_first hf c
  rw [if_neg hrun] at hview hstream
  obtain ⟨hlp, htp⟩ := lastPages_record (d := handleFrame irq c) (m := .capture) (l := [])
    (Nat.zero_le _) htype
    (by rw [hstream]; rfl)
  refine ⟨?_, ?_, ?_, hlp, htp, fun j p hj => by simp at hj, ?_, ?_, ?_, ?_, ?_, ?_⟩
  · rw [hstream]; exact hpub.holds
  · rw [hstream, hpub.fifo]
  · rw [hstream, hpub.inuse]; simp
  · rw [outputs_of_view hview, hpub.outputs]
  · rw [inputs_of_view hview, hpub.inputs]; exact (List.append_nil _).symm
  · rw [hstream, hpub.steady.flags]
  · rw [hstream, hpub.steady.pagect]
  · rw [hstream, hpub.steady.chans]
  · rw [hstream, hpub.steady.drops, add_zero]

/-- A new frame of a running capture stream: once the last pages have joined
the FIFO, the engine carries out its plan. -/
theorem armFrame_running {irq : FrameIrq TC} (hf : irq.field = false) {c : Card TC} {k : ℕ}
    {q : List ℤ} (hm : Mode.capture.Of c.stream.flags) (hk : c.stream.chans = k) (h2 : k ≤ 2)
    (h : c.stream.pool.Holds q) (hr : wrap c.stream.pool.fifo = c.stream.pool.fifo)
    (ht : c.Typed .capture) (hv : ∀ p ∈ c.lastPages, 0 ≤ p ∧ p < 64)
    (hn : (q ++ c.lastPages).Nodup) (hq : ∀ a ∈ q ++ c.lastPages, c.stream.pool.inuse a = true)
    (hrun : c.stream.running = true) :
    ArmFrame c (handleFrame irq c) q
      (armPlan c.stream.pool.inuse c.stream.pagect k
        (wrap (c.stream.pool.fifo + c.lastPages.length))) := by
  obtain ⟨hpub, htype⟩ := frameStart_capture irq h hr ht hv hn
  have hview := view_handleFrame_first hf c
  have hstream := stream_handleFrame_first hf c
  rw [if_pos hrun] at hview hstream
  set b := streamFreeup irq.freeupIn (frameCount irq c)
  -- `a` is the card the engine finds
  set a := frameAudio b
  have haview : a.view = b.view := view_frameAudio b
  have hasteady : Steady c a := hpub.steady.trans (steady_frameAudio b)
  have hapool : a.stream.pool = b.stream.pool := pool_of_view haview
  have haholds : a.stream.pool.Holds (q ++ c.lastPages) := by rw [hapool]; exact hpub.holds
  have hinuse : a.stream.pool.inuse = c.stream.pool.inuse := by rw [hapool, hpub.inuse]
  have haflags : Mode.capture.Of a.stream.flags := by rw [hasteady.flags]; exact hm
  have heng : frameEngines b = streamCapture a := by
    show streamCapture (streamPlayback a) = streamCapture a
    rw [streamPlayback_idle haflags]
  have hcap := streamCapture_captured (haflags.2.mpr rfl) (hasteady.chans.trans hk) h2 haholds
    (by rw [hinuse]; exact hq)
  rw [hinuse, hasteady.pagect, hapool, hpub.fifo] at hcap
  set e := armPlan c.stream.pool.inuse c.stream.pagect k
    (wrap (c.stream.pool.fifo + c.lastPages.length))
  rw [heng] at hview hstream
  have hatype : ∀ i, 0 ≤ i → i < 2 → (a.stream.last i).type = 0 := by
    rw [last_of_view haview]
    exact htype
  have hlen : e.armed.length ≤ 2 := (armPlan_armed_length ..).trans h2
  have hlast :
      (handleFrame irq c).stream.last = record Mode.capture.type 0 e.armed a.stream.last := by
    rw [hstream]
    exact hcap.last
  obtain ⟨hlp, htp⟩ := lastPages_record hlen hatype hlast
  refine ⟨?_, ?_, ?_, hlp, htp, fun j p hj => ?_, ?_, ?_, ?_, ?_, ?_, ?_⟩
  · rw [hstream]; exact hcap.holds
  · rw [hstream, hcap.fifo, hapool, hpub.fifo]
  · rw [hstream, hcap.inuse, hinuse]
  · have := record_get Mode.capture.type (n := 0) e.armed a.stream.last j hj
    rw [hlast]
    rwa [zero_add] at this
  · rw [outputs_of_view hview, hcap.outputs, outputs_of_view haview, hpub.outputs]
  · rw [inputs_of_view hview, hcap.inputs, inputs_of_view haview, hpub.inputs]
  · rw [hstream, hcap.flags, hasteady.flags]
  · rw [hstream, hcap.pagect, hasteady.pagect]
  · rw [hstream, hcap.chans, hasteady.chans]
  · rw [hstream, hcap.drops, hasteady.drops]

/-- A new frame of a capture stream. -/
theorem handleFrame_capture {irq : FrameIrq TC} (hf : irq.field = false) {c : Card TC} {k : ℕ}
    {q : List ℤ} (hm : Mode.capture.Of c.stream.flags) (hk : c.stream.chans = k) (h2 : k ≤ 2)
    (h : c.stream.pool.Holds q) (hr : wrap c.stream.pool.fifo = c.stream.pool.fifo)
    (ht : c.Typed .capture) (hv : ∀ p ∈ c.lastPages, 0 ≤ p ∧ p < 64)
    (hn : (q ++ c.lastPages).Nodup) (hq : ∀ a ∈ q ++ c.lastPages, c.stream.pool.inuse a = true) :
    ArmFrame c (handleFrame irq c) q (c.armStep k) := by
  unfold armStep
  split_ifs with hrun
  · exact armFrame_running hf hm hk h2 h hr ht hv hn hq hrun
  · exact armFrame_stopped hf h hr ht hv hn hrun

end AjaDriver
