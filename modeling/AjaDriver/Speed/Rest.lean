/-
# What is left over

`aja_stream_speedcount` takes out the whole frames, with the sign of the sum, and
nothing else but an init and a start, which clear it, writes to the accumulator:
in every run it stays within a frame of 0 (`settled_run`).
-/
import AjaDriver.Speed.Capture

namespace AjaDriver

open Function Card

variable {TC : Type}

/-- Less than a frame is left over or owed. -/
def Settled (c : Card TC) : Prop :=
  -ajaSpeedDivisor < c.stream.spdct ∧ c.stream.spdct < ajaSpeedDivisor

theorem Settled.congr {c d : Card TC} (h : Settled c) (hs : d.stream.spdct = c.stream.spdct) :
    Settled d := by
  unfold Settled
  rw [hs]
  exact h

theorem settled_zero {c : Card TC} (h : c.stream.spdct = 0) : Settled c := by
  unfold Settled
  rw [h]
  decide

/-- The count leaves less than a frame, whatever the speed. -/
theorem settled_counted (c : Card TC) : Settled c.counted := by
  set x := Word.wrap (c.stream.spdct + c.stream.speed) with hx
  have hrest : c.counted.stream.spdct = x.tmod ajaSpeedDivisor := by
    rw [Int.tmod_def, mul_comm]
    rfl
  unfold Settled
  rw [hrest]
  exact ⟨Int.lt_tmod_of_pos x divisor_pos, Int.tmod_lt_of_pos x divisor_pos⟩

theorem spdct_loadLoop (k : ℕ) (n newp : ℤ) (c : Card TC) :
    (loadLoop k n newp c).2.stream.spdct = c.stream.spdct := by
  have hframe : ∀ (c : Card TC) (n : ℤ), (streamPlaybackFrame c n).2.stream.spdct =
      c.stream.spdct := fun c n => by
    unfold streamPlaybackFrame
    simp only
    split_ifs <;> rfl
  exact loadLoop_rel (R := fun c d => d.stream.spdct = c.stream.spdct) (fun _ => rfl)
    (fun _ _ _ h h' => h'.trans h)
    hframe k n newp c

variable [Timecode TC]

theorem spdct_playbackLoad (c : Card TC) : (playbackLoad c).stream.spdct = c.stream.spdct := by
  have hload := spdct_loadLoop c.stream.chans.toNat 0 0 c
  rcases playbackLoad_cases c with ⟨-, he⟩ | ⟨p, -, he⟩
  · rw [he]
    exact hload
  · rw [he, (playbackMeta_metaOnly p _).steady.spdct]
    exact hload

/-- The playback engine leaves the accumulator, or counts. -/
theorem Settled.streamPlayback {c : Card TC} (h : Settled c) : Settled (streamPlayback c) := by
  have hcount := settled_counted c
  rcases streamPlayback_cases c with ⟨-, he⟩ | he | he | he | he | he <;> rw [he]
  · exact h
  · exact h
  · exact hcount
  · exact hcount
  · exact hcount
  · exact hcount.congr (spdct_playbackLoad _)

/-- The capture engine leaves the accumulator, or counts. -/
theorem Settled.streamCapture {c : Card TC} (h : Settled c) : Settled (streamCapture c) := by
  by_cases hf : c.stream.flags &&& ajaCapture ≠ 0
  · obtain ⟨-, ⟨-, hspdct⟩ | ⟨-, hspdct, -⟩⟩ := streamCapture_outcome hf
    · exact h.congr hspdct
    · exact (settled_counted c).congr hspdct
  · have hidle : AjaDriver.streamCapture c = c := if_pos (not_not.mp hf)
    rw [hidle]
    exact h

theorem Settled.handleFrame {c : Card TC} (h : Settled c) (irq : FrameIrq TC) :
    Settled (handleFrame irq c) := by
  cases hf : irq.field with
  | true => exact h.congr (congrArg Stream.spdct (stream_handleFrame_second hf c))
  | false =>
    have hstart := (steady_frameCount irq c).trans (steady_freeup irq.freeupIn (frameCount irq c))
    have hstream := congrArg Stream.spdct (stream_handleFrame_first hf c)
    set b := streamFreeup irq.freeupIn (frameCount irq c)
    have hb : Settled b := h.congr hstart.spdct
    by_cases hrun : c.stream.running = true
    · rw [if_pos hrun] at hstream
      have haudio : Settled (frameAudio b) := hb.congr (steady_frameAudio b).spdct
      exact Settled.congr haudio.streamPlayback.streamCapture hstream
    · rw [if_neg hrun] at hstream
      exact hb.congr hstream

theorem Settled.exec {c : Card TC} (h : Settled c) (M : ModParams) (op : Op TC) :
    Settled (exec M c op).2 := by
  cases op with
  | streamInit pid i => exact settled_zero (congrArg Stream.spdct (stream_streamInit c pid i))
  | streamStart w =>
    show Settled (ioctlStreamStart c w).2
    unfold ioctlStreamStart
    split_ifs
    · exact h
    · cases w
      · exact settled_zero (steady_streamStart _).spdct
      · exact settled_zero rfl
      · exact settled_zero rfl
  | streamStop w =>
    cases w
    · exact h.congr (steady_streamStop c).spdct
    · exact h
    · exact h
  | release pid =>
    show Settled (release c pid)
    unfold release
    split_ifs
    · exact h.congr (steady_streamStop c).spdct
    · exact h
  | getmeta page =>
    show Settled (ioctlGetmeta c page).2
    unfold ioctlGetmeta
    split_ifs <;> exact h
  | setmeta page m =>
    show Settled (ioctlSetmeta c page m).2
    unfold ioctlSetmeta
    split_ifs <;> exact h
  | settrig trig =>
    show Settled (ioctlSettrig c trig).2
    unfold ioctlSettrig
    split_ifs <;> exact h
  | frame irq => exact h.handleFrame irq
  | pageAlloc | pageFree _ | fifoPush _ | fifoPop | setspeed _ | aframeAdd _ | timecodeSetflags _
    | timecodeClrflags _
  | timecodeSet _ => exact h

/-- Whatever is done to a card, less than a frame is left over or owed. -/
theorem settled_run (M : ModParams) :
    ∀ (ops : List (Op TC)) {c : Card TC}, Settled c → Settled (c.run M ops)
  | [], _, h => h
  | op :: ops, _, h => settled_run M ops (h.exec M op)

end AjaDriver
