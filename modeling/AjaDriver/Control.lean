/-
# What makes a stream run

Whether a stream runs, what its trigger is and whether its audio waits for the
first frame are decided by a few fields: `Card.control`. On them every operation
is one `Cue`, and `Control.next` says what a cue does; `control_exec` is the
simulation, so what holds of the cues' machine holds of the card. The page
calls, the engines and the timecode pass the control by.
-/
import AjaDriver.View

namespace AjaDriver

open Function

variable {TC : Type}

/-! ### The control of a card -/

/-- The write that lets the playback audio go or enables the capture. -/
def startsAudio : Io TC → Bool
  | .prset r v => (r = aplayreset ∧ v = 0) ∨ (r = acapenable ∧ v = 1)
  | _ => false

/-- The times the audio engine was started. -/
def Card.audioStarts (c : Card TC) : ℕ := c.io.countP startsAudio

/-- The fields that decide whether a stream runs; `frames` are the audio frames
still to play, `audio` counts the starts of the audio engine. -/
structure Control where
  id : ℤ
  flags : BitVec 32
  trigger : ℤ
  atrig : BitVec 32
  running : Bool
  frames : ℤ
  audio : ℕ

def Card.control (c : Card TC) : Control where
  id := c.frame.id
  flags := c.stream.flags
  trigger := c.stream.trigger
  atrig := c.stream.atrig
  running := c.stream.running
  frames := c.aplay.frames
  audio := c.audioStarts

/-- What an operation does to the control. -/
inductive Cue
  | newFrame
  | settrig (trig : ℤ)
  | start
  | stop
  | init (flags : BitVec 32)
  | pass

namespace Control

def start (k : Control) : Control :=
  { k with trigger := 0, atrig := k.flags &&& ajaTriggerAudio, running := true }

def stop (k : Control) : Control := { k with trigger := 0, atrig := 0, running := false }

/-- The trigger is due with the next frame. -/
def Due (k : Control) : Prop := k.trigger ≠ 0 ∧ k.trigger = k.id + 1

instance decidableDue (k : Control) : Decidable k.Due := inferInstanceAs (Decidable (_ ∧ _))

/-- The frame count and the trigger. -/
def count (k : Control) : Control :=
  if k.Due then { k with id := k.id + 1 }.start else { k with id := k.id + 1 }

/-- The audio engines a stream starts. -/
def audioEngines (flags : BitVec 32) : ℕ :=
  (if flags &&& ajaCapture ≠ 0 then 1 else 0) + if flags &&& ajaPlayback ≠ 0 then 1 else 0

/-- The audio that waits for the first frame. -/
def startAudio (k : Control) : Control :=
  if k.atrig ≠ 0 then { k with audio := k.audio + audioEngines k.flags, atrig := 0 } else k

/-- A new frame: the stream's engines run if it was running before the trigger. -/
def newFrame (k : Control) : Control := if k.running then k.count.startAudio else k.count

/-- One cue. -/
def next (k : Control) : Cue → Control
  | .newFrame => k.newFrame
  | .settrig trig => { k with trigger := trig }
  | .start => k.start
  | .stop => k.stop
  | .init flags => { k with flags := flags, trigger := 0, running := false }
  | .pass => k

/-! A new frame, field by field; the audio is what `startAudio` makes of it. -/

theorem startAudio_fields (k : Control) :
    k.startAudio.id = k.id ∧ k.startAudio.flags = k.flags ∧ k.startAudio.trigger = k.trigger ∧
      k.startAudio.running = k.running ∧ k.startAudio.frames = k.frames := by
  unfold startAudio
  split_ifs <;> exact ⟨rfl, rfl, rfl, rfl, rfl⟩

theorem newFrame_fields (k : Control) :
    k.newFrame.id = k.count.id ∧ k.newFrame.flags = k.count.flags ∧
      k.newFrame.trigger = k.count.trigger ∧
      k.newFrame.running = k.count.running ∧ k.newFrame.frames = k.count.frames := by
  unfold newFrame
  split_ifs
  · exact k.count.startAudio_fields
  · exact ⟨rfl, rfl, rfl, rfl, rfl⟩

@[simp] theorem id_newFrame (k : Control) : k.newFrame.id = k.id + 1 := by
  rw [k.newFrame_fields.1, count]
  split_ifs <;> rfl

@[simp] theorem flags_newFrame (k : Control) : k.newFrame.flags = k.flags := by
  rw [k.newFrame_fields.2.1, count]
  split_ifs <;> rfl

theorem trigger_newFrame (k : Control) : k.newFrame.trigger = if k.Due then 0 else k.trigger := by
  rw [k.newFrame_fields.2.2.1, count]
  split_ifs <;> rfl

theorem running_newFrame (k : Control) :
    k.newFrame.running = if k.Due then true else k.running := by
  rw [k.newFrame_fields.2.2.2.1, count]
  split_ifs <;> rfl

@[simp] theorem frames_newFrame (k : Control) : k.newFrame.frames = k.frames := by
  rw [k.newFrame_fields.2.2.2.2, count]
  split_ifs <;> rfl

end Control

/-- What an operation is to the control. -/
def cue (c : Card TC) : Op TC → Cue
  | .frame irq => if irq.field then .pass else .newFrame
  | .settrig trig => if c.frame.id ≥ trig then .pass else .settrig trig
  | .streamStart .frame => if c.stream.running then .pass else .start
  | .streamStop .frame => .stop
  | .release pid => if c.stream.running ∧ pid = c.stream.pid then .stop else .pass
  | .streamInit _ i => .init i.flags
  | _ => .pass

theorem cue_newFrame {irq : FrameIrq TC} (h : irq.field = false) (c : Card TC) :
    cue c (.frame irq) = .newFrame :=
  if_neg (ne_true_of_eq_false h)

theorem cue_secondField {irq : FrameIrq TC} (h : irq.field = true) (c : Card TC) :
    cue c (.frame irq) = .pass := if_pos h

/-! ### What passes the control by -/

namespace Card

theorem audioStarts_send (c : Card TC) (e : Io TC) :
    (c.send e).audioStarts = c.audioStarts + if startsAudio e then 1 else 0 := by
  unfold audioStarts send
  rw [List.countP_append, List.countP_singleton]

/-- A write that starts audio. -/
theorem control_send_audio (c : Card TC) {e : Io TC} (he : startsAudio e = true) :
    (c.send e).control = { c.control with audio := c.control.audio + 1 } := by
  unfold control
  rw [audioStarts_send, he]
  rfl

/-- A write that starts no audio. -/
theorem control_send (c : Card TC) {e : Io TC} (he : startsAudio e = false) :
    (c.send e).control = c.control := by
  unfold control
  rw [audioStarts_send, he]
  rfl

theorem control_prset (c : Card TC) {r : Register} {v : ℤ}
    (he : startsAudio (.prset r v : Io TC) = false) :
    (c.prset r v).control = c.control :=
  control_send c he

@[simp] theorem control_withPool (c : Card TC) (P : Pool) :
    (c.withPool P).control = c.control := rfl
@[simp] theorem control_touch (c : Card TC) (t : Tbl) (i : ℤ) :
    (c.touch t i).control = c.control := rfl
@[simp] theorem control_setMeta (c : Card TC) (p : ℤ) (m : StreamMeta TC) :
    (c.setMeta p m).control = c.control := rfl
@[simp] theorem control_setLast (c : Card TC) (i : ℤ) (l : LastPage) :
    (c.setLast i l).control = c.control := rfl
@[simp] theorem control_setPriv (c : Card TC) (v : ℕ) : (c.setPriv v).control = c.control := rfl
@[simp] theorem control_mapTcg (c : Card TC) (f : TC → TC) : (c.mapTcg f).control = c.control := rfl
@[simp] theorem control_timecodeClrflags (c : Card TC) (f : BitVec 32) :
    (c.timecodeClrflags f).control = c.control := rfl
@[simp] theorem control_streamDrop (c : Card TC) : (streamDrop c).control = c.control := rfl

@[simp] theorem control_ltcRun (c : Card TC) (b : Bool) : (c.ltcRun b).control = c.control := by
  unfold ltcRun
  split_ifs
  · exact control_send c rfl
  · rfl

end Card

open Card Control

@[simp] theorem control_streamFreeup (x : FreeupIn TC) (c : Card TC) :
    (streamFreeup x c).control = c.control := by
  have hslot : ∀ (i : ℤ) (d : Card TC), (freeupSlot x i d).control = d.control := by
    intro i d
    unfold freeupSlot
    simp only
    rw [control_setLast]
    split_ifs <;> simp only [control_withPool, control_setMeta]
  unfold streamFreeup
  rw [hslot, hslot]

/-! ### The engines -/

theorem control_playbackFrame (c : Card TC) (n : ℤ) :
    (streamPlaybackFrame c n).2.control = c.control := by
  unfold streamPlaybackFrame
  simp only
  split_ifs
  · rfl
  · rfl
  all_goals rw [control_setLast, control_prset _ (by rfl), control_touch, control_withPool]

theorem control_loadLoop (k : ℕ) (n newp : ℤ) (c : Card TC) :
    (loadLoop k n newp c).2.control = c.control :=
  loadLoop_rel (R := fun c d => d.control = c.control) (fun _ => rfl) (fun _ _ _ h h' => h'.trans h)
    control_playbackFrame k n newp c

theorem control_captureFrame (c : Card TC) (n : ℤ) :
    (streamCaptureFrame c n).2.control = c.control := by
  unfold streamCaptureFrame
  simp only
  split_ifs
  · rfl
  all_goals rw [control_setLast, control_prset _ (by rfl), control_withPool]

section Engine

variable [Timecode TC]

theorem control_playbackLoad (c : Card TC) : (playbackLoad c).control = c.control := by
  have hmeta : ∀ (p : ℤ) (d : Card TC), (playbackMeta p d).control = d.control := by
    intro p d
    unfold playbackMeta
    simp only
    rw [control_setMeta, control_setPriv]
    split_ifs <;> simp only [control_setMeta, control_mapTcg, control_touch]
  have hload := control_loadLoop c.stream.chans.toNat 0 0 c
  rcases playbackLoad_cases c with ⟨-, he⟩ | ⟨p, -, he⟩
  · rw [he]
    exact hload
  · rw [he]
    exact (hmeta p _).trans hload

@[simp] theorem control_streamPlayback (c : Card TC) : (streamPlayback c).control = c.control := by
  have hcount : c.counted.control = c.control := rfl
  rcases streamPlayback_cases c with ⟨-, he⟩ | he | he | he | he | he <;> rw [he]
  · rfl
  · exact hcount
  · rfl
  · exact hcount
  · rw [control_playbackLoad, control_withPool, hcount]

theorem control_captureLoop (inc : ℤ) (k : ℕ) (n : ℤ) (c : Card TC) :
    (captureLoop inc k n c).control = c.control :=
  captureLoop_rel (R := fun c d => d.control = c.control) (fun _ => rfl)
    (fun _ _ _ h h' => h'.trans h)
    control_captureFrame control_setMeta inc k n c

@[simp] theorem control_streamCapture (c : Card TC) : (streamCapture c).control = c.control := by
  have hbump : ∀ (inc : ℤ) (d : Card TC), (captureBump inc d).control = d.control := by
    intro inc d
    unfold captureBump
    split_ifs <;> rfl
  rcases streamCapture_cases c with ⟨-, he⟩ | he | he <;> rw [he]
  · rfl
  · rw [control_captureLoop, hbump]
    rfl

end Engine

/-! ### Starts and stops -/

@[simp] theorem control_streamStart (c : Card TC) : (streamStart c).control = c.control.start := by
  show (Card.ltcRun _ true).control = _
  rw [control_ltcRun]
  rfl

@[simp] theorem control_acapStop (c : Card TC) : c.acapStop.control = c.control :=
  control_send c rfl

@[simp] theorem control_aplayStop (c : Card TC) : c.aplayStop.control = c.control :=
  control_send c rfl

@[simp] theorem control_streamStop (c : Card TC) : (streamStop c).control = c.control.stop := by
  unfold streamStop
  simp only
  rw [control_prset _ (by rfl), control_prset _ (by rfl),
    control_prset _ (by rfl)]
  split_ifs <;>
    simp only [control_acapStop, control_aplayStop, control_timecodeClrflags, control_ltcRun] <;>
      rfl

theorem control_streamInit (c : Card TC) (pid : ℤ) (i : StreamInit) :
    (streamInit c pid i).control = c.control.next (.init i.flags) := by
  unfold streamInit
  simp only
  rw [control_prset _ (by rfl)]
  split_ifs
  all_goals
    rw [control_prset _ (by rfl), control_prset _ (by rfl),
      control_prset _ (by rfl)]
    rfl

/-! ### The frame handler around the engines -/

theorem control_acapStart (c : Card TC) :
    c.acapStart.control = { c.control with audio := c.control.audio + 1 } := by
  refine (control_send_audio _ (e := .prset acapenable 1) rfl).trans ?_
  have hpre :
    Card.control
      ((((((c.prset dma3irqenable 1).prset acapreset 1).prset acapenable 0).prset acapreset 0).prset
      acapreset 1).prset acapreset 0) = c.control := by
    rw [control_prset _ (by rfl), control_prset _ (by rfl),
      control_prset _ (by rfl)]
    refine (control_send _ (e := .prset acapenable 0) rfl).trans ?_
    rw [control_prset _ (by rfl), control_prset _ (by rfl)]
  rw [hpre]

theorem control_aplayStart (c : Card TC) :
    c.aplayStart.control = { c.control with audio := c.control.audio + 1 } := by
  refine (control_send_audio _ (e := .prset aplayreset 0) rfl).trans ?_
  have hpre : (c.prset aplayreset 1).control = c.control := control_send c rfl
  rw [hpre]

/-- An audio engine is started under a condition. -/
theorem control_ite_audio (p : Prop) [Decidable p] {c d : Card TC}
    (h : d.control = { c.control with audio := c.control.audio + 1 }) :
    (if p then d else c).control = { c.control with audio := c.control.audio + if p then 1
      else 0 } := by
  split_ifs
  · exact h
  · rfl

theorem control_frameAudio (c : Card TC) : (frameAudio c).control = c.control.startAudio := by
  have hcap :
    ∀ d : Card TC, (if d.stream.flags &&& ajaCapture ≠ 0 then d.acapStart else d).control =
      { d.control with audio := d.control.audio + if d.control.flags &&& ajaCapture ≠ 0
        then 1 else 0 } :=
    fun d => control_ite_audio _ (control_acapStart d)
  have hplay :
    ∀ d : Card TC, (if d.stream.flags &&& ajaPlayback ≠ 0 then d.aplayStart else d).control =
      { d.control with audio := d.control.audio + if d.control.flags &&& ajaPlayback ≠ 0
        then 1 else 0 } :=
    fun d => control_ite_audio _ (control_aplayStart d)
  have hclear : ∀ d : Card TC, Card.control { d with stream := { d.stream with atrig := 0 } } =
      { d.control with atrig := 0 } := fun _ => rfl
  unfold frameAudio Control.startAudio Control.audioEngines
  by_cases h : c.stream.atrig ≠ 0
  · rw [if_pos h, if_pos (show c.control.atrig ≠ 0 from h), hclear, hplay, hcap, Nat.add_assoc]
  · rw [if_neg h, if_neg (show ¬ c.control.atrig ≠ 0 from h)]

theorem aplayCheck_idle {c : Card TC} (h : c.aplay.frames = 0) (field : Bool) :
    aplayCheck field c = c := by
  unfold aplayCheck
  rw [if_neg (by simp [h])]

section Handler

variable [Timecode TC]

theorem control_frameCount (irq : FrameIrq TC) (c : Card TC) :
    (frameCount irq c).control = c.control.count := by
  have htcg : ∀ (p : Prop) [Decidable p] (d : Card TC) (f : TC → TC),
      (if p then d.mapTcg f else d).control = d.control := by
    intro p _ d f
    split_ifs <;> rfl
  have htime : ∀ (d : Card TC) (t : FrameTime TC),
      Card.control { d with frame := { d.frame with time := t } } = d.control := fun _ _ => rfl
  unfold frameCount Control.count
  simp only
  rw [htime]
  by_cases h : c.control.Due
  · rw [if_pos (show c.stream.trigger ≠ 0 ∧ c.stream.trigger = c.frame.id + 1 from h), if_pos h,
      control_streamStart, htcg]
    rfl
  · rw [if_neg (show ¬ (c.stream.trigger ≠ 0 ∧ c.stream.trigger = c.frame.id + 1) from h),
      if_neg h, htcg]
    rfl

omit [Timecode TC] in
theorem startsAudio_rp188 {r : Register} (hr : r ∈ rp188Registers) (v : ℤ) :
    startsAudio (.prset r v : Io TC) = false := by
  have hall : ∀ r ∈ rp188Registers, r ≠ aplayreset ∧ r ≠ acapenable := by decide
  simp [startsAudio, hall r hr]

@[simp] theorem control_frameOutput (irq : FrameIrq TC) (srun : Bool) (c : Card TC) :
    (frameOutput irq srun c).control = c.control := by
  refine frameOutput_keeps control (fun d _ he => ?_) irq srun c
  cases he with
  | rp188 hr v => exact control_prset d (startsAudio_rp188 hr v)
  | ltcWrite tc => exact control_send d rfl
  | ltcSync val => exact control_send d rfl
  | p2slaveSetTc tc => exact control_send d rfl

theorem control_newFrame (irq : FrameIrq TC) (c : Card TC) :
    (newFrame irq c).control = c.control.newFrame := by
  have hup : (streamFreeup irq.freeupIn (frameCount irq c)).control = c.control.count := by
    rw [control_streamFreeup, control_frameCount]
  unfold newFrame Control.newFrame
  simp only
  rw [control_frameOutput]
  cases hr : c.stream.running with
  | true =>
    rw [if_pos rfl, if_pos (show c.control.running = true from hr), frameEngines,
      control_streamCapture, control_streamPlayback, control_frameAudio, hup]
  | false =>
    rw [if_neg Bool.false_ne_true, if_neg
      (show ¬ c.control.running = true from ne_true_of_eq_false hr), hup]

@[simp] theorem control_secondField (c : Card TC) : (secondField c).control = c.control := by
  unfold secondField
  split_ifs <;> rfl

/-- The handler's control, up to the check of the audio frames. -/
theorem control_fields (irq : FrameIrq TC) (c : Card TC) :
    (if ¬ irq.field then newFrame irq c else secondField c).control =
      c.control.next (cue c (.frame irq)) := by
  by_cases hf : irq.field = true
  · rw [if_neg (not_not.mpr hf), control_secondField, cue_secondField hf]
    rfl
  · rw [if_pos hf, control_newFrame, cue_newFrame (eq_false_of_ne_true hf)]
    rfl

/-- The handler's control, when no audio frames are waiting to be played. -/
theorem control_handleFrame {c : Card TC} (h : c.aplay.frames = 0) (irq : FrameIrq TC) :
    (handleFrame irq c).control = c.control.next (cue c (.frame irq)) := by
  have hframes : (c.control.next (cue c (.frame irq))).frames = 0 := by
    by_cases hf : irq.field = true
    · rw [cue_secondField hf]
      exact h
    · rw [cue_newFrame (eq_false_of_ne_true hf)]
      exact (frames_newFrame _).trans h
  have hidle := (congrArg Control.frames (control_fields irq c)).trans hframes
  unfold handleFrame
  rw [aplayCheck_idle hidle, control_fields]

end Handler

/-! ### The simulation -/

variable [Timecode TC]

/-- An operation moves the control as its cue does. -/
theorem control_exec (M : ModParams) {c : Card TC} (h : c.aplay.frames = 0) {op : Op TC}
    (hop : ∀ frames, op ≠ .aframeAdd frames) : (exec M c op).2.control =
      c.control.next (cue c op) := by
  cases op with
  | streamInit pid i => exact control_streamInit c pid i
  | streamStart w =>
    show (ioctlStreamStart c w).2.control = _
    unfold ioctlStreamStart
    simp only
    split_ifs with hr
    · cases w <;> simp [cue, hr, Control.next]
    · have hset : (c.prset regclocking 2).control = c.control := control_prset c rfl
      cases w with
      | frame =>
        rw [cue, if_neg hr, control_streamStart]
        exact congrArg Control.start hset
      | timeout => exact hset
      | signal => exact hset
  | streamStop w =>
    cases w
    · exact control_streamStop c
    · rfl
    · rfl
  | release pid =>
    show (AjaDriver.release c pid).control = _
    simp only [AjaDriver.release, cue]
    split_ifs
    · exact control_streamStop c
    · rfl
  | getmeta page =>
    show (ioctlGetmeta c page).2.control = _
    unfold ioctlGetmeta
    split_ifs <;> rfl
  | setmeta page m =>
    show (ioctlSetmeta c page m).2.control = _
    unfold ioctlSetmeta
    split_ifs <;> rfl
  | pageAlloc => rfl
  | pageFree page => rfl
  | fifoPush page => rfl
  | fifoPop => rfl
  | setspeed speed => rfl
  | settrig trig =>
    show (ioctlSettrig c trig).2.control = _
    simp only [ioctlSettrig, cue]
    split_ifs <;> rfl
  | aframeAdd frames => exact absurd rfl (hop frames)
  | timecodeSetflags flags => rfl
  | timecodeClrflags flags => rfl
  | timecodeSet tc => rfl
  | frame irq => exact control_handleFrame h irq

end AjaDriver
