/-
# The two ways to start a stream

A stream is started by `STREAM_START`, or by the frame handler when its trigger is
due. Both end in `aja_stream_start`, but only the first resets the speed and sets
the registers to immediate clocking, which a stop has taken back: the two leave
the same state exactly when there is nothing to reset (`starts_agree_iff`).
-/
import AjaDriver.Released
import AjaDriver.Tcg
import AjaDriver.Writes

namespace AjaDriver

open Card

variable {TC : Type}

/-- The mode of the registers: what was last written to `regclocking`. -/
def Card.clocking (c : Card TC) : Option ℤ := (c.writes regclocking).getLast?

/-- What a start leaves: the stream's state, whether the timecode generator runs,
the speed and the mode of the registers. -/
structure StartState where
  running : Bool
  atrig : BitVec 32
  trigger : ℤ
  tcg : Bool
  speed : ℤ
  spdct : ℤ
  clocking : Option ℤ
  deriving DecidableEq, Repr

def Card.startState (c : Card TC) : StartState where
  running := c.stream.running
  atrig := c.stream.atrig
  trigger := c.stream.trigger
  tcg := c.tcg.flags &&& ajaTcgRunning ≠ 0
  speed := c.stream.speed
  spdct := c.stream.spdct
  clocking := c.clocking

/-- A stream with the flags `flags`, started at the speed `speed`. -/
def started (flags : BitVec 32) (speed spdct : ℤ) (clocking : Option ℤ) : StartState :=
  ⟨true, flags &&& ajaTriggerAudio, 0, true, speed, spdct, clocking⟩

/-- `STREAM_START` on a stopped stream. -/
theorem startState_ioctl {c : Card TC} (hstopped : c.stream.running = false) :
    (ioctlStreamStart c .frame).2.startState = started c.stream.flags (1 * ajaSpeedDivisor) 0
      (some 2) := by
  set d : Card TC :=
    { c.prset regclocking 2 with
      stream :=
        { (c.prset regclocking 2).stream with speed := 1 * ajaSpeedDivisor, spdct := 0 } } with hd
  have hstart : (ioctlStreamStart c .frame).2 = streamStart d := by
    unfold ioctlStreamStart
    rw [if_neg (by simp [hstopped])]
  have hclock : (streamStart d).clocking = some 2 := by
    have hwrites : d.writes regclocking = c.writes regclocking ++ [2] := writes_prset c 2
    unfold Card.clocking
    rw [writes_streamStart, hwrites, List.getLast?_concat]
  have htcg : decide ((streamStart d).tcg.flags &&& ajaTcgRunning ≠ 0) = true := by
    rw [tcg_streamStart]
    exact decide_eq_true (running_or _)
  unfold Card.startState started
  rw [hstart, stream_streamStart, htcg, hclock]
  rfl

section Trigger

variable [Timecode TC]

/-- A new frame whose trigger is due, on a stopped stream. -/
theorem startState_trigger {c : Card TC} (hstopped : c.stream.running = false)
    (hdue : c.control.Due) {irq : FrameIrq TC} (hf : irq.field = false) :
    (handleFrame irq c).startState = started c.stream.flags c.stream.speed c.stream.spdct
      c.clocking := by
  have hcontrol : ∃ frames audio, (handleFrame irq c).control =
      { c.control.newFrame with frames := frames, audio := audio } := by
    obtain ⟨frames, audio, hnext⟩ := handleFrame_next irq c
    exact ⟨frames, audio, by rw [hnext, cue_newFrame hf]; rfl⟩
  obtain ⟨frames, audio, hcontrol⟩ := hcontrol
  have hnew : c.control.newFrame = { c.control with id := c.control.id + 1 }.start := by
    unfold Control.newFrame Control.count
    rw [if_neg (by simp [Card.control, hstopped]), if_pos hdue]
  rw [hnew] at hcontrol
  have hrun : (handleFrame irq c).stream.running = true := congrArg Control.running hcontrol
  have hatrig : (handleFrame irq c).stream.atrig = c.stream.flags &&& ajaTriggerAudio :=
    congrArg Control.atrig hcontrol
  have htrigger : (handleFrame irq c).stream.trigger = 0 := congrArg Control.trigger hcontrol
  -- no engine runs: the speed stays as it is
  have hsteady : Steady c (handleFrame irq c) := by
    refine ((steady_frameCount irq c).trans (steady_freeup irq.freeupIn _)).trans (.of_stream ?_)
    rw [stream_handleFrame_first hf, hstopped, if_neg Bool.false_ne_true]
  have hhandle : handleFrame irq c = aplayCheck irq.field (newFrame irq c) := by
    unfold handleFrame
    rw [if_pos (by simp [hf])]
  have hclock : (handleFrame irq c).clocking = c.clocking := by
    unfold Card.clocking
    rw [hhandle, writes_aplayCheck (by decide), writes_newFrame (by decide) irq hstopped]
  have htcg : (handleFrame irq c).tcg.flags = c.tcg.flags ||| ajaTcgRunning := by
    rw [hhandle, tcg_aplayCheck]
    unfold newFrame
    simp only
    rw [tcg_frameOutput, hstopped, if_neg Bool.false_ne_true, (beside_freeup _ _).tcg]
    unfold frameCount
    simp only
    rw [if_pos (show c.stream.trigger ≠ 0 ∧ c.stream.trigger = c.frame.id + 1 from hdue),
      tcg_streamStart]
    split_ifs <;> rfl
  have hflag : decide ((handleFrame irq c).tcg.flags &&& ajaTcgRunning ≠ 0) = true := by
    rw [htcg]
    exact decide_eq_true (running_or _)
  unfold Card.startState started
  rw [hrun, hatrig, htrigger, hsteady.speed, hsteady.spdct, hclock, hflag]

/-- Whatever was done before, on a stopped stream whose trigger is due with the next
frame: `STREAM_START` and the trigger start it in the same state exactly when its
speed is 1x, with nothing left over, and the registers are clocked immediately. -/
theorem starts_agree_iff (M : ModParams) {c : Card TC} (hstopped : c.stream.running = false)
    (hdue : c.control.Due) {irq : FrameIrq TC} (hf : irq.field = false) :
    (c.run M [.streamStart .frame]).startState = (c.run M [.frame irq]).startState ↔
      c.stream.speed = 1 * ajaSpeedDivisor ∧ c.stream.spdct = 0 ∧ c.clocking = some 2 := by
  have hioctl : (c.run M [.streamStart .frame]).startState = _ := startState_ioctl hstopped
  have htrigger : (c.run M [.frame irq]).startState = _ := startState_trigger hstopped hdue hf
  rw [hioctl, htrigger]
  constructor
  · intro h
    exact ⟨(congrArg StartState.speed h).symm, (congrArg StartState.spdct h).symm,
      (congrArg StartState.clocking h).symm⟩
  · rintro ⟨hspeed, hspdct, hclock⟩
    rw [hspeed, hspdct, hclock]

end Trigger

/-- A stream just initialised. -/
theorem starts_agree_iff_init :
    let c := (Card.new false false : Card ℕ).run {} [.streamInit 7 ⟨8, ajaPlayback, 1, 0⟩, .settrig 1]
    let irq : FrameIrq ℕ := ⟨false, 0, 0, 0, 0, (0, 0), (0, 0), 0, 0, none⟩
    (c.run {} [.streamStart .frame]).startState = (c.run {} [.frame irq]).startState := by
  intro c irq
  exact (starts_agree_iff {} (by decide +kernel) (by decide +kernel) rfl).mpr (by decide +kernel)

/-- A stream that was started and stopped before: the trigger starts it with the
registers still clocked by fields; and one whose speed was set: it keeps the speed. -/
theorem starts_differ :
    let c := (Card.new false false : Card ℕ).run {}
      [.streamInit 7 ⟨8, ajaPlayback, 1, 0⟩, .streamStart .frame, .streamStop .frame,
        .setspeed 2000000, .settrig 1]
    let irq : FrameIrq ℕ := ⟨false, 0, 0, 0, 0, (0, 0), (0, 0), 0, 0, none⟩
    c.stream.running = false ∧ c.control.Due ∧
      (c.run {} [.streamStart .frame]).startState = ⟨true, 0, 0, true, 1000000, 0, some 2⟩ ∧
      (c.run {} [.frame irq]).startState = ⟨true, 0, 0, true, 2000000, 0, some 0⟩ ∧
      (c.run {} [.streamStart .frame]).startState ≠ (c.run {} [.frame irq]).startState := by
  decide +kernel

end AjaDriver
