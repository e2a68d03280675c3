/-
# The output interrupt and the card's operations

`handleFrame` is `aja_handle_frame`: on the first field of a frame it counts
the frame, checks the trigger, frees the pages of the frame before, runs the
playback and capture engines of a stream that was running when the interrupt
came, and sends the timecode out. `Op` lists what happens to a card, each
ioctl and each interrupt one operation, and `exec` performs it.
-/
import AjaDriver.Stream

namespace AjaDriver

open Function Word

variable {TC : Type}

/-- What an output interrupt reads from the card and its LTC board. -/
structure FrameIrq (TC : Type) where
  /-- `ajareg_outputfield` is not 0. -/
  field : Bool
  line : ℕ
  timer : ℕ
  tstamp : ℤ
  acaplast : ℕ
  ch1rp188 : ℕ × ℕ
  ch2rp188 : ℕ × ℕ
  framerate : ℕ
  ltc : TC
  ltcgen : Option TC

section Handler

variable [Timecode TC]

/-- What `aja_stream_freeup` reads. -/
def FrameIrq.freeupIn (irq : FrameIrq TC) : FreeupIn TC where
  aptr := irq.acaplast
  sdi1 := timecodeGetSdi irq.ch1rp188 irq.framerate
  sdi2 := timecodeGetSdi irq.ch2rp188 irq.framerate
  ltc := irq.ltc

/-- The start of a new frame: the frame count, the timecode generator, the
trigger and the frame's time. -/
def frameCount (irq : FrameIrq TC) (c : Card TC) : Card TC :=
  let trig := c.stream.trigger
  let c := { c with frame := { c.frame with id := c.frame.id + 1 } }
  let id := c.frame.id
  let c :=
    if c.tcg.flags &&& ajaTcgRunning ≠ 0 then
      c.mapTcg fun tc => Timecode.clearField2 (Timecode.inc tc)
    else c
  let c := if trig ≠ 0 ∧ trig = id then streamStart c else c
  { c with
    frame := { c.frame with
      time := { c.frame.time with id := id, line := irq.line, timer := irq.timer, tstamp := irq.tstamp } } }

/-- The audio engine's start with the first frame of a triggered stream. -/
def frameAudio (c : Card TC) : Card TC :=
  if c.stream.atrig ≠ 0 then
    let c := if c.stream.flags &&& ajaCapture ≠ 0 then c.acapStart else c
    let c := if c.stream.flags &&& ajaPlayback ≠ 0 then c.aplayStart else c
    { c with stream := { c.stream with atrig := 0 } }
  else c

/-- The engines of a running stream. -/
def frameEngines (c : Card TC) : Card TC := streamCapture (streamPlayback (frameAudio c))

/-- The timecode going out at the end of a new frame. -/
def frameOutput (irq : FrameIrq TC) (srun : Bool) (c : Card TC) : Card TC :=
  let curtc := c.tcg.value
  let ntc := if srun then Timecode.inc curtc else curtc
  let c := { c with frame := { c.frame with time := { c.frame.time with tcg := curtc } } }
  let ltcsync := if Timecode.fps curtc > 30 then Timecode.frame curtc % 2 = 0 else True
  let curtc := Timecode.makevalidwire curtc
  let ntc := Timecode.makevalidwire ntc
  let c := (c.timecodeSetSdi1 ntc).timecodeSetSdi2 ntc
  let c :=
    if c.pcitc ∧ ltcsync then
      ((c.timecodeSetLtc irq.ltcgen curtc).send (.ltcSync true)).send (.ltcSync false)
    else c
  if c.p2slave then c.send (.p2slaveSetTc curtc) else c

/-- The registers of the two RP188 timecodes. -/
def rp188Registers : List Register := [ch1rp188_1, ch1rp188_2, ch2rp188_1, ch2rp188_2]

/-- What a timecode goes out with: the RP188 registers, the LTC board, the P2 slave. -/
inductive Io.OfTimecode : Io TC → Prop
  | rp188 {r : Register} (hr : r ∈ rp188Registers) (v : ℤ) : OfTimecode (.prset r v)
  | ltcWrite (tc : TC) : OfTimecode (.ltcWrite tc)
  | ltcSync (val : Bool) : OfTimecode (.ltcSync val)
  | p2slaveSetTc (tc : TC) : OfTimecode (.p2slaveSetTc tc)

/-- Seen by `f`, which sees nothing of a timecode going out, the end of a new frame
only notes the generator's timecode. -/
theorem frameOutput_keeps {α : Type} (f : Card TC → α)
    (h : ∀ (d : Card TC) {e : Io TC}, e.OfTimecode → f (d.send e) = f d) (irq : FrameIrq TC)
    (srun : Bool) (c : Card TC) :
    f (frameOutput irq srun c) =
      f { c with frame := { c.frame with time := { c.frame.time with tcg := c.tcg.value } } } := by
  have hset : ∀ (d : Card TC) (tc : TC), f ((d.timecodeSetSdi1 tc).timecodeSetSdi2 tc) = f d := by
    intro d tc
    have hword : ∀ (d : Card TC) (r : Register) (v : ℤ), r ∈ rp188Registers →
      f (d.prset r v) = f d :=
      fun d r v hr => h d (.rp188 hr v)
    unfold Card.timecodeSetSdi2 Card.timecodeSetSdi1
    rw [hword _ ch2rp188_2 _ (by decide), hword _ ch2rp188_1 _ (by decide),
      hword _ ch1rp188_2 _ (by decide), hword _ ch1rp188_1 _ (by decide)]
  have hltc : ∀ (d : Card TC) (g : Option TC) (tc : TC), f (d.timecodeSetLtc g tc) = f d := by
    intro d g tc
    rcases Card.timecodeSetLtc_cases d g tc with hl | hl <;> rw [hl]
    exact h d (.ltcWrite tc)
  unfold frameOutput
  simp only
  split_ifs <;>
    simp only [h _ (.ltcSync true), h _ (.ltcSync false), h _ (.p2slaveSetTc _), hltc, hset]

/-- The first field of a frame. -/
def newFrame (irq : FrameIrq TC) (c : Card TC) : Card TC :=
  let srun := c.stream.running
  let c := streamFreeup irq.freeupIn (frameCount irq c)
  let c := if srun then frameEngines c else c
  frameOutput irq srun c

/-- The second field of a frame. -/
def secondField (c : Card TC) : Card TC :=
  if c.tcg.flags &&& ajaTcgRunning ≠ 0 then c.mapTcg Timecode.setField2 else c

/-- The check of the audio frames to play. -/
def aplayCheck (field : Bool) (c : Card TC) : Card TC :=
  if ¬ field ∧ c.aplay.frames ≠ 0 then
    if c.aplay.running then
      let frames := wrap (c.aplay.frames - 1)
      if frames = 0 then { c with aplay := ⟨frames, false⟩ }.aplayStop
      else { c with aplay := { c.aplay with frames := frames } }
    else { c with aplay := { c.aplay with running := true } }.aplayStart
  else c

/-- `aja_handle_frame`. -/
def handleFrame (irq : FrameIrq TC) (c : Card TC) : Card TC :=
  aplayCheck irq.field (if ¬ irq.field then newFrame irq c else secondField c)

end Handler

/-! ### Operations -/

/-- What happens to a card, one operation at a time. -/
inductive Op (TC : Type)
  | streamInit (pid : ℤ) (stinit : StreamInit)
  | streamStart (w : FrameWait)
  | streamStop (w : FrameWait)
  | release (pid : ℤ)
  | getmeta (page : ℤ)
  | setmeta (page : ℤ) (m : StreamMeta TC)
  | pageAlloc
  | pageFree (page : ℤ)
  | fifoPush (page : ℤ)
  | fifoPop
  | setspeed (speed : ℤ)
  | settrig (trig : ℤ)
  | aframeAdd (frames : ℤ)
  | timecodeSetflags (flags : BitVec 32)
  | timecodeClrflags (flags : BitVec 32)
  | timecodeSet (tc : TC)
  | frame (irq : FrameIrq TC)

variable [Timecode TC]

/-- An operation's result and the card after it. -/
def exec (M : ModParams) (c : Card TC) : Op TC → ℤ × Card TC
  | .streamInit pid stinit => (0, streamInit c pid stinit)
  | .streamStart w => ioctlStreamStart c w
  | .streamStop w => ioctlStreamStop c w
  | .release pid => (0, release c pid)
  | .getmeta page => ((ioctlGetmeta c page).1.1, (ioctlGetmeta c page).2)
  | .setmeta page m => ioctlSetmeta c page m
  | .pageAlloc => ioctlPageAlloc c
  | .pageFree page => ioctlPageFree c page
  | .fifoPush page => ioctlFifoPush c page
  | .fifoPop => ioctlFifoPop c
  | .setspeed speed => ioctlSetspeed M c speed
  | .settrig trig => ioctlSettrig c trig
  | .aframeAdd frames =>
    (0, { c with aplay := { c.aplay with frames := wrap (c.aplay.frames + frames) } })
  | .timecodeSetflags flags => (0, c.timecodeSetflags flags)
  | .timecodeClrflags flags => (0, c.timecodeClrflags flags)
  | .timecodeSet tc => (0, { c with tcg := { c.tcg with value := tc } })
  | .frame irq => (0, handleFrame irq c)

end AjaDriver
