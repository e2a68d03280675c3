/-
# What the stream operations share

Most of what happens to a card does not touch the page pool, its metadata,
the last pages or the frame buffer registers: starts and stops, the
timecode, the audio, the speed. `Card.view` is the part that matters to the
pool's invariants; an operation that leaves the rest of the card to change
has the same view, and the `view_` lemmas say which do.

What a call of an engine can do to a card is said once, by
`streamPlayback_cases` and `streamCapture_cases`.

`outputs` and `inputs` are the pages written to the channels' output and
input frame registers so far, in order, each with its channel.
-/
import AjaDriver.Frame

namespace AjaDriver

open Function

variable {TC : Type}

/-! ### The frame buffer registers -/

/-- A write to a channel's output frame register. -/
def outputOf : Io TC → Option (ℤ × ℤ)
  | .prset r v => if r = ch1output then some (0, v) else if r = ch2output then some (1, v) else none
  | _ => none

/-- A write to a channel's input frame register. -/
def inputOf : Io TC → Option (ℤ × ℤ)
  | .prset r v => if r = ch1input then some (0, v) else if r = ch2input then some (1, v) else none
  | _ => none

namespace Card

/-- The pages written to the output registers, oldest first. -/
def outputs (c : Card TC) : List (ℤ × ℤ) := c.io.filterMap outputOf

/-- The pages written to the input registers, oldest first. -/
def inputs (c : Card TC) : List (ℤ × ℤ) := c.io.filterMap inputOf

end Card

/-- The part of a card the pool's invariants are about. -/
structure View (TC : Type) where
  flags : BitVec 32
  pagect : ℤ
  chans : ℤ
  last : ℤ → LastPage
  pagemeta : ℤ → StreamMeta TC
  pool : Pool
  outputs : List (ℤ × ℤ)
  inputs : List (ℤ × ℤ)

namespace Card

def view (c : Card TC) : View TC where
  flags := c.stream.flags
  pagect := c.stream.pagect
  chans := c.stream.chans
  last := c.stream.last
  pagemeta := c.stream.pagemeta
  pool := c.stream.pool
  outputs := c.outputs
  inputs := c.inputs

section Same

variable {c d : Card TC} (h : c.view = d.view)
include h

theorem flags_of_view : c.stream.flags = d.stream.flags := congrArg View.flags h
theorem pagect_of_view : c.stream.pagect = d.stream.pagect := congrArg View.pagect h
theorem chans_of_view : c.stream.chans = d.stream.chans := congrArg View.chans h
theorem last_of_view : c.stream.last = d.stream.last := congrArg View.last h
theorem pagemeta_of_view : c.stream.pagemeta = d.stream.pagemeta := congrArg View.pagemeta h
theorem pool_of_view : c.stream.pool = d.stream.pool := congrArg View.pool h
theorem outputs_of_view : c.outputs = d.outputs := congrArg View.outputs h
theorem inputs_of_view : c.inputs = d.inputs := congrArg View.inputs h

end Same

/-! ### The stream's setting -/

/-- `d` has the setting and the pace of `c`: only an init, a change of speed,
a start and the engines themselves move these. -/
structure Steady (c d : Card TC) : Prop where
  flags : d.stream.flags = c.stream.flags
  pagect : d.stream.pagect = c.stream.pagect
  chans : d.stream.chans = c.stream.chans
  spdct : d.stream.spdct = c.stream.spdct
  speed : d.stream.speed = c.stream.speed
  drops : d.stream.drop.count = c.stream.drop.count

theorem Steady.refl (c : Card TC) : Steady c c := ⟨rfl, rfl, rfl, rfl, rfl, rfl⟩

theorem Steady.trans {c d e : Card TC} (h : Steady c d) (h' : Steady d e) : Steady c e :=
  ⟨h'.flags.trans h.flags, h'.pagect.trans h.pagect, h'.chans.trans h.chans, h'.spdct.trans h.spdct,
    h'.speed.trans h.speed, h'.drops.trans h.drops⟩

theorem Steady.of_stream {c d : Card TC} (h : d.stream = c.stream) : Steady c d := by
  constructor <;> rw [h]

theorem steady_withPool (c : Card TC) (P : Pool) : Steady c (c.withPool P) :=
  ⟨rfl, rfl, rfl, rfl, rfl, rfl⟩

theorem steady_touch (c : Card TC) (t : Tbl) (i : ℤ) : Steady c (c.touch t i) := steady_withPool c _

theorem steady_prset (c : Card TC) (r : Register) (v : ℤ) : Steady c (c.prset r v) :=
  ⟨rfl, rfl, rfl, rfl, rfl, rfl⟩

theorem steady_setMeta (c : Card TC) (p : ℤ) (m : StreamMeta TC) : Steady c (c.setMeta p m) :=
  (steady_touch c .pagemeta p).trans ⟨rfl, rfl, rfl, rfl, rfl, rfl⟩

theorem steady_setLast (c : Card TC) (i : ℤ) (l : LastPage) : Steady c (c.setLast i l) :=
  (steady_touch c .last i).trans ⟨rfl, rfl, rfl, rfl, rfl, rfl⟩

theorem Steady.due {c d : Card TC} (h : Steady c d) :
    (streamSpeedcount d.stream).1 = (streamSpeedcount c.stream).1 := by
  unfold streamSpeedcount
  rw [h.spdct, h.speed]

theorem Steady.counted {c d : Card TC} (h : Steady c d) :
    (streamSpeedcount d.stream).2.spdct = (streamSpeedcount c.stream).2.spdct := by
  unfold streamSpeedcount
  rw [h.spdct, h.speed]

/-! ### Register writes -/

theorem outputs_prset (c : Card TC) (r : Register) (v : ℤ) :
    (c.prset r v).outputs = c.outputs ++ (outputOf (.prset r v : Io TC)).toList := by
  simp [outputs, prset, List.filterMap_append, List.filterMap_cons]
  cases outputOf (.prset r v : Io TC) <;> rfl

theorem inputs_prset (c : Card TC) (r : Register) (v : ℤ) :
    (c.prset r v).inputs = c.inputs ++ (inputOf (.prset r v : Io TC)).toList := by
  simp [inputs, prset, List.filterMap_append, List.filterMap_cons]
  cases inputOf (.prset r v : Io TC) <;> rfl

@[simp] theorem outputs_withPool (c : Card TC) (P : Pool) :
    (c.withPool P).outputs = c.outputs := rfl
@[simp] theorem inputs_withPool (c : Card TC) (P : Pool) : (c.withPool P).inputs = c.inputs := rfl
@[simp] theorem outputs_touch (c : Card TC) (t : Tbl) (i : ℤ) :
    (c.touch t i).outputs = c.outputs := rfl
@[simp] theorem inputs_touch (c : Card TC) (t : Tbl) (i : ℤ) :
    (c.touch t i).inputs = c.inputs := rfl
@[simp] theorem outputs_setMeta (c : Card TC) (p : ℤ) (m : StreamMeta TC) :
    (c.setMeta p m).outputs = c.outputs := rfl
@[simp] theorem inputs_setMeta (c : Card TC) (p : ℤ) (m : StreamMeta TC) :
    (c.setMeta p m).inputs = c.inputs := rfl
@[simp] theorem outputs_setLast (c : Card TC) (i : ℤ) (l : LastPage) :
    (c.setLast i l).outputs = c.outputs := rfl
@[simp] theorem inputs_setLast (c : Card TC) (i : ℤ) (l : LastPage) :
    (c.setLast i l).inputs = c.inputs := rfl

/-- A register that is no frame buffer register. -/
def Plain (r : Register) : Prop := r ≠ ch1output ∧ r ≠ ch2output ∧ r ≠ ch1input ∧ r ≠ ch2input

instance (r : Register) : Decidable (Plain r) := inferInstanceAs (Decidable (_ ∧ _))

theorem view_prset (c : Card TC) {r : Register} (hr : Plain r) (v : ℤ) :
    (c.prset r v).view = c.view := by
  have ho : (c.prset r v).outputs = c.outputs := by
    rw [outputs_prset]; simp [outputOf, hr.1, hr.2.1]
  have hi : (c.prset r v).inputs = c.inputs := by
    rw [inputs_prset]; simp [inputOf, hr.2.2.1, hr.2.2.2]
  unfold view
  rw [ho, hi]
  rfl

/-- A message to the LTC board or the P2 slave. -/
theorem view_send (c : Card TC) {e : Io TC} (ho : outputOf e = none) (hi : inputOf e = none) :
    (c.send e).view = c.view := by
  simp [view, send, outputs, inputs, List.filterMap_append, ho, hi]

@[simp] theorem view_aplayStart (c : Card TC) : c.aplayStart.view = c.view := by
  unfold aplayStart
  rw [view_prset _ (by decide), view_prset _ (by decide)]

@[simp] theorem view_aplayStop (c : Card TC) : c.aplayStop.view = c.view :=
  view_prset _ (by decide) _

@[simp] theorem view_acapStart (c : Card TC) : c.acapStart.view = c.view := by
  unfold acapStart
  iterate 7 rw [view_prset _ (by decide)]

@[simp] theorem view_acapStop (c : Card TC) : c.acapStop.view = c.view := view_prset _ (by decide) _

@[simp] theorem view_timecodeSetflags (c : Card TC) (f : BitVec 32) :
    (c.timecodeSetflags f).view = c.view := rfl

@[simp] theorem view_timecodeClrflags (c : Card TC) (f : BitVec 32) :
    (c.timecodeClrflags f).view = c.view := rfl

@[simp] theorem view_mapTcg (c : Card TC) (f : TC → TC) : (c.mapTcg f).view = c.view := rfl

@[simp] theorem view_setPriv (c : Card TC) (v : ℕ) : (c.setPriv v).view = c.view := rfl

@[simp] theorem view_ltcRun (c : Card TC) (b : Bool) : (c.ltcRun b).view = c.view := by
  unfold ltcRun
  split_ifs
  · exact view_send c rfl rfl
  · rfl

end Card

open Card

/-! ### Initialization -/

/-- What `aja_ioctl_stream_init` leaves of the stream. -/
theorem stream_streamInit (c : Card TC) (pid : ℤ) (i : StreamInit) :
    (streamInit c pid i).stream =
      { (streamClear c pid).stream with
        flags := i.flags
        pagect := if i.pagect > ajaMaxpages then (ajaMaxpages : ℤ) else i.pagect
        chans := clampChans i.chans
        tcsource := i.tcsource } := by
  unfold streamInit
  simp only
  split_ifs <;> rfl

theorem clampChans_le (n : ℤ) : clampChans n ≤ 2 := by
  unfold clampChans ajaMaxchans
  simp only
  split_ifs <;> omega

theorem one_le_clampChans (n : ℤ) : 1 ≤ clampChans n := by
  unfold clampChans ajaMaxchans
  simp only
  split_ifs <;> omega

/-! ### Starts, stops, speed and drops -/

/-- What `aja_stream_start` leaves of the stream. -/
theorem stream_streamStart (c : Card TC) :
    (streamStart c).stream =
      { c.stream with trigger := 0, atrig := c.stream.flags &&& ajaTriggerAudio, running := true } := by
  unfold streamStart ltcRun
  simp only
  split_ifs <;> rfl

/-- What `aja_stream_stop` leaves of the stream. -/
theorem stream_streamStop (c : Card TC) :
    (streamStop c).stream = { c.stream with trigger := 0, atrig := 0, running := false } := by
  unfold streamStop ltcRun
  simp only
  split_ifs <;> rfl

theorem steady_streamStart (c : Card TC) : Steady c (streamStart c) := by
  constructor <;> rw [stream_streamStart]

theorem steady_streamStop (c : Card TC) : Steady c (streamStop c) := by
  constructor <;> rw [stream_streamStop]

@[simp] theorem view_streamStart (c : Card TC) : (streamStart c).view = c.view := by
  simp only [streamStart, view_timecodeSetflags, view_ltcRun]
  rfl

@[simp] theorem view_streamStop (c : Card TC) : (streamStop c).view = c.view := by
  unfold streamStop
  simp only
  rw [view_prset _ (by decide), view_prset _ (by decide), view_prset _ (by decide)]
  split_ifs <;>
    simp only [view_acapStop, view_aplayStop, view_timecodeClrflags, view_ltcRun] <;> rfl

@[simp] theorem view_ioctlStreamStart (c : Card TC) (w : FrameWait) :
    (ioctlStreamStart c w).2.view = c.view := by
  unfold ioctlStreamStart
  split_ifs
  · rfl
  · have hp : (c.prset regclocking 2).view = c.view := view_prset _ (by decide) _
    cases w <;> simp only [view_streamStart] <;> exact hp

@[simp] theorem view_ioctlStreamStop (c : Card TC) (w : FrameWait) :
    (ioctlStreamStop c w).2.view = c.view := by
  cases w
  · exact view_streamStop c
  · rfl
  · rfl

@[simp] theorem view_release (c : Card TC) (pid : ℤ) : (release c pid).view = c.view := by
  unfold release
  split_ifs
  · exact view_streamStop c
  · rfl

@[simp] theorem view_ioctlSetspeed (M : ModParams) (c : Card TC) (v : ℤ) :
    (ioctlSetspeed M c v).2.view = c.view := rfl

@[simp] theorem view_ioctlSettrig (c : Card TC) (v : ℤ) : (ioctlSettrig c v).2.view = c.view := by
  unfold ioctlSettrig
  split_ifs <;> rfl

@[simp] theorem view_streamDrop (c : Card TC) : (streamDrop c).view = c.view := rfl

/-! ### The frame handler around the engines -/

@[simp] theorem view_frameAudio (c : Card TC) : (frameAudio c).view = c.view := by
  have hcap : ∀ d : Card TC, (if d.stream.flags &&& ajaCapture ≠ 0 then d.acapStart else d).view =
      d.view := by
    intro d
    split_ifs <;> simp
  have hplay : ∀ d : Card TC, (if d.stream.flags &&& ajaPlayback ≠ 0 then d.aplayStart
      else d).view = d.view := by
    intro d
    split_ifs <;> simp
  unfold frameAudio
  by_cases h : c.stream.atrig ≠ 0
  · rw [if_pos h]
    exact (hplay _).trans (hcap c)
  · rw [if_neg h]

@[simp] theorem view_aplayCheck (field : Bool) (c : Card TC) :
    (aplayCheck field c).view = c.view := by
  unfold aplayCheck
  simp only
  split_ifs <;> first
    | rfl
    | exact view_aplayStop _
    | exact view_aplayStart _

theorem steady_frameAudio (c : Card TC) : Steady c (frameAudio c) := by
  unfold frameAudio
  simp only
  split_ifs <;> exact ⟨rfl, rfl, rfl, rfl, rfl, rfl⟩

/-- A step that is made under a condition. -/
theorem Card.Steady.ite (p : Prop) [Decidable p] {c d : Card TC} (h : Steady c d) :
    Steady c (if p then d else c) := by
  split_ifs
  · exact h
  · exact .refl c

theorem steady_freeup (x : FreeupIn TC) (c : Card TC) : Steady c (streamFreeup x c) := by
  have hslot : ∀ (i : ℤ) (d : Card TC), Steady d (freeupSlot x i d) := fun i d =>
    (((steady_withPool d _).ite _).trans
      (((steady_setMeta _ _ _).trans (steady_withPool _ _)).ite _)).trans (steady_setLast _ _ _)
  exact (hslot 0 c).trans (hslot 1 _)

theorem stream_aplayCheck (field : Bool) (c : Card TC) :
    (aplayCheck field c).stream = c.stream := by
  unfold aplayCheck
  simp only
  split_ifs <;> rfl

/-- The card once the frames due are counted. -/
def Card.counted (c : Card TC) : Card TC := { c with stream := (streamSpeedcount c.stream).2 }

variable [Timecode TC]

/-! ### What a call of an engine does -/

section Rounds

variable {R : Card TC → Card TC → Prop} (hrefl : ∀ c, R c c)
    (htrans : ∀ c d e, R c d → R d e → R c e)
include hrefl htrans

omit [Timecode TC] in
/-- What each channel's load does to a card, the load of all does. -/
theorem loadLoop_rel (hframe : ∀ c n, R c (streamPlaybackFrame c n).2) :
    ∀ (k : ℕ) (n newp : ℤ) (c : Card TC), R c (loadLoop k n newp c).2
  | 0, _, _, c => hrefl c
  | k + 1, n, newp, c => by
    unfold loadLoop
    simp only
    split_ifs
    · exact hframe c n
    all_goals exact htrans _ _ _ (hframe c n) (loadLoop_rel hframe k _ _ _)

/-- What arming a channel and writing its page's metadata do, the whole loop does. -/
theorem captureLoop_rel (hframe : ∀ c n, R c (streamCaptureFrame c n).2)
    (hmeta : ∀ c p m, R c (c.setMeta p m)) (inc : ℤ) :
    ∀ (k : ℕ) (n : ℤ) (c : Card TC), R c (captureLoop inc k n c)
  | 0, _, c => hrefl c
  | k + 1, n, c => by
    unfold captureLoop
    simp only
    split_ifs
    · exact hframe c n
    · exact htrans _ _ _ (htrans _ _ _ (hframe c n) (hmeta _ _ _))
        (captureLoop_rel hframe hmeta inc k _ _)

end Rounds

/-- A load that fails leaves the card as it is; after one that succeeds the master
page's metadata goes out. -/
theorem playbackLoad_cases (c : Card TC) :
    let r := loadLoop c.stream.chans.toNat 0 0 c
    (r.1 = none ∧ playbackLoad c = r.2) ∨ ∃ p, r.1 = some p ∧
      playbackLoad c = playbackMeta p r.2 := by
  unfold playbackLoad
  rcases loadLoop c.stream.chans.toNat 0 0 c with ⟨_ | p, d⟩
  · exact .inl ⟨rfl, rfl⟩
  · exact .inr ⟨p, rfl, rfl⟩

/-- A call of the playback engine; for one frame due the bump has no round. -/
theorem streamPlayback_eq (c : Card TC) : streamPlayback c =
    if c.stream.flags &&& ajaPlayback = 0 then c
    else if c.stream.pool.fifo < c.stream.chans then streamDrop c
    else if (streamSpeedcount c.stream).1 = 0 then c.counted
    else
      match bumpLoop c.stream.chans ((streamSpeedcount c.stream).1 - 1).toNat c.stream.pool with
      | (.short, P) => streamDrop (c.counted.withPool P)
      | (.dry, P) => c.counted.withPool P
      | (.done, P) => playbackLoad (c.counted.withPool P) := by
  unfold streamPlayback
  simp only
  by_cases h1 : (streamSpeedcount c.stream).1 = 1
  · rw [if_neg (show ¬ (streamSpeedcount c.stream).1 ≠ 1 from not_not.mpr h1), h1,
      if_neg one_ne_zero]
    rfl
  · rw [if_pos h1]
    rfl

/-- The card after a call of the playback engine: it is idle, it counts a drop, the
frames due or both, it bumps, or it loads what is behind the bump. -/
theorem streamPlayback_cases (c : Card TC) :
    let d := c.counted.withPool (bumpLoop c.stream.chans ((streamSpeedcount c.stream).1 - 1).toNat
      c.stream.pool).2
    (c.stream.flags &&& ajaPlayback = 0 ∧ streamPlayback c = c) ∨ streamPlayback c = streamDrop c ∨
      streamPlayback c = c.counted ∨ streamPlayback c = streamDrop d ∨ streamPlayback c = d ∨
      streamPlayback c = playbackLoad d := by
  rw [streamPlayback_eq]
  split_ifs with hidle
  · exact .inl ⟨hidle, rfl⟩
  · exact .inr (.inl rfl)
  · exact .inr (.inr (.inl rfl))
  · rcases bumpLoop c.stream.chans ((streamSpeedcount c.stream).1 - 1).toNat
      c.stream.pool with ⟨_ | _ | _, P⟩
    · exact .inr (.inr (.inr (.inr (.inr rfl))))
    · exact .inr (.inr (.inr (.inl rfl)))
    · exact .inr (.inr (.inr (.inr (.inl rfl))))

/-- The card after a call of the capture engine. -/
theorem streamCapture_cases (c : Card TC) :
    (c.stream.flags &&& ajaCapture = 0 ∧ streamCapture c = c) ∨ streamCapture c = streamDrop c ∨
      streamCapture c = captureLoop (streamSpeedcount c.stream).1 c.stream.chans.toNat 0
        (captureBump (streamSpeedcount c.stream).1 c.counted) := by
  unfold streamCapture
  simp only
  split_ifs with hidle
  · exact .inl ⟨hidle, rfl⟩
  · exact .inr (.inl rfl)
  · exact .inr (.inr rfl)

/-! ### The frame handler -/

@[simp] theorem view_captureBump (c : Card TC) (inc : ℤ) : (captureBump inc c).view = c.view := by
  unfold captureBump
  split_ifs <;> rfl

@[simp] theorem view_frameCount (irq : FrameIrq TC) (c : Card TC) :
    (frameCount irq c).view = c.view := by
  unfold frameCount
  simp only
  split_ifs <;> first
    | rfl
    | exact view_streamStart _

theorem rp188_plain {r : Register} (hr : r ∈ rp188Registers) : Card.Plain r :=
  have hall : ∀ r ∈ rp188Registers, Card.Plain r := by decide
  hall r hr

@[simp] theorem view_frameOutput (irq : FrameIrq TC) (srun : Bool) (c : Card TC) :
    (frameOutput irq srun c).view = c.view := by
  refine frameOutput_keeps view (fun d _ he => ?_) irq srun c
  cases he with
  | rp188 hr v => exact view_prset d (rp188_plain hr) v
  | ltcWrite tc => exact view_send d rfl rfl
  | ltcSync val => exact view_send d rfl rfl
  | p2slaveSetTc tc => exact view_send d rfl rfl

theorem steady_frameCount (irq : FrameIrq TC) (c : Card TC) : Steady c (frameCount irq c) := by
  have hstart : ∀ {d e : Card TC}, e.stream = (streamStart d).stream → d.stream = c.stream →
      Steady c e := by
    intro d e he hd
    have hbefore : Steady c d := .of_stream hd
    exact hbefore.trans ((steady_streamStart d).trans (.of_stream he))
  unfold frameCount
  simp only
  split_ifs <;> first
    | exact .of_stream rfl
    | exact hstart rfl rfl

theorem stream_frameOutput (irq : FrameIrq TC) (srun : Bool) (c : Card TC) :
    (frameOutput irq srun c).stream = c.stream :=
  frameOutput_keeps Card.stream (fun _ _ _ => rfl) irq srun c

@[simp] theorem view_secondField (c : Card TC) : (secondField c).view = c.view := by
  unfold secondField
  split_ifs <;> rfl

theorem stream_secondField (c : Card TC) : (secondField c).stream = c.stream := by
  unfold secondField
  split_ifs <;> rfl

theorem stream_handleFrame_second {irq : FrameIrq TC} (h : irq.field = true) (c : Card TC) :
    (handleFrame irq c).stream = c.stream := by
  unfold handleFrame
  rw [stream_aplayCheck, if_neg (by simp [h]), stream_secondField]

theorem stream_handleFrame_first {irq : FrameIrq TC} (h : irq.field = false) (c : Card TC) :
    (handleFrame irq c).stream =
      (if c.stream.running then frameEngines (streamFreeup irq.freeupIn (frameCount irq c))
        else streamFreeup irq.freeupIn (frameCount irq c)).stream := by
  unfold handleFrame newFrame
  rw [stream_aplayCheck, if_pos (by simp [h]), stream_frameOutput]

/-- The second field of a frame leaves the streams alone. -/
theorem view_handleFrame_second {irq : FrameIrq TC} (h : irq.field = true) (c : Card TC) :
    (handleFrame irq c).view = c.view := by
  simp [handleFrame, h]

/-- The first field of a frame: the pages of the frame before are freed up,
and the engines run if the stream was running. -/
theorem view_handleFrame_first {irq : FrameIrq TC} (h : irq.field = false) (c : Card TC) :
    (handleFrame irq c).view =
      (if c.stream.running then frameEngines (streamFreeup irq.freeupIn (frameCount irq c))
        else streamFreeup irq.freeupIn (frameCount irq c)).view := by
  simp [handleFrame, h, newFrame]

end AjaDriver
