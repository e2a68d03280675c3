/-
# What the card is heard to say

Besides its own registers the driver talks to two other devices: the LTC board
(run, write, sync) and the P2 slave (its timecode). `messages` are those calls,
in order, without the register writes between them. Starts, stops and new
frames say something, in a form that only depends on a few fields (`Op.heard`);
the engines, the audio and the client's calls say nothing (`hears_exec`).
-/
import AjaDriver.Control
import AjaDriver.Safety
import AjaDriver.Tcg

namespace AjaDriver

open Function Card

variable {TC : Type}

/-- A call of the LTC board or of the P2 slave. -/
def Io.isMessage : Io TC → Bool
  | .prset _ _ => false
  | .ltcRun _ | .ltcWrite _ | .ltcSync _ | .p2slaveSetTc _ => true

/-- The calls of the LTC board and of the P2 slave, oldest first. -/
def Card.messages (c : Card TC) : List (Io TC) := c.io.filter Io.isMessage

theorem messages_prset (c : Card TC) (r : Register) (v : ℤ) :
    (c.prset r v).messages = c.messages := by
  simp [messages, Card.prset, List.filter_append, Io.isMessage]

theorem messages_send (c : Card TC) {e : Io TC} (he : e.isMessage = true) :
    (c.send e).messages = c.messages ++ [e] := by
  simp [messages, Card.send, List.filter_append, he]

/-- `l` is said on the way from `c` to `d`, two states of one card. -/
structure Heard (c : Card TC) (l : List (Io TC)) (d : Card TC) : Prop where
  messages : d.messages = c.messages ++ l
  pcitc : d.pcitc = c.pcitc
  p2slave : d.p2slave = c.p2slave

theorem Heard.trans {c d e : Card TC} {l m : List (Io TC)} (h : Heard c l d) (h' : Heard d m e) :
    Heard c (l ++ m) e where
  messages := by rw [h'.messages, h.messages, List.append_assoc]
  pcitc := h'.pcitc.trans h.pcitc
  p2slave := h'.p2slave.trans h.p2slave

/-- Nothing is said; the frame's timecode and the generator's flags stay. -/
structure Mute (c d : Card TC) : Prop extends Heard c [] d where
  shown : d.frame.time.tcg = c.frame.time.tcg
  flags : d.tcg.flags = c.tcg.flags

theorem Mute.of_io {c d : Card TC} (h : d.io = c.io) (hp : d.pcitc = c.pcitc := by rfl)
    (hs : d.p2slave = c.p2slave := by rfl) (ht : d.frame.time.tcg = c.frame.time.tcg := by rfl)
    (hf : d.tcg.flags = c.tcg.flags := by rfl) : Mute c d := by
  refine ⟨⟨?_, hp, hs⟩, ht, hf⟩
  unfold Card.messages
  rw [h, List.append_nil]

theorem Mute.refl (c : Card TC) : Mute c c := .of_io rfl

theorem Mute.trans {c d e : Card TC} (h : Mute c d) (h' : Mute d e) : Mute c e where
  toHeard := h.toHeard.trans h'.toHeard
  shown := h'.shown.trans h.shown
  flags := h'.flags.trans h.flags

theorem Heard.mute {c d e : Card TC} {l : List (Io TC)} (h : Heard c l d) (h' : Mute d e) :
    Heard c l e := by
  have htrans := h.trans h'.toHeard
  rwa [List.append_nil] at htrans

theorem Mute.heard {c d e : Card TC} {l : List (Io TC)} (h : Mute c d) (h' : Heard d l e) :
    Heard c l e :=
  h.toHeard.trans h'

theorem heard_send (c : Card TC) {e : Io TC} (he : e.isMessage = true) : Heard c [e] (c.send e) :=
  ⟨messages_send c he, rfl, rfl⟩

theorem Mute.ite (p : Prop) [Decidable p] {c d : Card TC} (h : Mute c d) :
    Mute c (if p then d else c) := by
  split_ifs
  · exact h
  · exact .refl c

theorem mute_prset (c : Card TC) (r : Register) (v : ℤ) : Mute c (c.prset r v) :=
  ⟨⟨by rw [messages_prset, List.append_nil], rfl, rfl⟩, rfl, rfl⟩

/-! ### The engines -/

theorem mute_aplayStart (c : Card TC) : Mute c c.aplayStart :=
  (mute_prset c _ _).trans (mute_prset _ _ _)

theorem mute_aplayStop (c : Card TC) : Mute c c.aplayStop := mute_prset c _ _

theorem mute_acapStart (c : Card TC) : Mute c c.acapStart := by
  unfold acapStart
  exact ((((((mute_prset c _ _).trans (mute_prset _ _ _)).trans (mute_prset _ _ _)).trans
    (mute_prset _ _ _)).trans
    (mute_prset _ _ _)).trans (mute_prset _ _ _)).trans (mute_prset _ _ _)

theorem mute_acapStop (c : Card TC) : Mute c c.acapStop := mute_prset c _ _

theorem mute_frameAudio (c : Card TC) : Mute c (frameAudio c) := by
  have hcap := Mute.ite (c.stream.flags &&& ajaCapture ≠ 0) (mute_acapStart c)
  unfold frameAudio
  simp only
  split_ifs
  · exact (mute_acapStart c).trans ((mute_aplayStart _).trans (.of_io rfl))
  · exact (mute_acapStart c).trans (.of_io rfl)
  · exact (mute_aplayStart c).trans (.of_io rfl)
  · exact .of_io rfl
  · exact .refl c

theorem mute_setLast (c : Card TC) (i : ℤ) (l : LastPage) : Mute c (c.setLast i l) := .of_io rfl

theorem mute_playbackFrame (c : Card TC) (n : ℤ) : Mute c (streamPlaybackFrame c n).2 := by
  have hpop : ∀ P : Pool, Mute c (c.withPool P) := fun _ => .of_io rfl
  have htouch : ∀ (d : Card TC) (p : ℤ), Mute d (d.touch .pagemeta p) := fun _ _ => .of_io rfl
  unfold streamPlaybackFrame
  simp only
  split_ifs
  · exact hpop _
  · exact (hpop _).trans (htouch _ _)
  all_goals exact (((hpop _).trans (htouch _ _)).trans (mute_prset _ _ _)).trans (mute_setLast _ _ _)

theorem mute_captureFrame (c : Card TC) (n : ℤ) : Mute c (streamCaptureFrame c n).2 := by
  have halloc : ∀ P : Pool, Mute c (c.withPool P) := fun _ => .of_io rfl
  unfold streamCaptureFrame
  simp only
  split_ifs
  · exact halloc _
  all_goals exact ((halloc _).trans (mute_prset _ _ _)).trans (mute_setLast _ _ _)

theorem mute_aplayCheck (field : Bool) (c : Card TC) : Mute c (aplayCheck field c) := by
  have hset : ∀ a : Audio, Mute c { c with aplay := a } := fun _ => .of_io rfl
  unfold aplayCheck
  simp only
  split_ifs
  · exact (hset _).trans (mute_aplayStop _)
  · exact hset _
  · exact (hset _).trans (mute_aplayStart _)
  · exact .refl c

variable [Timecode TC]

theorem mute_playbackMeta (p : ℤ) (c : Card TC) : Mute c (playbackMeta p c) := by
  unfold playbackMeta
  simp only
  split_ifs <;> exact .of_io rfl

theorem mute_playbackLoad (c : Card TC) : Mute c (playbackLoad c) := by
  have hload :=
    loadLoop_rel Mute.refl (fun _ _ _ => Mute.trans) mute_playbackFrame c.stream.chans.toNat 0 0 c
  rcases playbackLoad_cases c with ⟨-, he⟩ | ⟨p, -, he⟩ <;> rw [he]
  · exact hload
  · exact hload.trans (mute_playbackMeta p _)

theorem mute_streamPlayback (c : Card TC) : Mute c (streamPlayback c) := by
  have hbump : ∀ P : Pool, Mute c (c.counted.withPool P) := fun _ => .of_io rfl
  rcases streamPlayback_cases c with ⟨-, he⟩ | he | he | he | he | he <;> rw [he]
  · exact .refl c
  iterate 4 exact .of_io rfl
  · exact (hbump _).trans (mute_playbackLoad _)

theorem mute_streamCapture (c : Card TC) : Mute c (streamCapture c) := by
  have hbump : ∀ (inc : ℤ) (d : Card TC), Mute d (captureBump inc d) := by
    intro inc d
    unfold captureBump
    split_ifs <;> exact .of_io rfl
  have hcount : Mute c c.counted := .of_io rfl
  have hloop : ∀ (inc : ℤ) (k : ℕ) (n : ℤ) (d : Card TC), Mute d (captureLoop inc k n d) :=
    fun inc =>
    captureLoop_rel Mute.refl (fun _ _ _ => Mute.trans) mute_captureFrame
      (fun _ _ _ => .of_io rfl) inc
  rcases streamCapture_cases c with ⟨-, he⟩ | he | he <;> rw [he]
  · exact .refl c
  · exact .of_io rfl
  · exact hcount.trans ((hbump _ c.counted).trans (hloop _ _ _ _))

theorem mute_frameEngines (c : Card TC) : Mute c (frameEngines c) :=
  ((mute_frameAudio c).trans (mute_streamPlayback _)).trans (mute_streamCapture _)

/-! ### Starts, stops and frames -/

/-- What `pcitc.run` is heard as. -/
def Card.heardRun (c : Card TC) (val : Bool) : List (Io TC) := if c.pcitc then [.ltcRun val] else []

omit [Timecode TC] in
theorem heard_ltcRun (c : Card TC) (val : Bool) : Heard c (c.heardRun val) (c.ltcRun val) := by
  unfold ltcRun heardRun
  split_ifs
  · exact heard_send c rfl
  · exact (Mute.refl c).toHeard

omit [Timecode TC] in
theorem shown_ltcRun (c : Card TC) (val : Bool) : (c.ltcRun val).frame.time.tcg = c.frame.time.tcg :=
  congrArg (fun frame => frame.time.tcg) (frame_ltcRun c val)

omit [Timecode TC] in
theorem heard_streamStart (c : Card TC) : Heard c (c.heardRun true) (streamStart c) := by
  set d : Card TC :=
    { c with stream :=
        { c.stream with trigger := 0, atrig := c.stream.flags &&& ajaTriggerAudio, running := true } }
  have hrun : Heard d (d.heardRun true) (d.ltcRun true) := heard_ltcRun d true
  exact ⟨hrun.messages, hrun.pcitc, hrun.p2slave⟩

omit [Timecode TC] in
/-- What follows the LTC board's stop. -/
theorem mute_stopModes (d : Card TC) :
    Mute d ((((if d.stream.flags &&& ajaTriggerAudio ≠ 0 then
      let d := if d.stream.flags &&& ajaPlayback ≠ 0 then d.aplayStop else d
      if d.stream.flags &&& ajaCapture ≠ 0 then d.acapStop else d else d).prset ch1mode 0).prset
        ch2mode 0).prset regclocking 0) :=
  ((((Mute.ite _ ((Mute.ite _ (mute_aplayStop d)).trans (Mute.ite _ (mute_acapStop _)))).trans
    (mute_prset _ _ _)).trans
    (mute_prset _ _ _)).trans (mute_prset _ _ _))

omit [Timecode TC] in
theorem heard_streamStop (c : Card TC) :
    Heard c (c.heardRun false) (streamStop c) ∧ (streamStop c).frame.time.tcg = c.frame.time.tcg ∧
      (streamStop c).tcg.flags = c.tcg.flags &&& ~~~ajaTcgRunning := by
  set d : Card TC :=
    { c with stream := { c.stream with trigger := 0, atrig := 0, running := false } }
  have hrun : Heard d (d.heardRun false) (d.ltcRun false) := heard_ltcRun d false
  have hclr : Heard c (c.heardRun false) ((d.ltcRun false).timecodeClrflags ajaTcgRunning) :=
    ⟨hrun.messages, hrun.pcitc, hrun.p2slave⟩
  have hflags : ((d.ltcRun false).timecodeClrflags ajaTcgRunning).tcg.flags =
      c.tcg.flags &&& ~~~ajaTcgRunning := by
    rw [timecodeClrflags, tcg_ltcRun]
  have hmodes := mute_stopModes ((d.ltcRun false).timecodeClrflags ajaTcgRunning)
  exact ⟨hclr.mute hmodes, hmodes.shown.trans (shown_ltcRun d false), hmodes.flags.trans hflags⟩

/-- Is the LTC board synchronized with this timecode? Above 30 fps only the even
frames are. -/
def LtcSynced (tc : TC) : Prop := if Timecode.fps tc > 30 then Timecode.frame tc % 2 = 0 else True

instance (tc : TC) : Decidable (LtcSynced tc) := inferInstanceAs (Decidable (ite _ _ _))

/-- The timecode given to an LTC board whose generator shows another one. -/
def heardLtc (gen : Option TC) (tc : TC) : List (Io TC) :=
  match gen with
  | none => []
  | some g => if !Timecode.compare g tc then [.ltcWrite tc] else []

theorem heard_timecodeSetLtc {c : Card TC} (h : c.pcitc = true) (gen : Option TC) (tc : TC) :
    Heard c (heardLtc gen tc) (c.timecodeSetLtc gen tc) := by
  unfold timecodeSetLtc heardLtc
  rw [h, if_neg (by decide)]
  cases gen with
  | none => exact (Mute.refl c).toHeard
  | some g =>
    simp only
    split_ifs
    · exact heard_send c rfl
    · exact (Mute.refl c).toHeard

/-- What a new frame says with the timecode `tc`. -/
def Card.heardFrame (c : Card TC) (gen : Option TC) (tc : TC) : List (Io TC) :=
  (if c.pcitc ∧ LtcSynced tc then
      heardLtc gen (Timecode.makevalidwire tc) ++ [.ltcSync true, .ltcSync false] else []) ++
    if c.p2slave then [.p2slaveSetTc (Timecode.makevalidwire tc)] else []

theorem heard_frameOutput (irq : FrameIrq TC) (srun : Bool) (c : Card TC) :
    Heard c (c.heardFrame irq.ltcgen c.tcg.value) (frameOutput irq srun c) := by
  set tc := c.tcg.value with htc
  set ntc := Timecode.makevalidwire (if srun then Timecode.inc tc else tc)
  set d : Card TC := { c with frame := { c.frame with time := { c.frame.time with tcg := tc } } }
  set e := (d.timecodeSetSdi1 ntc).timecodeSetSdi2 ntc
  set f := ((e.timecodeSetLtc irq.ltcgen (Timecode.makevalidwire tc)).send (.ltcSync true)).send
    (.ltcSync false)
  have hsdi : Heard c [] e := by
    have hmute : Mute d e :=
      (((mute_prset d _ _).trans (mute_prset _ _ _)).trans (mute_prset _ _ _)).trans
        (mute_prset _ _ _)
    exact ⟨hmute.messages, hmute.pcitc, hmute.p2slave⟩
  have hout : frameOutput irq srun c =
      let g := if c.pcitc ∧ LtcSynced tc then f else e
      if g.p2slave then g.send (.p2slaveSetTc (Timecode.makevalidwire tc)) else g := rfl
  have hltc : c.pcitc = true →
      Heard c (heardLtc irq.ltcgen (Timecode.makevalidwire tc) ++ [.ltcSync true, .ltcSync false])
        f := fun hp => by
    have hwrite := heard_timecodeSetLtc (hsdi.pcitc.trans hp) irq.ltcgen (Timecode.makevalidwire tc)
    exact hsdi.trans (hwrite.trans ((heard_send _ rfl).trans (heard_send _ rfl)))
  have hp2 : ∀ {g : Card TC} {l : List (Io TC)}, Heard c l g →
      Heard c (l ++ if c.p2slave then [.p2slaveSetTc (Timecode.makevalidwire tc)] else [])
        (if g.p2slave then g.send (.p2slaveSetTc (Timecode.makevalidwire tc)) else g) := by
    intro g l hg
    rw [hg.p2slave]
    split_ifs
    · exact hg.trans (heard_send g rfl)
    · exact hg.trans (Mute.refl g).toHeard
  rw [hout, heardFrame]
  simp only
  by_cases hsync : c.pcitc ∧ LtcSynced tc
  · rw [if_pos hsync, if_pos hsync]
    exact hp2 (hltc hsync.1)
  · rw [if_neg hsync, if_neg hsync]
    exact hp2 hsdi


/-! ### A whole frame -/

omit [Timecode TC] in
theorem mute_freeup (x : FreeupIn TC) (c : Card TC) : Mute c (streamFreeup x c) := by
  have hpool : ∀ (d : Card TC) (P : Pool), Mute d (d.withPool P) := fun _ _ => .of_io rfl
  have hmeta : ∀ (d : Card TC) (p : ℤ) (m : StreamMeta TC), Mute d (d.setMeta p m) :=
    fun _ _ _ => .of_io rfl
  have hslot : ∀ (i : ℤ) (d : Card TC), Mute d (freeupSlot x i d) := fun i d =>
    ((Mute.ite _ (hpool d _)).trans (Mute.ite _ ((hmeta _ _ _).trans (hpool _ _)))).trans
      (mute_setLast _ _ _)
  exact (hslot 0 c).trans (hslot 1 _)

/-- What the start of a new frame says: a trigger that is due starts the board. -/
def Card.heardCount (c : Card TC) : List (Io TC) := if c.control.Due then c.heardRun true else []

theorem heard_frameCount (irq : FrameIrq TC) (c : Card TC) :
    Heard c c.heardCount (frameCount irq c) ∧
      (frameCount irq c).tcg.flags = if c.control.Due then c.tcg.flags ||| ajaTcgRunning
        else c.tcg.flags := by
  have hcount : ∃ d : Card TC, Mute c d ∧
      Heard (if c.control.Due then streamStart d else d) [] (frameCount irq c) ∧
      (frameCount irq c).tcg = (if c.control.Due then streamStart d else d).tcg := by
    refine ⟨if c.tcg.flags &&& ajaTcgRunning ≠ 0 then
      Card.mapTcg { c with frame := { c.frame with id := c.frame.id + 1 } } fun tc =>
        Timecode.clearField2 (Timecode.inc tc)
      else { c with frame := { c.frame with id := c.frame.id + 1 } }, ?_, ?_, ?_⟩
    · split_ifs <;> exact .of_io rfl
    · exact ⟨(List.append_nil _).symm, rfl, rfl⟩
    · rfl
  obtain ⟨d, hd, hheard, htcg⟩ := hcount
  unfold Card.heardCount
  rw [htcg]
  by_cases hdue : c.control.Due
  · simp only [if_pos hdue] at hheard ⊢
    have hstart : Heard d (c.heardRun true) (streamStart d) := by
      have hrun := heard_streamStart d
      rwa [Card.heardRun, hd.pcitc] at hrun
    refine ⟨?_, by rw [tcg_streamStart, hd.flags]⟩
    have htrans := (hd.heard hstart).trans hheard
    rwa [List.append_nil] at htrans
  · simp only [if_neg hdue] at hheard ⊢
    exact ⟨hd.heard hheard, hd.flags⟩

/-- A new frame: the start of a stream whose trigger is due, then the timecode. -/
theorem heard_newFrame (irq : FrameIrq TC) (c : Card TC) :
    Heard c (c.heardCount ++ c.heardFrame irq.ltcgen (newFrame irq c).tcg.value)
    (newFrame irq c) := by
  obtain ⟨hcount, -⟩ := heard_frameCount irq c
  set d := streamFreeup irq.freeupIn (frameCount irq c)
  have hengines : Mute d (if c.stream.running then frameEngines d else d) :=
    Mute.ite _ (mute_frameEngines d)
  have hbefore : Heard c c.heardCount (if c.stream.running then frameEngines d else d) :=
    (hcount.mute (mute_freeup _ _)).mute hengines
  have hout :=
    heard_frameOutput irq c.stream.running (if c.stream.running then frameEngines d else d)
  have hnew : newFrame irq c = frameOutput irq c.stream.running
      (if c.stream.running then frameEngines d else d) := rfl
  rw [Card.heardFrame, hbefore.pcitc, hbefore.p2slave] at hout
  rw [hnew, tcg_frameOutput]
  exact hbefore.trans hout

theorem genflags_newFrame (irq : FrameIrq TC) (c : Card TC) :
    (newFrame irq c).tcg.flags = if c.control.Due then c.tcg.flags ||| ajaTcgRunning
      else c.tcg.flags := by
  set d := streamFreeup irq.freeupIn (frameCount irq c)
  have hengines : Mute d (if c.stream.running then frameEngines d else d) :=
    Mute.ite _ (mute_frameEngines d)
  have hnew : newFrame irq c = frameOutput irq c.stream.running
      (if c.stream.running then frameEngines d else d) := rfl
  rw [hnew, tcg_frameOutput, hengines.flags, (mute_freeup _ _).flags]
  exact (heard_frameCount irq c).2

/-- The timecode of the frame is the generator's. -/
theorem shown_frameOutput (irq : FrameIrq TC) (srun : Bool) (c : Card TC) :
    (frameOutput irq srun c).frame.time.tcg = c.tcg.value :=
  frameOutput_keeps (fun c => c.frame.time.tcg) (fun _ _ _ => rfl) irq srun c

/-! ### The operations -/

/-- What an operation says. -/
def Op.heard (c : Card TC) : Op TC → List (Io TC)
  | .frame irq =>
    if irq.field then [] else c.heardCount ++ c.heardFrame irq.ltcgen (handleFrame irq c).tcg.value
  | .streamStart .frame => if c.stream.running then [] else c.heardRun true
  | .streamStop .frame => c.heardRun false
  | .release pid => if c.stream.running ∧ pid = c.stream.pid then c.heardRun false else []
  | _ => []


/-- The generator's flags after an operation. -/
def Op.genflags (c : Card TC) : Op TC → BitVec 32
  | .frame irq => if ¬ irq.field ∧ c.control.Due then c.tcg.flags ||| ajaTcgRunning else c.tcg.flags
  | .streamStart .frame => if c.stream.running then c.tcg.flags else c.tcg.flags ||| ajaTcgRunning
  | .streamStop .frame => c.tcg.flags &&& ~~~ajaTcgRunning
  | .release pid =>
    if c.stream.running ∧ pid = c.stream.pid then c.tcg.flags &&& ~~~ajaTcgRunning else c.tcg.flags
  | .timecodeSetflags flags => c.tcg.flags ||| flags
  | .timecodeClrflags flags => c.tcg.flags &&& ~~~flags
  | _ => c.tcg.flags

/-- The timecode of the card's frame after an operation. -/
def Op.shown (c : Card TC) : Op TC → TC
  | .frame irq => if irq.field then c.frame.time.tcg else (handleFrame irq c).tcg.value
  | _ => c.frame.time.tcg

/-- What an operation does to what is heard of the card. -/
structure Hears (c : Card TC) (op : Op TC) (d : Card TC) : Prop where
  heard : Heard c (op.heard c) d
  flags : d.tcg.flags = op.genflags c
  shown : d.frame.time.tcg = op.shown c

/-- An operation that says nothing. -/
theorem Hears.of_mute {c d : Card TC} {op : Op TC} (h : Mute c d) (hs : op.heard c = [])
    (hf : op.genflags c = c.tcg.flags) (ht : op.shown c = c.frame.time.tcg) : Hears c op d where
  heard := hs ▸ h.toHeard
  flags := h.flags.trans hf.symm
  shown := h.shown.trans ht.symm

theorem hears_handleFrame (irq : FrameIrq TC) (c : Card TC) :
    Hears c (.frame irq) (handleFrame irq c) := by
  have hcheck : Mute (if ¬ irq.field then newFrame irq c else secondField c) (handleFrame irq c) :=
    mute_aplayCheck _ _
  by_cases hf : irq.field = true
  · rw [if_neg (not_not.mpr hf)] at hcheck
    have hsecond : Mute c (secondField c) := Mute.ite _ (.of_io rfl)
    refine .of_mute (hsecond.trans hcheck) ?_ ?_ ?_
    · simp [Op.heard, hf]
    · simp [Op.genflags, hf]
    · simp [Op.shown, hf]
  · rw [if_pos hf] at hcheck
    have htcg : (handleFrame irq c).tcg = (newFrame irq c).tcg := by
      unfold handleFrame
      rw [tcg_aplayCheck, if_pos hf]
    refine ⟨?_, ?_, ?_⟩
    · rw [Op.heard, if_neg hf, htcg]
      exact (heard_newFrame irq c).mute hcheck
    · rw [htcg, genflags_newFrame]
      simp [Op.genflags, hf]
    · rw [hcheck.shown, Op.shown, if_neg hf, htcg, newFrame, shown_frameOutput, tcg_frameOutput]

omit [Timecode TC] in
theorem mute_streamInit (c : Card TC) (pid : ℤ) (stinit : StreamInit) :
    Mute c (streamInit c pid stinit) := by
  have hclear : ∀ s : Stream TC, Mute c { c with stream := s } := fun _ => .of_io rfl
  unfold streamInit
  simp only
  refine .trans ?_ (mute_prset _ _ _)
  split_ifs <;>
    exact (((hclear _).trans (mute_prset _ _ _)).trans (mute_prset _ _ _)).trans (mute_prset _ _ _)

omit [Timecode TC] in
/-- Every part of `STREAM_START` but the start itself. -/
theorem mute_startSetup (c : Card TC) : Mute c
    { c.prset regclocking 2 with
      stream :=
  { (c.prset regclocking 2).stream with speed := 1 * ajaSpeedDivisor, spdct := 0 } } :=
  (mute_prset c _ _).trans (.of_io rfl)

theorem hears_exec (M : ModParams) (c : Card TC) (op : Op TC) : Hears c op (exec M c op).2 := by
  have hquiet : ∀ {d : Card TC}, Mute c d → op.heard c = [] → op.genflags c = c.tcg.flags →
    op.shown c = c.frame.time.tcg →
      Hears c op d := fun h => .of_mute h
  cases op with
  | streamInit pid i => exact hquiet (mute_streamInit c pid i) rfl rfl rfl
  | streamStart w =>
    show Hears c _ (ioctlStreamStart c w).2
    unfold ioctlStreamStart
    simp only
    split_ifs with hrun
    · refine hquiet (.refl c) ?_ ?_ rfl <;> cases w <;> simp [Op.heard, Op.genflags, hrun]
    · have hsetup := mute_startSetup c
      cases w with
      | frame =>
        have hstart := heard_streamStart { c.prset regclocking 2 with
          stream :=
            { (c.prset regclocking 2).stream with speed := 1 * ajaSpeedDivisor, spdct := 0 } }
        refine ⟨?_, ?_, ?_⟩
        · rw [Op.heard, if_neg hrun]
          exact hsetup.heard hstart
        · rw [Op.genflags, if_neg hrun, tcg_streamStart]
          rfl
        · exact (shown_ltcRun _ true).trans hsetup.shown
      | timeout => exact hquiet hsetup rfl rfl rfl
      | signal => exact hquiet hsetup rfl rfl rfl
  | streamStop w =>
    cases w with
    | frame =>
      obtain ⟨hheard, hshown, hflags⟩ := heard_streamStop c
      exact ⟨hheard, hflags, hshown⟩
    | timeout => exact hquiet (.refl c) rfl rfl rfl
    | signal => exact hquiet (.refl c) rfl rfl rfl
  | release pid =>
    show Hears c _ (AjaDriver.release c pid)
    unfold AjaDriver.release
    split_ifs with h
    · obtain ⟨hheard, hshown, hflags⟩ := heard_streamStop c
      refine ⟨?_, ?_, hshown⟩
      · rwa [Op.heard, if_pos h]
      · rwa [Op.genflags, if_pos h]
    · exact hquiet (.refl c) (if_neg h) (if_neg h) rfl
  | getmeta page =>
    show Hears c _ (ioctlGetmeta c page).2
    unfold ioctlGetmeta
    split_ifs <;> exact hquiet (.of_io rfl) rfl rfl rfl
  | setmeta page m =>
    show Hears c _ (ioctlSetmeta c page m).2
    unfold ioctlSetmeta
    split_ifs <;> exact hquiet (.of_io rfl) rfl rfl rfl
  | pageAlloc => exact hquiet (.of_io rfl) rfl rfl rfl
  | pageFree page => exact hquiet (.of_io rfl) rfl rfl rfl
  | fifoPush page => exact hquiet (.of_io rfl) rfl rfl rfl
  | fifoPop => exact hquiet (.of_io rfl) rfl rfl rfl
  | setspeed speed => exact hquiet (.of_io rfl) rfl rfl rfl
  | settrig trig =>
    show Hears c _ (ioctlSettrig c trig).2
    unfold ioctlSettrig
    split_ifs <;> exact hquiet (.of_io rfl) rfl rfl rfl
  | aframeAdd frames => exact hquiet (.of_io rfl) rfl rfl rfl
  | timecodeSetflags flags => exact ⟨⟨(List.append_nil _).symm, rfl, rfl⟩, rfl, rfl⟩
  | timecodeClrflags flags => exact ⟨⟨(List.append_nil _).symm, rfl, rfl⟩, rfl, rfl⟩
  | timecodeSet tc => exact hquiet (.of_io rfl) rfl rfl rfl
  | frame irq => exact hears_handleFrame irq c

end AjaDriver
