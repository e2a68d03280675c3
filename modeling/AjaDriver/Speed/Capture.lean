/-
# The speed override in capture

The frame handler moves a running timecode generator on by one frame, and
`aja_stream_capture` then corrects it by the frames due: back by one if none is,
on by the others if there are more than one. Over any run of interrupts and
calls in which no frame is dropped, the timecode is not set and the stream goes
on, the generator moves by the whole frames of the speeds read, and every page
armed carries its value after the correction and by how much it moved
(`capture_exact`). What a timecode is does not matter, as long as the operations
on it move its frame number as they say (`Numbers`).
-/
import AjaDriver.Speed
import AjaDriver.Tcg
import AjaDriver.Writes

namespace AjaDriver

open Function Word Card

variable {TC : Type}

/-! ### The pages armed -/

/-- The metadata of a page armed with `inc` frames due and the generator at `tc`. -/
structure Stamped (inc : ℤ) (tc : TC) (m : StreamMeta TC) : Prop where
  inc : m.inc = inc
  internal : m.tc .internal = tc

theorem pagemeta_captureFrame (c : Card TC) (n : ℤ) :
    (streamCaptureFrame c n).2.stream.pagemeta = c.stream.pagemeta := by
  unfold streamCaptureFrame
  simp only
  split_ifs <;> rfl

theorem steady_captureFrame (c : Card TC) (n : ℤ) : Steady c (streamCaptureFrame c n).2 := by
  unfold streamCaptureFrame
  simp only
  split_ifs
  · exact steady_withPool c _
  all_goals exact (steady_withPool c _).trans ((steady_prset _ _ _).trans (steady_setLast _ _ _))

/-- A channel is given the page that is returned, or none. -/
theorem inputs_captureFrame (c : Card TC) (n : ℤ) :
    ((streamCaptureFrame c n).1 < 0 → (streamCaptureFrame c n).2.inputs = c.inputs) ∧
      (¬ (streamCaptureFrame c n).1 < 0 →
        ∃ chan, (streamCaptureFrame c n).2.inputs =
          c.inputs ++ [(chan, (streamCaptureFrame c n).1)]) := by
  have hinput : ∀ p : ℤ, ∃ chan, inputOf (.prset (if n ≠ 0 then ch2input else ch1input) p : Io TC) =
      some (chan, p) := by
    intro p
    split_ifs
    · exact ⟨1, rfl⟩
    · exact ⟨0, rfl⟩
  unfold streamCaptureFrame
  simp only
  by_cases hneg : (c.stream.pool.streamPageAlloc c.stream.pagect).1 < 0
  · rw [if_pos hneg]
    exact ⟨fun _ => rfl, fun h => absurd (show (-ENOMEM : ℤ) < 0 by decide) h⟩
  · rw [if_neg hneg]
    obtain ⟨chan, hchan⟩ := hinput (c.stream.pool.streamPageAlloc c.stream.pagect).1
    refine ⟨fun h => absurd h hneg, fun _ => ⟨chan, ?_⟩⟩
    rw [inputs_setLast, inputs_prset, hchan, inputs_withPool]
    rfl

variable [Timecode TC]

theorem stamped_captureMeta (c : Card TC) (n inc : ℤ) :
    Stamped inc c.tcg.value (captureMeta c n inc) where
  inc := rfl
  internal := by simp [captureMeta]

theorem steady_captureLoop (inc : ℤ) (k : ℕ) (n : ℤ) (c : Card TC) :
    Steady c (captureLoop inc k n c) :=
  captureLoop_rel .refl (fun _ _ _ => .trans) steady_captureFrame steady_setMeta inc k n c

/-- A page once stamped stays so: what the loop writes is the same stamp. -/
theorem captureLoop_stamped (inc : ℤ) : ∀ (k : ℕ) (n : ℤ) (c : Card TC) {p : ℤ},
    Stamped inc c.tcg.value (c.stream.pagemeta p) →
      Stamped inc c.tcg.value ((captureLoop inc k n c).stream.pagemeta p)
  | 0, _, _, _, h => h
  | k + 1, n, c, p, h => by
    have htcg : (streamCaptureFrame c n).2.tcg = c.tcg := (beside_captureFrame c n).tcg
    unfold captureLoop
    simp only
    split_ifs
    · rw [pagemeta_captureFrame]
      exact h
    · set d := (streamCaptureFrame c n).2.setMeta (streamCaptureFrame c n).1
        (captureMeta (streamCaptureFrame c n).2 n inc)
      have htcg' : d.tcg = c.tcg := htcg
      have hmeta : d.stream.pagemeta = update (streamCaptureFrame c n).2.stream.pagemeta
        (streamCaptureFrame c n).1
        (captureMeta (streamCaptureFrame c n).2 n inc) := rfl
      have hd : Stamped inc d.tcg.value (d.stream.pagemeta p) := by
        rw [htcg', hmeta, update_apply]
        split_ifs
        · have hstamp := stamped_captureMeta (streamCaptureFrame c n).2 n inc
          rwa [htcg] at hstamp
        · rw [pagemeta_captureFrame]
          exact h
      have hrest := captureLoop_stamped inc k (n + 1) d hd
      rwa [htcg'] at hrest

/-- Every page that the loop arms is stamped. -/
theorem captureLoop_armed (inc : ℤ) : ∀ (k : ℕ) (n : ℤ) (c : Card TC),
    ∃ l, (captureLoop inc k n c).inputs = c.inputs ++ l ∧
      ∀ e ∈ l, Stamped inc c.tcg.value ((captureLoop inc k n c).stream.pagemeta e.2)
  | 0, _, _ => ⟨[], (List.append_nil _).symm, fun _ he => absurd he List.not_mem_nil⟩
  | k + 1, n, c => by
    have htcg : (streamCaptureFrame c n).2.tcg = c.tcg := (beside_captureFrame c n).tcg
    obtain ⟨hnone, hone⟩ := inputs_captureFrame c n
    unfold captureLoop
    simp only
    split_ifs with hneg
    · exact ⟨[], by rw [hnone hneg, List.append_nil], fun _ he => absurd he List.not_mem_nil⟩
    · obtain ⟨chan, hinputs⟩ := hone hneg
      set d := (streamCaptureFrame c n).2.setMeta (streamCaptureFrame c n).1
        (captureMeta (streamCaptureFrame c n).2 n inc)
      have htcg' : d.tcg = c.tcg := htcg
      obtain ⟨l, hl, hstamped⟩ := captureLoop_armed inc k (n + 1) d
      have hfirst : Stamped inc d.tcg.value (d.stream.pagemeta (streamCaptureFrame c n).1) := by
        have hmeta : d.stream.pagemeta (streamCaptureFrame c n).1 =
          captureMeta (streamCaptureFrame c n).2 n inc :=
          update_self ..
        rw [hmeta]
        exact stamped_captureMeta _ n inc
      have hkept := captureLoop_stamped inc k (n + 1) d hfirst
      rw [htcg'] at hstamped hkept
      refine ⟨(chan, (streamCaptureFrame c n).1) :: l, ?_,
        List.forall_mem_cons.mpr ⟨hkept, hstamped⟩⟩
      rw [hl, show d.inputs = (streamCaptureFrame c n).2.inputs from rfl, hinputs,
        List.append_assoc]
      rfl

/-! ### One interrupt -/

theorem streamCapture_full {c : Card TC} (hf : c.stream.flags &&& ajaCapture ≠ 0)
    (hfull : wrap (c.stream.pagect - c.stream.pool.fifo) ≤ c.stream.chans) :
    streamCapture c = streamDrop c := by
  unfold streamCapture
  rw [if_neg hf, if_pos hfull]

theorem streamCapture_counted {c : Card TC} (hf : c.stream.flags &&& ajaCapture ≠ 0)
    (hfull : ¬ wrap (c.stream.pagect - c.stream.pool.fifo) ≤ c.stream.chans) :
    streamCapture c = captureLoop c.due c.stream.chans.toNat 0 (captureBump c.due c.counted) := by
  unfold streamCapture
  rw [if_neg hf, if_neg hfull]
  rfl

theorem captureBump_keeps (inc : ℤ) (c : Card TC) :
    (captureBump inc c).stream = c.stream ∧ (captureBump inc c).io = c.io ∧
      (captureBump inc c).tcg.flags = c.tcg.flags := by
  unfold captureBump
  split_ifs <;> exact ⟨rfl, rfl, rfl⟩

/-- The capture engine counts a drop, or the frames due; the setting stays. -/
theorem streamCapture_outcome {c : Card TC} (hf : c.stream.flags &&& ajaCapture ≠ 0) :
    ((streamCapture c).stream.flags = c.stream.flags ∧
      (streamCapture c).stream.speed = c.stream.speed ∧
        (streamCapture c).tcg.flags = c.tcg.flags) ∧
      ((streamCapture c).stream.drop.count = c.stream.drop.count + 1 ∧
        (streamCapture c).stream.spdct = c.stream.spdct ∨
        (streamCapture c).stream.drop.count = c.stream.drop.count ∧
          (streamCapture c).stream.spdct = (streamSpeedcount c.stream).2.spdct ∧
          (streamCapture c).tcg.value = (captureBump c.due c).tcg.value ∧
          ∃ l, (streamCapture c).inputs = c.inputs ++ l ∧
            ∀ e ∈ l, Stamped c.due (streamCapture c).tcg.value
              ((streamCapture c).stream.pagemeta e.2)) := by
  by_cases hfull : wrap (c.stream.pagect - c.stream.pool.fifo) ≤ c.stream.chans
  · rw [streamCapture_full hf hfull]
    exact ⟨⟨rfl, rfl, rfl⟩, Or.inl ⟨rfl, rfl⟩⟩
  · rw [streamCapture_counted hf hfull]
    obtain ⟨hstream, hio, hflags⟩ := captureBump_keeps c.due c.counted
    set b := captureBump c.due c.counted with hb
    have hvalue : b.tcg.value = (captureBump c.due c).tcg.value := by
      rw [hb]
      unfold captureBump
      split_ifs <;> rfl
    have hloop := steady_captureLoop c.due c.stream.chans.toNat 0 b
    have htcg := (beside_captureLoop c.due c.stream.chans.toNat 0 b).tcg
    obtain ⟨l, hl, hstamped⟩ := captureLoop_armed c.due c.stream.chans.toNat 0 b
    have hinputs : b.inputs = c.inputs := congrArg (List.filterMap inputOf) hio
    rw [hinputs] at hl
    rw [← htcg] at hstamped
    refine ⟨⟨?_, ?_, ?_⟩, Or.inr ⟨?_, ?_, ?_, l, hl, hstamped⟩⟩
    · rw [hloop.flags, hstream]
      rfl
    · rw [hloop.speed, hstream]
      rfl
    · rw [htcg, hflags]
      rfl
    · rw [hloop.drops, hstream]
      rfl
    · rw [hloop.spdct, hstream]
      rfl
    · rw [htcg, hvalue]

/-- The card that the capture engine finds in an interrupt: the frame's start moved
the generator, and what came after it the pages of the last frame. -/
theorem handleFrame_recording {irq : FrameIrq TC} (hf : irq.field = false) {c : Card TC}
    (hm : Mode.capture.Of c.stream.flags) (hrun : c.stream.running = true) :
    ∃ a : Card TC, Steady c a ∧ a.tcg = (frameCount irq c).tcg ∧ a.inputs = c.inputs ∧
      (handleFrame irq c).stream = (streamCapture a).stream ∧
      (handleFrame irq c).tcg = (streamCapture a).tcg ∧
      (handleFrame irq c).inputs = (streamCapture a).inputs := by
  set b := streamFreeup irq.freeupIn (frameCount irq c) with hb
  have hsteady : Steady c (frameAudio b) :=
    ((steady_frameCount irq c).trans (steady_freeup _ _)).trans (steady_frameAudio b)
  have hinputs : (frameAudio b).inputs = c.inputs := by
    have hfree : b.inputs = (frameCount irq c).inputs := by
      unfold Card.inputs
      rw [hb, io_freeup]
    rw [inputs_of_view (view_frameAudio b), hfree, inputs_of_view (view_frameCount irq c)]
  have heng : frameEngines b = streamCapture (frameAudio b) := by
    unfold frameEngines
    rw [streamPlayback_idle (by rw [hsteady.flags]; exact hm)]
  have hstream := stream_handleFrame_first hf c
  have htcg := tcg_handleFrame_first hf c
  have hview := view_handleFrame_first hf c
  rw [if_pos hrun, ← hb, heng] at hstream htcg hview
  exact ⟨frameAudio b, hsteady, ((beside_freeup _ _).trans (beside_frameAudio b)).tcg, hinputs,
    hstream, htcg, inputs_of_view hview⟩

/-- A running capture stream within the limit whose timecode generator runs. -/
structure Recording (M : ModParams) (c : Card TC) : Prop where
  mode : Mode.capture.Of c.stream.flags
  running : c.stream.running = true
  generating : c.Generating
  paced : Paced M c

/-- The operations of a run: no timecode call, and none that inits, starts, stops
or releases the stream. -/
def Recordable : Op TC → Prop
  | .setspeed v => wrap v = v
  | .streamInit _ _ | .streamStart _ | .streamStop _ | .release _ => False
  | .timecodeSetflags _ | .timecodeClrflags _ | .timecodeSet _ => False
  | .getmeta _ | .setmeta _ _ | .pageAlloc | .pageFree _ | .fifoPush _ | .fifoPop | .settrig _
    | .aframeAdd _ | .frame _ =>
    True

instance Recordable.decidable : ∀ op : Op TC, Decidable (Recordable op)
  | .setspeed v => inferInstanceAs (Decidable (wrap v = v))
  | .streamInit _ _ | .streamStart _ | .streamStop _ | .release _ | .timecodeSetflags _
    | .timecodeClrflags _
  | .timecodeSet _ => instDecidableFalse
  | .getmeta _ | .setmeta _ _ | .pageAlloc | .pageFree _ | .fifoPush _ | .fifoPop | .settrig _
    | .aframeAdd _ | .frame _ =>
    instDecidableTrue

omit [Timecode TC] in
theorem Recordable.int {op : Op TC} (h : Recordable op) : SpeedInt op := by
  cases op with
  | setspeed v => exact h
  | _ => trivial

/-- What a call leaves alone that is none of the recording's. -/
structure Aside (c d : Card TC) : Prop extends Steady c d where
  running : d.stream.running = c.stream.running
  tcg : d.tcg = c.tcg
  inputs : d.inputs = c.inputs

omit [Timecode TC] in
theorem Aside.refl (c : Card TC) : Aside c c := ⟨.refl c, rfl, rfl, rfl⟩

omit [Timecode TC] in
theorem aside_withPool (c : Card TC) (P : Pool) : Aside c (c.withPool P) :=
  ⟨steady_withPool c P, rfl, rfl, rfl⟩

/-- The calls on pages, the FIFO, the metadata, the trigger and the audio. -/
theorem aside_exec {M : ModParams} {op : Op TC} (h : Recordable op)
    (hspeed : ∀ v, op ≠ .setspeed v) (hframe : ∀ irq, op ≠ .frame irq) (c : Card TC) :
    Aside c (exec M c op).2 := by
  cases op with
  | getmeta p =>
    show Aside c (ioctlGetmeta c p).2
    unfold ioctlGetmeta
    split_ifs
    · exact .refl c
    · exact aside_withPool c _
  | setmeta p m =>
    show Aside c (ioctlSetmeta c p m).2
    unfold ioctlSetmeta
    split_ifs
    · exact .refl c
    · exact ⟨steady_setMeta c p m, rfl, rfl, rfl⟩
  | pageAlloc => exact aside_withPool c _
  | pageFree p => exact aside_withPool c _
  | fifoPush p => exact aside_withPool c _
  | fifoPop => exact aside_withPool c _
  | settrig trig =>
    show Aside c (ioctlSettrig c trig).2
    unfold ioctlSettrig
    split_ifs
    · exact .refl c
    · exact ⟨⟨rfl, rfl, rfl, rfl, rfl, rfl⟩, rfl, rfl, rfl⟩
  | aframeAdd frames => exact ⟨⟨rfl, rfl, rfl, rfl, rfl, rfl⟩, rfl, rfl, rfl⟩
  | setspeed v => exact absurd rfl (hspeed v)
  | frame irq => exact absurd rfl (hframe irq)
  | _ => exact h.elim

omit [Timecode TC] in
/-- Such a call goes on recording, and reads no speed. -/
theorem Recording.aside {M : ModParams} {c d : Card TC} (h : Recording M c) (ha : Aside c d) :
    Recording M d := by
  refine ⟨?_, ha.running.trans h.running, ?_, ⟨?_, ?_, ?_, ?_⟩⟩
  · rw [ha.flags]
    exact h.mode
  · unfold Card.Generating
    rw [ha.tcg]
    exact h.generating
  · rw [ha.spdct]
    exact h.paced.spdct_nonneg
  · rw [ha.spdct]
    exact h.paced.spdct_lt
  · rw [ha.speed]
    exact h.paced.speed_nonneg
  · rw [ha.speed]
    exact h.paced.speed_le

omit [Timecode TC] in
theorem Recording.passes_aside {M : ModParams} {c d : Card TC} (h : Recording M c)
    (ha : Aside c d) {op : Op TC}
    (hop : ∀ v more, speedsRead M v (op :: more) = speedsRead M v more) : Passes M c d [op] := by
  have hnone : speedsRead M c.stream.speed [op] = [] := hop _ []
  refine ⟨fun more => ?_, ?_⟩
  · rw [hnone, ha.speed]
    exact hop _ more
  · rw [hnone, ha.spdct]
    exact (Accumulator.rest_nil h.paced.spdct_nonneg h.paced.spdct_lt).symm

/-- The timecode's operations move its frame number by what they say; the flags of
the fields are no part of it. -/
structure Numbers {G : Type*} [AddCommGroupWithOne G] (number : TC → G) : Prop where
  inc : ∀ tc, number (Timecode.inc tc) = number tc + 1
  dec : ∀ tc, number (Timecode.dec tc) = number tc - 1
  clearField2 : ∀ tc, number (Timecode.clearField2 tc) = number tc
  setField2 : ∀ tc, number (Timecode.setField2 tc) = number tc

section Number

variable {G : Type*} [AddCommGroupWithOne G] {number : TC → G}

theorem Numbers.iterate (h : Numbers number) (tc : TC) :
    ∀ n : ℕ, number (Timecode.inc^[n] tc) = number tc + n
  | 0 => by rw [iterate_zero_apply, Nat.cast_zero, add_zero]
  | n + 1 => by
    rw [iterate_succ_apply', h.inc, h.iterate tc n, Nat.cast_succ, add_assoc]

/-- The engine's correction takes back the frame that the handler added. -/
theorem Numbers.captureBump (h : Numbers number) (inc : ℕ) (c : Card TC) :
    number (captureBump inc c).tcg.value + 1 = number c.tcg.value + inc := by
  unfold AjaDriver.captureBump
  cases inc with
  | zero =>
    rw [if_pos Nat.cast_zero]
    show number (Timecode.dec c.tcg.value) + 1 = _
    rw [h.dec, sub_add_cancel, Nat.cast_zero, add_zero]
  | succ n =>
    rw [if_neg (by omega), if_pos (by omega)]
    show number (Timecode.inc^[(((n + 1 : ℕ) : ℤ) - 1).toNat] c.tcg.value) + 1 = _
    rw [show (((n + 1 : ℕ) : ℤ) - 1).toNat = n by omega, h.iterate, Nat.cast_succ, add_assoc]

variable {M : ModParams}

/-- What an interrupt does that captures `r` frames: the generator moves by them,
and the pages armed say so. -/
structure Advances (number : TC → G) (c d : Card TC) (r : ℕ) : Prop where
  number : number d.tcg.value = number c.tcg.value + r
  stamped : ∀ e ∈ d.inputs.drop c.inputs.length, Stamped r d.tcg.value (d.stream.pagemeta e.2)

/-- A new frame goes on recording; if it drops nothing, it captures the frames due
and leaves the rest. -/
theorem Recording.newFrame (hn : Numbers number) (hM : M.SpeedFits) {c : Card TC}
    (h : Recording M c) {irq : FrameIrq TC} (hf : irq.field = false) :
    Recording M (handleFrame irq c) ∧ c.stream.drop.count ≤ (handleFrame irq c).stream.drop.count ∧
      (handleFrame irq c).stream.speed = c.stream.speed ∧
      ((handleFrame irq c).stream.drop.count = c.stream.drop.count →
        (handleFrame irq c).stream.spdct = (streamSpeedcount c.stream).2.spdct ∧
          ∀ r : ℕ, c.due = r → Advances number c (handleFrame irq c) r) := by
  obtain ⟨a, hsteady, htcg, hinputs, hstream, htcg', hinputs'⟩ :=
    handleFrame_recording hf h.mode h.running
  obtain ⟨hvalue, hgen⟩ := frameCount_generating irq h.generating
  have hcap : a.stream.flags &&& ajaCapture ≠ 0 := by
    rw [hsteady.flags]
    exact h.mode.2.mpr rfl
  have hdue : a.due = c.due := hsteady.due
  have hrest := (h.paced.speedcount hM).2
  obtain ⟨⟨hflags, hspeed, htcgflags⟩, houtcome⟩ := streamCapture_outcome hcap
  rw [← hstream, hsteady.flags] at hflags
  rw [← hstream, hsteady.speed] at hspeed
  rw [← htcg', htcg] at htcgflags
  have hgoes : 0 ≤ (handleFrame irq c).stream.spdct →
    (handleFrame irq c).stream.spdct < ajaSpeedDivisor →
      Recording M (handleFrame irq c) := by
    intro h0 h1
    refine ⟨by rw [hflags]; exact h.mode, running_handleFrame irq h.running, ?_, ⟨h0, h1, ?_, ?_⟩⟩
    · unfold Card.Generating
      rw [htcgflags]
      exact hgen
    · rw [hspeed]
      exact h.paced.speed_nonneg
    · rw [hspeed]
      exact h.paced.speed_le
  rw [← hstream, hsteady.drops, hsteady.spdct, hsteady.counted, hdue, ← htcg', ← hinputs',
    hinputs] at houtcome
  rcases houtcome with ⟨hdrop, hspdct⟩ | ⟨hdrop, hspdct, hbump, l, hl, hstamped⟩
  · exact ⟨hgoes (by rw [hspdct]; exact h.paced.spdct_nonneg)
      (by rw [hspdct]; exact h.paced.spdct_lt), by omega, hspeed,
      fun he => by omega⟩
  · refine ⟨hgoes (by rw [hspdct, hrest]; exact Accumulator.rest_nonneg (by decide) _)
      (by rw [hspdct, hrest]; exact Accumulator.rest_lt divisor_pos _), hdrop.ge, hspeed, fun _ =>
        ⟨hspdct, fun r hr => ?_⟩⟩
    have hmoved := hn.captureBump r a
    rw [hr] at hbump hstamped
    rw [← hbump, htcg, hvalue, hn.clearField2, hn.inc] at hmoved
    refine ⟨?_, ?_⟩
    · have hsum : number (handleFrame irq c).tcg.value + 1 = number c.tcg.value + r + 1 := by
        rw [hmoved, add_right_comm]
      exact add_right_cancel hsum
    · rw [hl, List.drop_left]
      exact hstamped

omit [Timecode TC] in
theorem Advances.none {c d : Card TC} (htcg : number d.tcg.value = number c.tcg.value)
    (hinputs : d.inputs = c.inputs) :
    Advances number c d 0 := by
  refine ⟨by rw [htcg, Nat.cast_zero, add_zero], fun e he => ?_⟩
  rw [hinputs, List.drop_length] at he
  exact absurd he List.not_mem_nil

/-! ### Runs -/

/-- The second field of a frame goes on recording, and nothing is due in it. -/
theorem Recording.secondField (hn : Numbers number) {c : Card TC} (h : Recording M c)
    {irq : FrameIrq TC} (hf : irq.field = true) :
    Recording M (handleFrame irq c) ∧ (handleFrame irq c).stream.drop.count = c.stream.drop.count ∧
      Passes M c (handleFrame irq c) [.frame irq] ∧
      Advances number c (handleFrame irq c) (framesDue M c [.frame irq]) := by
  have hstream := stream_handleFrame_second hf c
  have htcg := tcg_handleFrame_second hf h.generating
  have hinputs : (handleFrame irq c).inputs = c.inputs :=
    inputs_of_view (view_handleFrame_second hf c)
  have hnone : framesDue M c [.frame irq] = 0 :=
    (framesDue_secondField hf rfl []).trans (framesDue_nil h.paced)
  have hread : ∀ v more, speedsRead M v (.frame irq :: more) = speedsRead M v more :=
    fun v more => if_pos hf
  have hgen : (handleFrame irq c).Generating := by
    unfold Card.Generating
    rw [htcg]
    exact h.generating
  have hmode : Mode.capture.Of (handleFrame irq c).stream.flags := by
    rw [hstream]
    exact h.mode
  refine ⟨⟨hmode, running_handleFrame irq h.running, hgen, h.paced.of_stream hstream⟩,
    congrArg (fun s : Stream TC => s.drop.count) hstream, ⟨fun more => ?_, ?_⟩, ?_⟩
  · rw [List.singleton_append, hread, hread]
    exact congrArg (fun s : Stream TC => speedsRead M s.speed more) hstream.symm
  · rw [hread, show speedsRead M c.stream.speed ([] : List (Op TC)) = [] from rfl,
      Accumulator.rest_nil h.paced.spdct_nonneg h.paced.spdct_lt]
    exact congrArg (fun s : Stream TC => s.spdct) hstream
  · rw [hnone]
    refine .none ?_ hinputs
    show number (handleFrame irq c).tcg.value = _
    rw [htcg, hn.setField2]

/-- One operation of the run: it moves the generator by the frames it makes due,
and what it leaves goes on, unless it counts a drop. -/
theorem Recording.step (hn : Numbers number) (hM : M.SpeedFits) {c : Card TC} (h : Recording M c)
    {op : Op TC} (hop : Recordable op) :
    Recording M (exec M c op).2 ∧ c.stream.drop.count ≤ (exec M c op).2.stream.drop.count ∧
      ((exec M c op).2.stream.drop.count = c.stream.drop.count →
        Passes M c (exec M c op).2 [op] ∧
        Advances number c (exec M c op).2 (framesDue M c [op])) := by
  have haside : ∀ {d : Card TC}, Aside c d →
    (∀ v more, speedsRead M v (op :: more) = speedsRead M v more) →
      Recording M d ∧ c.stream.drop.count ≤ d.stream.drop.count ∧
        (d.stream.drop.count = c.stream.drop.count → Passes M c d [op] ∧
          Advances number c d (framesDue M c [op])) := by
    intro d ha hread
    have hnone : framesDue M c [op] = 0 := by
      unfold framesDue
      rw [hread]
      exact framesDue_nil h.paced
    refine ⟨h.aside ha, ha.drops.ge, fun _ => ⟨h.passes_aside ha hread, ?_⟩⟩
    rw [hnone]
    exact .none (by rw [ha.tcg]) ha.inputs
  cases op with
  | setspeed v =>
    have hrange := clampSpeed_range hM hop
    have hnone : framesDue M c [.setspeed v] = 0 := framesDue_nil h.paced
    refine ⟨⟨h.mode, h.running, h.generating,
      ⟨h.paced.spdct_nonneg, h.paced.spdct_lt, hrange.1, hrange.2⟩⟩, le_rfl,
      fun _ => ⟨⟨fun more => rfl,
        (Accumulator.rest_nil h.paced.spdct_nonneg h.paced.spdct_lt).symm⟩, ?_⟩⟩
    rw [hnone]
    exact .none rfl rfl
  | frame irq =>
    cases hf : irq.field with
    | true =>
      obtain ⟨hrec, hdrop, hpasses, hadvances⟩ := h.secondField hn hf
      exact ⟨hrec, hdrop.ge, fun _ => ⟨hpasses, hadvances⟩⟩
    | false =>
      obtain ⟨hrec, hdrop, hspeed, hcaptures⟩ := h.newFrame hn hM hf
      refine ⟨hrec, hdrop, fun he => ?_⟩
      obtain ⟨hspdct, hadvances⟩ := hcaptures he
      exact ⟨.newFrame hM h.paced hf hspeed hspdct, hadvances _ (due_eq_framesDue hM h.paced hf)⟩
  | streamInit pid i => exact hop.elim
  | streamStart w => exact hop.elim
  | streamStop w => exact hop.elim
  | release pid => exact hop.elim
  | timecodeSetflags flags => exact hop.elim
  | timecodeClrflags flags => exact hop.elim
  | timecodeSet tc => exact hop.elim
  | _ => exact haside (aside_exec hop (fun v => by simp) (fun irq => by simp) c) fun _ _ => rfl

/-- A run goes on recording and counts no drop back; if it counts none, the
generator moves by the frames due, and the others are due after it. -/
theorem Recording.run (hn : Numbers number) (hM : M.SpeedFits) :
    ∀ (ops : List (Op TC)) {c : Card TC}, Recording M c →
    (∀ o ∈ ops, Recordable o) →
    Recording M (c.run M ops) ∧ c.stream.drop.count ≤ (c.run M ops).stream.drop.count ∧
      ((c.run M ops).stream.drop.count = c.stream.drop.count →
        Passes M c (c.run M ops) ops ∧
          number (c.run M ops).tcg.value = number c.tcg.value + framesDue M c ops)
  | [], c, h, _ => by
    refine ⟨h, le_rfl, fun _ => ⟨.nil h.paced, ?_⟩⟩
    rw [framesDue_nil h.paced, Nat.cast_zero, add_zero]
    rfl
  | op :: ops, c, h, hops => by
    obtain ⟨hop, hrest⟩ := List.forall_mem_cons.mp hops
    obtain ⟨hstep, hle, hfirst⟩ := h.step hn hM hop
    obtain ⟨hrun, hle', hothers⟩ := Recording.run hn hM ops hstep hrest
    refine ⟨hrun, hle.trans hle', fun he => ?_⟩
    have he' : ((exec M c op).2.run M ops).stream.drop.count = c.stream.drop.count := he
    obtain ⟨hpasses, hadvances⟩ := hfirst (by omega)
    obtain ⟨hpasses', hnumber⟩ := hothers (by omega)
    have hdue : framesDue M c (op :: ops) = framesDue M c [op] + framesDue M (exec M c op).2 ops :=
      hpasses.framesDue hM h.paced hstep.paced fun o ho => (hops o ho).int
    refine ⟨hpasses.trans hpasses', ?_⟩
    calc number (c.run M (op :: ops)).tcg.value
      _ = number (exec M c op).2.tcg.value + framesDue M (exec M c op).2 ops := hnumber
      _ = number c.tcg.value + framesDue M c [op] + framesDue M (exec M c op).2 ops := by
        rw [hadvances.number]
      _ = number c.tcg.value + framesDue M c (op :: ops) := by rw [hdue, Nat.cast_add, add_assoc]

/-- A capture stream whose speed is changed at will between the interrupts of a
run, whose pages are taken and given back and whose metadata is read and set, and
which counts no drop: the generator moves by the whole frames of what it starts
with and of all the speeds read, and what is left of a frame is in the
accumulator of a stream that still records; each interrupt moves it by those it
makes due, and the pages it arms carry the generator's value after it and their
number. -/
theorem capture_exact (hn : Numbers number) (hM : M.SpeedFits) {c : Card TC}
    (hm : Mode.capture.Of c.stream.flags) (hrun : c.stream.running = true) (hgen : c.Generating)
    (hacc : 0 ≤ c.stream.spdct ∧ c.stream.spdct < ajaSpeedDivisor)
    (hspeed : 0 ≤ c.stream.speed ∧ c.stream.speed ≤ M.max_play_speed) {ops : List (Op TC)}
    (hops : ∀ op ∈ ops, Recordable op)
    (hdrop : (c.run M ops).stream.drop.count = c.stream.drop.count) :
    number (c.run M ops).tcg.value = number c.tcg.value + framesDue M c ops ∧
      (Recording M (c.run M ops) ∧
        (c.run M ops).stream.spdct =
          (c.stream.spdct + (speedsRead M c.stream.speed ops).sum) % ajaSpeedDivisor) ∧
      ∀ (pre : List (Op TC)) (irq : FrameIrq TC) (post : List (Op TC)),
        ops = pre ++ .frame irq :: post → irq.field = false →
        Advances number (c.run M pre) (c.run M (pre ++ [.frame irq]))
          (framesDue M c (pre ++ [.frame irq]) - framesDue M c pre) := by
  have hrec : Recording M c := ⟨hm, hrun, hgen, ⟨hacc.1, hacc.2, hspeed.1, hspeed.2⟩⟩
  obtain ⟨hend, -, hmoved⟩ := Recording.run hn hM ops hrec hops
  refine ⟨(hmoved hdrop).2, ⟨hend, (hmoved hdrop).1.spdct⟩, ?_⟩
  rintro pre irq post rfl hf
  have hpre : ∀ o ∈ pre, Recordable o := fun o ho => hops o (List.mem_append_left _ ho)
  have hpost : ∀ o ∈ post, Recordable o :=
    fun o ho => hops o (List.mem_append_right _ (List.mem_cons_of_mem _ ho))
  obtain ⟨hrecPre, hlePre, hthen⟩ := Recording.run hn hM pre hrec hpre
  obtain ⟨hrecFrame, hleFrame, hadvances⟩ :=
    hrecPre.step hn hM (show Recordable (.frame irq) from trivial)
  obtain ⟨-, hlePost, -⟩ := Recording.run hn hM post hrecFrame hpost
  have hwhole : c.run M (pre ++ .frame irq :: post) = (exec M (c.run M pre) (.frame irq)).2.run M
      post := run_append ..
  rw [hwhole] at hdrop
  have hints : ∀ o ∈ pre ++ [Op.frame irq], SpeedInt o :=
    List.forall_mem_append.mpr ⟨fun o ho => (hpre o ho).int, List.forall_mem_singleton.mpr trivial⟩
  have hsplit := (hthen (by omega)).1.framesDue hM hrec.paced hrecPre.paced hints
  rw [hsplit, Nat.add_sub_cancel_left, run_concat]
  exact (hadvances (by omega)).2

end Number

/-! ### Frames as timecodes -/

/-- A number of frames is a timecode that no operation brings out of its count. -/
instance Timecode.int : Timecode ℤ where
  zero := 0
  init _ := 0
  isValid n := decide (n ≠ 0)
  inc n := n + 1
  dec n := n - 1
  setField2 := id
  clearField2 := id
  makevalidwire := id
  toRp188 n := (n.toNat, 0)
  fromRp188 rp := rp.1
  withFps n _ := n
  fps _ := 30
  frame n := n % 30
  compare m n := decide (m = n)
  toSmpte n := ⟨BitVec.ofInt 32 n, 0, 30⟩
  fromSmpte stc := stc.timecode.toNat

theorem numbers_int : Numbers (id : ℤ → ℤ) :=
  ⟨fun _ => rfl, fun _ => rfl, fun _ => rfl, fun _ => rfl⟩

/-- Two frames and a half, then a quarter, with a page popped and given back in
between: the generator moves by two frames and then by none. -/
theorem capture_exact_two :
    let c := (Card.new false false : Card ℤ).run {}
      [.streamInit 7 ⟨8, ajaCapture, 1, 0⟩, .streamStart .frame]
    let irq : FrameIrq ℤ := ⟨false, 0, 0, 0, 0, (0, 0), (0, 0), 0, 0, none⟩
    let ops : List (Op ℤ) :=
      [.setspeed 2500000, .frame irq, .frame irq, .fifoPop, .getmeta 0, .pageFree 0,
        .setspeed 250000, .settrig 9, .frame irq]
    (c.run {} ops).tcg.value = 5 ∧ (c.run {} ops).stream.spdct = 250000 := by
  intro c irq ops
  have hexact := capture_exact (M := {}) (c := c) numbers_int (by decide) (by decide +kernel)
    (by decide +kernel)
    (by decide +kernel) (by decide +kernel) (by decide +kernel)
      (show ∀ op ∈ ops, Recordable op by decide) (by decide +kernel)
  exact ⟨hexact.1.trans (by decide +kernel), hexact.2.1.2.trans (by decide +kernel)⟩

end AjaDriver
