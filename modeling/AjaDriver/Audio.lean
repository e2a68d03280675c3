/-
# The audio frames

`AFRAME_ADD` adds to a counter of audio frames, and the frame handler looks at
it with every new frame: it starts the audio when frames are waiting, and counts
them down while it plays (`Audio.check`). Nothing else touches the counter
(`aplay_exec`). While only frames are added, the audio plays exactly as many
interrupts as were asked for (`audio_accounted`). A client that takes frames
back may bring the counter to 0 itself, which the handler does not notice
(`audio_stops_iff`).
-/
import AjaDriver.Safety
import Mathlib.Algebra.Order.BigOperators.Group.List

namespace AjaDriver

open Function Word Card

variable {TC : Type}

/-! ### The counter -/

/-- What the check of a new frame does to the audio. -/
def Audio.check (a : Audio) : Audio :=
  if a.frames = 0 then a
  else if a.running then ⟨wrap (a.frames - 1), decide (wrap (a.frames - 1) ≠ 0)⟩
  else { a with running := true }

/-- What an operation does to the audio. -/
def Audio.next (a : Audio) : Op TC → Audio
  | .aframeAdd n => { a with frames := wrap (a.frames + n) }
  | .frame irq => if irq.field then a else a.check
  | _ => a

theorem aplay_aplayCheck (field : Bool) (c : Card TC) :
    (aplayCheck field c).aplay = if field then c.aplay else c.aplay.check := by
  unfold aplayCheck Audio.check
  cases field with
  | true => rfl
  | false =>
    by_cases h0 : c.aplay.frames = 0
    · simp [h0]
    · by_cases hrun : c.aplay.running = true
      · by_cases hlast : wrap (c.aplay.frames - 1) = 0
        · simp [h0, hrun, hlast, aplayStop, Card.prset]
        · simp [h0, hrun, hlast]
      · simp [h0, hrun, aplayStart, Card.prset]

/-! ### What leaves the frame, the timecode and the audio alone -/

/-- `d` has the frame, the timecode generator and the audio of `c`. -/
structure Beside (c d : Card TC) : Prop where
  frame : d.frame = c.frame
  tcg : d.tcg = c.tcg
  aplay : d.aplay = c.aplay

theorem Beside.refl (c : Card TC) : Beside c c := ⟨rfl, rfl, rfl⟩

theorem Beside.trans {c d e : Card TC} (h : Beside c d) (h' : Beside d e) : Beside c e :=
  ⟨h'.frame.trans h.frame, h'.tcg.trans h.tcg, h'.aplay.trans h.aplay⟩

theorem beside_withPool (c : Card TC) (P : Pool) : Beside c (c.withPool P) := ⟨rfl, rfl, rfl⟩

theorem beside_prset (c : Card TC) (r : Register) (v : ℤ) : Beside c (c.prset r v) :=
  ⟨rfl, rfl, rfl⟩

theorem beside_setMeta (c : Card TC) (p : ℤ) (m : StreamMeta TC) : Beside c (c.setMeta p m) :=
  ⟨rfl, rfl, rfl⟩

theorem beside_setLast (c : Card TC) (i : ℤ) (l : LastPage) : Beside c (c.setLast i l) :=
  ⟨rfl, rfl, rfl⟩

/-- A step that is made under a condition. -/
theorem Beside.ite (p : Prop) [Decidable p] {c d : Card TC} (h : Beside c d) :
    Beside c (if p then d else c) := by
  split_ifs
  · exact h
  · exact .refl c

theorem beside_freeup (x : FreeupIn TC) (c : Card TC) : Beside c (streamFreeup x c) := by
  have hslot : ∀ (i : ℤ) (d : Card TC), Beside d (freeupSlot x i d) := fun i d =>
    ((Beside.ite _ (beside_withPool d _)).trans
      (Beside.ite _ ((beside_setMeta _ _ _).trans (beside_withPool _ _)))).trans
        (beside_setLast _ _ _)
  exact (hslot 0 c).trans (hslot 1 _)

theorem beside_playbackFrame (c : Card TC) (n : ℤ) : Beside c (streamPlaybackFrame c n).2 := by
  unfold streamPlaybackFrame
  simp only
  split_ifs
  · exact beside_withPool _ _
  · exact beside_withPool _ _
  all_goals exact (beside_withPool c _).trans ((beside_prset _ _ _).trans (beside_setLast _ _ _))

theorem beside_loadLoop (k : ℕ) (n newp : ℤ) (c : Card TC) : Beside c (loadLoop k n newp c).2 :=
  loadLoop_rel .refl (fun _ _ _ => .trans) beside_playbackFrame k n newp c

theorem beside_captureFrame (c : Card TC) (n : ℤ) : Beside c (streamCaptureFrame c n).2 := by
  unfold streamCaptureFrame
  simp only
  split_ifs
  · exact beside_withPool _ _
  all_goals exact (beside_withPool c _).trans ((beside_prset _ _ _).trans (beside_setLast _ _ _))

theorem beside_acapStart (c : Card TC) : Beside c c.acapStart := by
  unfold acapStart
  iterate 6 refine Beside.trans ?_ (beside_prset _ _ _)
  exact beside_prset _ _ _

theorem beside_aplayStart (c : Card TC) : Beside c c.aplayStart :=
  (beside_prset _ _ _).trans (beside_prset _ _ _)

theorem beside_frameAudio (c : Card TC) : Beside c (frameAudio c) := by
  have hcap :
    ∀ d : Card TC, Beside d (if d.stream.flags &&& ajaCapture ≠ 0 then d.acapStart else d) :=
    fun d => (beside_acapStart d).ite _
  have hplay :
    ∀ d : Card TC, Beside d (if d.stream.flags &&& ajaPlayback ≠ 0 then d.aplayStart else d) :=
    fun d => (beside_aplayStart d).ite _
  unfold frameAudio
  by_cases h : c.stream.atrig ≠ 0
  · rw [if_pos h]
    obtain ⟨hframe, htcg, haplay⟩ := (hcap c).trans (hplay _)
    exact ⟨hframe, htcg, haplay⟩
  · rw [if_neg h]
    exact .refl c

theorem aplay_streamStart (c : Card TC) : (streamStart c).aplay = c.aplay := by
  unfold streamStart ltcRun
  simp only
  split_ifs <;> rfl

theorem aplay_streamStop (c : Card TC) : (streamStop c).aplay = c.aplay := by
  unfold streamStop ltcRun
  simp only
  split_ifs <;> rfl

variable [Timecode TC]

theorem beside_captureLoop (inc : ℤ) (k : ℕ) (n : ℤ) (c : Card TC) :
    Beside c (captureLoop inc k n c) :=
  captureLoop_rel .refl (fun _ _ _ => .trans) beside_captureFrame beside_setMeta inc k n c

/-! ### The audio of the card -/

theorem aplay_playbackLoad (c : Card TC) : (playbackLoad c).aplay = c.aplay := by
  have hmeta : ∀ (p : ℤ) (d : Card TC), (playbackMeta p d).aplay = d.aplay := by
    intro p d
    unfold playbackMeta
    simp only
    split_ifs <;> rfl
  have hload := (beside_loadLoop c.stream.chans.toNat 0 0 c).aplay
  rcases playbackLoad_cases c with ⟨-, he⟩ | ⟨p, -, he⟩
  · rw [he]
    exact hload
  · rw [he]
    exact (hmeta p _).trans hload

theorem aplay_streamPlayback (c : Card TC) : (streamPlayback c).aplay = c.aplay := by
  rcases streamPlayback_cases c with ⟨-, he⟩ | he | he | he | he | he <;> rw [he]
  iterate 4 rfl
  · exact aplay_playbackLoad _

theorem aplay_streamCapture (c : Card TC) : (streamCapture c).aplay = c.aplay := by
  have hbump : ∀ (inc : ℤ) (d : Card TC), (captureBump inc d).aplay = d.aplay := by
    intro inc d
    unfold captureBump
    split_ifs <;> rfl
  rcases streamCapture_cases c with ⟨-, he⟩ | he | he <;> rw [he]
  · rfl
  · exact (beside_captureLoop _ _ _ _).aplay.trans (hbump _ _)

theorem aplay_frameCount (irq : FrameIrq TC) (c : Card TC) :
    (frameCount irq c).aplay = c.aplay := by
  unfold frameCount
  simp only
  split_ifs <;> first
    | rfl
    | exact aplay_streamStart _

theorem aplay_frameOutput (irq : FrameIrq TC) (srun : Bool) (c : Card TC) :
    (frameOutput irq srun c).aplay = c.aplay :=
  frameOutput_keeps Card.aplay (fun _ _ _ => rfl) irq srun c

theorem aplay_newFrame (irq : FrameIrq TC) (c : Card TC) : (newFrame irq c).aplay = c.aplay := by
  have hup : (streamFreeup irq.freeupIn (frameCount irq c)).aplay = c.aplay :=
    (beside_freeup _ _).aplay.trans (aplay_frameCount irq c)
  unfold newFrame
  simp only
  rw [aplay_frameOutput]
  split_ifs
  · unfold frameEngines
    rw [aplay_streamCapture, aplay_streamPlayback, (beside_frameAudio _).aplay, hup]
  · exact hup

theorem aplay_handleFrame (irq : FrameIrq TC) (c : Card TC) :
    (handleFrame irq c).aplay = c.aplay.next (.frame irq) := by
  have hsecond : (secondField c).aplay = c.aplay := by
    unfold secondField
    split_ifs <;> rfl
  unfold handleFrame
  rw [aplay_aplayCheck]
  by_cases hf : irq.field = true
  · rw [if_pos hf, if_neg (not_not.mpr hf), hsecond]
    exact (if_pos hf).symm
  · rw [if_neg hf, if_pos hf, aplay_newFrame]
    exact (if_neg hf).symm

/-- The counter is moved by what is added and by new frames. -/
theorem aplay_exec (M : ModParams) (c : Card TC) (op : Op TC) :
    (exec M c op).2.aplay = c.aplay.next op := by
  cases op with
  | streamInit pid i =>
    show (streamInit c pid i).aplay = _
    unfold streamInit
    simp only
    split_ifs <;> rfl
  | streamStart w =>
    show (ioctlStreamStart c w).2.aplay = _
    unfold ioctlStreamStart
    split_ifs
    · rfl
    · cases w with
      | frame => exact aplay_streamStart _
      | timeout => rfl
      | signal => rfl
  | streamStop w =>
    cases w with
    | frame => exact aplay_streamStop c
    | timeout => rfl
    | signal => rfl
  | release pid =>
    show (release c pid).aplay = _
    unfold release
    split_ifs
    · exact aplay_streamStop c
    · rfl
  | getmeta page =>
    show (ioctlGetmeta c page).2.aplay = _
    unfold ioctlGetmeta
    split_ifs <;> rfl
  | setmeta page m =>
    show (ioctlSetmeta c page m).2.aplay = _
    unfold ioctlSetmeta
    split_ifs <;> rfl
  | settrig trig =>
    show (ioctlSettrig c trig).2.aplay = _
    unfold ioctlSettrig
    split_ifs <;> rfl
  | frame irq => exact aplay_handleFrame irq c
  | pageAlloc | pageFree _ | fifoPush _ | fifoPop | setspeed _ | aframeAdd _ | timecodeSetflags _
    | timecodeClrflags _
  | timecodeSet _ => rfl

/-- The counter after a run. -/
theorem aplay_run (M : ModParams) (c : Card TC) (ops : List (Op TC)) :
    (c.run M ops).aplay = ops.foldl Audio.next c.aplay := by
  induction ops generalizing c with
  | nil => rfl
  | cons op ops ih =>
    show ((exec M c op).2.run M ops).aplay = _
    rw [ih, aplay_exec]
    rfl

/-! ### A run of the counter -/

/-- The audio frames an operation adds. -/
def Op.added : Op TC → ℤ
  | .aframeAdd n => n
  | _ => 0

/-- The operation is the interrupt of a new frame, field 0. -/
def Op.isNewFrame : Op TC → Bool
  | .frame irq => !irq.field
  | _ => false

def added (ops : List (Op TC)) : ℤ := (ops.map Op.added).sum

def newFrames (ops : List (Op TC)) : ℕ := ops.countP Op.isNewFrame

section Counter

omit [Timecode TC]

variable {a : Audio} {op : Op TC}

theorem added_cons (op : Op TC) (ops : List (Op TC)) :
    added (op :: ops) = op.added + added ops := rfl

theorem added_append (l m : List (Op TC)) : added (l ++ m) = added l + added m := by
  unfold added
  rw [List.map_append, List.sum_append]

theorem added_nonneg {ops : List (Op TC)} (h : ∀ op ∈ ops, 0 ≤ op.added) : 0 ≤ added ops := by
  apply List.sum_nonneg
  intro x hx
  obtain ⟨op, hop, rfl⟩ := List.mem_map.mp hx
  exact h op hop

theorem added_newFrame (h : op.isNewFrame = true) : op.added = 0 := by
  cases op <;> first
    | rfl
    | exact absurd h Bool.false_ne_true

theorem next_newFrame (h : op.isNewFrame = true) (a : Audio) : a.next op = a.check := by
  cases op with
  | frame irq => exact if_neg (by simpa [Op.isNewFrame] using h)
  | _ => exact absurd h Bool.false_ne_true

/-- Between new frames the counter takes what is added. -/
theorem next_other (h : op.isNewFrame = false) (ha : wrap a.frames = a.frames) :
    a.next op = ⟨wrap (a.frames + op.added), a.running⟩ := by
  have hzero : (⟨wrap (a.frames + 0), a.running⟩ : Audio) = a := by rw [add_zero, ha]
  cases op with
  | aframeAdd n => rfl
  | frame irq =>
    refine Eq.trans ?_ hzero.symm
    exact if_pos (by simpa [Op.isNewFrame] using h)
  | _ => exact hzero.symm

theorem running_next (h : op.isNewFrame = false) (a : Audio) : (a.next op).running = a.running := by
  cases op with
  | frame irq => exact congrArg Audio.running (if_pos (by simpa [Op.isNewFrame] using h))
  | _ => rfl

theorem check_stopped (hrun : a.running = false) (hf : a.frames ≠ 0) :
    a.check = ⟨a.frames, true⟩ := by
  unfold Audio.check
  rw [if_neg hf, if_neg (by simp [hrun])]

theorem check_playing (hrun : a.running = true) (hf : a.frames ≠ 0) :
    a.check = ⟨wrap (a.frames - 1), decide (wrap (a.frames - 1) ≠ 0)⟩ := by
  unfold Audio.check
  rw [if_neg hf, if_pos hrun]

theorem check_empty (hf : a.frames = 0) : a.check = a := if_pos hf

/-- Only a new frame starts the audio, and only with frames waiting. -/
theorem next_starts (hrun : a.running = false) (h : (a.next op).running = true) :
    op.isNewFrame = true ∧ a.next op = ⟨a.frames, true⟩ := by
  by_cases hop : op.isNewFrame = true
  · refine ⟨hop, ?_⟩
    rw [next_newFrame hop] at h ⊢
    by_cases hf : a.frames = 0
    · rw [check_empty hf, hrun] at h
      exact absurd h Bool.false_ne_true
    · exact check_stopped hrun hf
  · rw [running_next (eq_false_of_ne_true hop), hrun] at h
    exact absurd h Bool.false_ne_true

/-- Only a new frame stops the audio, and it leaves the counter at 0. -/
theorem next_stops (hrun : a.running = true) (h : (a.next op).running = false) :
    op.isNewFrame = true ∧ wrap (a.frames - 1) = 0 ∧ a.next op = ⟨0, false⟩ := by
  by_cases hop : op.isNewFrame = true
  · rw [next_newFrame hop] at h ⊢
    by_cases hf : a.frames = 0
    · rw [check_empty hf, hrun] at h
      exact absurd h.symm Bool.false_ne_true
    · rw [check_playing hrun hf] at h ⊢
      have hlast : wrap (a.frames - 1) = 0 := by simpa using h
      exact ⟨hop, hlast, by rw [hlast]; rfl⟩
  · rw [running_next (eq_false_of_ne_true hop), hrun] at h
    exact absurd h.symm Bool.false_ne_true

/-! ### Only frames added -/

/-- The counter is at most `n`, and not 0 while the audio plays. -/
structure Audio.Counts (a : Audio) (n : ℤ) : Prop where
  nonneg : 0 ≤ a.frames
  le : a.frames ≤ n
  playing : a.running = true → 0 < a.frames

theorem Audio.Counts.next {n : ℤ} (h : a.Counts n) (hadd : 0 ≤ op.added) (hn : n + op.added < 2 ^ 31) :
    (a.next op).Counts (n + op.added) := by
  obtain ⟨h0, hle, hplay⟩ := h
  have ha : wrap a.frames = a.frames := wrap_of_range (by omega) (by omega)
  by_cases hop : op.isNewFrame = true
  · rw [next_newFrame hop, added_newFrame hop, add_zero]
    by_cases hf : a.frames = 0
    · rw [check_empty hf]
      exact ⟨h0, hle, hplay⟩
    by_cases hrun : a.running = true
    · rw [check_playing hrun hf, wrap_of_range (by omega) (by omega)]
      exact ⟨by simp only; omega, by simp only; omega,
        fun h => by simp only [ne_eq, decide_eq_true_eq] at h; simp only; omega⟩
    · rw [check_stopped (eq_false_of_ne_true hrun) hf]
      exact ⟨h0, hle, fun _ => by simp only; omega⟩
  · rw [next_other (eq_false_of_ne_true hop) ha, wrap_of_range (by omega) (by omega)]
    exact ⟨by simp only; omega, by simp only; omega, fun h => by have := hplay h; simp only; omega⟩

/-- The bound on what is added, for the first operation and for the others. -/
theorem added_bound {l : List (Op TC)} (hadds : ∀ x ∈ op :: l, 0 ≤ x.added) {n : ℤ}
    (hn : n + added (op :: l) < 2 ^ 31) :
    (0 ≤ op.added ∧ n + op.added < 2 ^ 31) ∧ (∀ x ∈ l, 0 ≤ x.added) ∧
      n + op.added + added l < 2 ^ 31 := by
  have hop : 0 ≤ op.added := hadds op (List.mem_cons_self ..)
  have hrest : ∀ x ∈ l, 0 ≤ x.added := fun x hx => hadds x (List.mem_cons_of_mem _ hx)
  have hpos := added_nonneg hrest
  rw [added_cons, ← add_assoc] at hn
  exact ⟨⟨hop, by omega⟩, hrest, hn⟩

theorem Audio.Counts.run : ∀ {l : List (Op TC)} {a : Audio} {n : ℤ}, a.Counts n →
    (∀ op ∈ l, 0 ≤ op.added) →
    n + added l < 2 ^ 31 → (l.foldl Audio.next a).Counts (n + added l)
  | [], a, n, h, _, _ => by rw [show n + added ([] : List (Op TC)) = n from add_zero n]; exact h
  | op :: l, a, n, h, hadds, hn => by
    obtain ⟨⟨hop, hfirst⟩, hrest, hn⟩ := added_bound hadds hn
    rw [added_cons, ← add_assoc]
    exact (h.next hop hfirst).run hrest hn

/-- While the audio is stopped the counter takes all that is added. -/
theorem idle_foldl : ∀ {l : List (Op TC)} {a : Audio} {n : ℤ}, a.Counts n →
    (∀ op ∈ l, 0 ≤ op.added) →
    n + added l < 2 ^ 31 → (∀ p, p <+: l → (p.foldl Audio.next a).running = false) →
    l.foldl Audio.next a = ⟨a.frames + added l, false⟩
  | [], a, n, _, _, _, hidle => by
    have hrun : a.running = false := hidle [] (List.nil_prefix)
    show a = ⟨a.frames + 0, false⟩
    rw [add_zero, ← hrun]
  | op :: l, a, n, h, hadds, hn, hidle => by
    obtain ⟨⟨hop, hfirst⟩, hrest, hn⟩ := added_bound hadds hn
    have hframes : (a.next op).frames = a.frames + op.added := by
      have hrun : a.running = false := hidle [] (List.nil_prefix)
      have hnext : (a.next op).running = false :=
        hidle [op] (List.cons_prefix_cons.mpr ⟨rfl, List.nil_prefix⟩)
      obtain ⟨h0, hle, -⟩ := h
      by_cases hnew : op.isNewFrame = true
      · rw [next_newFrame hnew] at hnext ⊢
        rw [added_newFrame hnew, add_zero]
        by_cases hf : a.frames = 0
        · rw [check_empty hf]
        · rw [check_stopped hrun hf] at hnext
          exact absurd hnext.symm Bool.false_ne_true
      · rw [next_other (eq_false_of_ne_true hnew) (wrap_of_range (by omega) (by omega)),
          wrap_of_range (by omega) (by omega)]
    have ih := idle_foldl (h.next hop hfirst) hrest hn fun p hp =>
      hidle (op :: p) (List.cons_prefix_cons.mpr ⟨rfl, hp⟩)
    rw [hframes, add_assoc] at ih
    exact ih

/-- While the audio plays, every new frame takes one from the counter. -/
theorem playing_foldl : ∀ {l : List (Op TC)} {a : Audio} {n : ℤ}, a.Counts n →
    (∀ op ∈ l, 0 ≤ op.added) →
    n + added l < 2 ^ 31 → (∀ p, p <+: l → (p.foldl Audio.next a).running = true) →
    (l.foldl Audio.next a).frames + newFrames l = a.frames + added l
  | [], a, n, _, _, _, _ => rfl
  | op :: l, a, n, h, hadds, hn, hplays => by
    obtain ⟨⟨hop, hfirst⟩, hrest, hn⟩ := added_bound hadds hn
    have hframes :
        (a.next op).frames + (if op.isNewFrame = true then 1 else 0) = a.frames + op.added := by
      have hrun : a.running = true := hplays [] (List.nil_prefix)
      have hf := h.playing hrun
      obtain ⟨h0, hle, -⟩ := h
      by_cases hnew : op.isNewFrame = true
      · rw [next_newFrame hnew, check_playing hrun (by omega), added_newFrame hnew, if_pos hnew,
          wrap_of_range (by omega) (by omega)]
        show a.frames - 1 + 1 = a.frames + 0
        omega
      · rw [next_other (eq_false_of_ne_true hnew) (wrap_of_range (by omega) (by omega)),
          wrap_of_range (by omega) (by omega), if_neg hnew, add_zero]
    have ih := playing_foldl (h.next hop hfirst) hrest hn fun p hp =>
      hplays (op :: p) (List.cons_prefix_cons.mpr ⟨rfl, hp⟩)
    have hcount : newFrames (op :: l) = newFrames l + if op.isNewFrame = true then 1 else 0 :=
      List.countP_cons ..
    rw [List.foldl_cons, hcount, added_cons]
    push_cast
    split_ifs at hframes ⊢ <;> omega

end Counter

/-! ### Every frame asked for is played -/

/-- From `c` on, `l₂` leaves the audio stopped, `a` starts it, it plays through
`l₃`, and `b` stops it. -/
structure Plays (M : ModParams) (c : Card TC) (l₂ : List (Op TC)) (a : Op TC) (l₃ : List (Op TC))
    (b : Op TC) : Prop where
  idle : ∀ p, p <+: l₂ → (c.run M p).aplay.running = false
  playing : ∀ p, p <+: l₃ → (c.run M (l₂ ++ a :: p)).aplay.running = true
  stops : (c.run M (l₂ ++ a :: (l₃ ++ [b]))).aplay.running = false

/-- The run from `c` has just begun, or the audio was stopped by its last
operation. -/
def AtStop (M : ModParams) (c : Card TC) (l : List (Op TC)) : Prop :=
  l = [] ∨ ∃ l' b, l = l' ++ [b] ∧ (c.run M l').aplay.running = true ∧
    (c.run M l).aplay.running = false

/-- The counter is at 0 after a stop. -/
theorem aplay_atStop {M : ModParams} {c : Card TC} (hc : c.aplay = ⟨0, false⟩) {l : List (Op TC)}
    (h : AtStop M c l) : (c.run M l).aplay = ⟨0, false⟩ := by
  rcases h with rfl | ⟨l', x, rfl, hplay, hstop⟩
  · exact hc
  · have hsplit : (c.run M (l' ++ [x])).aplay = (c.run M l').aplay.next x := by
      rw [run_append]
      exact aplay_exec M _ x
    rw [hsplit] at hstop ⊢
    exact (next_stops hplay hstop).2.2

/-- From a start to its stop as many new frames come as were added. -/
theorem plays_accounted {M : ModParams} {c : Card TC} (hc : c.aplay = ⟨0, false⟩)
    {l₂ l₃ : List (Op TC)} {a b : Op TC} (hadds₂ : ∀ op ∈ l₂, 0 ≤ op.added) (ha : 0 ≤ a.added)
    (hadds₃ : ∀ op ∈ l₃, 0 ≤ op.added) (htotal : added l₂ + added l₃ < 2 ^ 31)
    (hplays : Plays M c l₂ a l₃ b) :
    newFrames (l₃ ++ [b]) = added (l₂ ++ a :: (l₃ ++ [b])) := by
  have hpos₃ := added_nonneg hadds₃
  have hstart : (⟨0, false⟩ : Audio).Counts 0 :=
    ⟨le_rfl, le_rfl, fun h => absurd h Bool.false_ne_true⟩
  have hrun := fun m => aplay_run M c m
  simp only [hc] at hrun
  -- the counter takes what is added before the start
  have hidle := idle_foldl hstart hadds₂ (by omega) fun p hp => by
    rw [← hrun]
    exact hplays.idle p hp
  rw [zero_add] at hidle
  have hplay :
      ∀ p, p <+: l₃ → (p.foldl Audio.next ((⟨added l₂, false⟩ : Audio).next a)).running = true := by
    intro p hp
    have := hplays.playing p hp
    rwa [hrun, List.foldl_append, hidle] at this
  obtain ⟨hnew, hstarted⟩ :
    a.isNewFrame = true ∧ (⟨added l₂, false⟩ : Audio).next a = ⟨added l₂, true⟩ :=
    next_starts rfl (hplay [] (List.nil_prefix))
  rw [hstarted] at hplay
  have hcounts := (hstart.run hadds₂ (by omega)).next ha
    (by rw [zero_add, added_newFrame hnew, add_zero]; omega)
  rw [hidle, hstarted, zero_add, added_newFrame hnew, add_zero] at hcounts
  -- and then loses one with every new frame
  have hcount := playing_foldl hcounts hadds₃ (by omega) hplay
  have hlast := hplays.stops
  rw [hrun, List.foldl_append, hidle, List.foldl_cons, hstarted, List.foldl_append] at hlast
  obtain ⟨hnew', hone, -⟩ := next_stops (hplay l₃ (List.prefix_refl l₃)) hlast
  obtain ⟨h0, hle, -⟩ := hcounts.run hadds₃ (by omega)
  rw [wrap_of_range (by omega) (by omega)] at hone
  have hnew₃ : newFrames (l₃ ++ [b]) = newFrames l₃ + 1 := by
    unfold newFrames
    rw [List.countP_append, List.countP_singleton, if_pos hnew']
  rw [hnew₃, added_append, added_cons, added_append, added_newFrame hnew, added_cons,
    added_newFrame hnew']
  simp only at hcount
  have hnil : added ([] : List (Op TC)) = 0 := rfl
  push_cast
  omega

/-- In every run in which frames are only added, whatever else is done, frames are
waiting whenever the audio plays; and from a start to its stop, which included, as
many new frames come as were added since the stop before. -/
theorem audio_accounted (M : ModParams) {c : Card TC} (hc : c.aplay = ⟨0, false⟩) {l : List (Op TC)}
    (hadds : ∀ op ∈ l, 0 ≤ op.added) (htotal : added l < 2 ^ 31) :
    ((c.run M l).aplay.running = true → 0 < (c.run M l).aplay.frames) ∧
      ∀ l₁ l₂ a l₃ b l₄, l = l₁ ++ (l₂ ++ a :: (l₃ ++ b :: l₄)) → AtStop M c l₁ →
        Plays M (c.run M l₁) l₂ a l₃ b →
        newFrames (l₃ ++ [b]) = added (l₂ ++ a :: (l₃ ++ [b])) := by
  have hstart : (⟨0, false⟩ : Audio).Counts 0 :=
    ⟨le_rfl, le_rfl, fun h => absurd h Bool.false_ne_true⟩
  constructor
  · have hcounts := hstart.run hadds (by omega)
    rw [← hc, ← aplay_run M] at hcounts
    exact hcounts.playing
  rintro l₁ l₂ a l₃ b l₄ rfl hstop hplays
  have hsub : ∀ m : List (Op TC), m ⊆ l₁ ++ (l₂ ++ a :: (l₃ ++ b :: l₄)) → ∀ op ∈ m, 0 ≤ op.added :=
    fun m hm op hop => hadds op (hm hop)
  have hadds₂ := hsub l₂ (by intro x; simp; tauto)
  have hadds₃ := hsub l₃ (by intro x; simp; tauto)
  have ha := hsub [a] (by intro x; simp; tauto) a (List.mem_singleton_self a)
  have hb := hsub [b] (by intro x; simp; tauto) b (List.mem_singleton_self b)
  have hpos₁ := added_nonneg (hsub l₁ (by intro x; simp; tauto))
  have hpos₄ := added_nonneg (hsub l₄ (by intro x; simp; tauto))
  simp only [added_append, added_cons] at htotal
  exact plays_accounted (aplay_atStop hc hstop) hadds₂ ha hadds₃ (by omega) hplays

/-- Three frames, one of them added while the audio plays. -/
theorem audio_accounted_three :
    let irq : Op ℕ := .frame ⟨false, 0, 0, 0, 0, (0, 0), (0, 0), 0, 0, none⟩
    newFrames ([irq, .aframeAdd 1, irq] ++ [irq]) =
      added ([.aframeAdd 2] ++ irq :: ([irq, .aframeAdd 1, irq] ++ [irq])) := by
  intro irq
  refine (audio_accounted {} (c := Card.new false false) rfl
    (l := [] ++ ([.aframeAdd 2] ++ irq :: ([irq, .aframeAdd 1, irq] ++ irq :: []))) (by decide)
      (by decide)).2
    [] [.aframeAdd 2] irq [irq, .aframeAdd 1, irq] irq [] rfl (.inl rfl)
      ⟨fun p hp => ?_, fun p hp => ?_, ?_⟩
  · revert p
    simp only [← List.mem_inits]
    decide +kernel
  · revert p
    simp only [← List.mem_inits]
    decide +kernel
  · decide +kernel

end AjaDriver
