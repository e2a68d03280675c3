/-
# Audio frames taken back

An `AFRAME_ADD` may also take frames back, and the handler only notices the end
when it counts the last frame itself: when a client takes back exactly what is
left, the audio plays on with nothing to play (`audio_left_running`). In every
other run the audio is stopped, by a command, whenever a new frame leaves the
counter at 0 (`audio_stops_iff`).
-/
import AjaDriver.Audio
import AjaDriver.Writes

namespace AjaDriver

open Function Word Card

variable {TC : Type} [Timecode TC]

/-! ### The audio commands -/

/-- The values written to the playback's reset: 1 stops the audio, 1 and then 0
start it. -/
def Card.audioWrites (c : Card TC) : List ℤ := c.writes aplayreset

/-- The last of them since `c₀`. -/
def lastAudio (c₀ c : Card TC) : Option ℤ := (c.audioWrites.drop c₀.audioWrites.length).getLast?

/-- The audio is stopped, and the last command since `c₀`, if any, was a stop. -/
def Silent (c₀ c : Card TC) : Prop := c.aplay.running = false ∧ ∀ v, lastAudio c₀ c = some v → v = 1

/-- The commands of the check of a new frame. -/
def Audio.commands (a : Audio) : List ℤ :=
  if a.frames = 0 then []
  else if a.running then (if wrap (a.frames - 1) = 0 then [1] else [])
  else [1, 0]

omit [Timecode TC] in
theorem audioWrites_aplayCheck (c : Card TC) :
    (aplayCheck false c).audioWrites = c.audioWrites ++ c.aplay.commands := by
  have hstop : ∀ d : Card TC, d.aplayStop.audioWrites = d.audioWrites ++ [1] :=
    fun d => writes_prset d 1
  have hstart : ∀ d : Card TC, d.aplayStart.audioWrites = d.audioWrites ++ [1, 0] := by
    intro d
    refine (writes_prset _ 0).trans ?_
    rw [writes_prset, List.append_assoc]
    rfl
  unfold aplayCheck Audio.commands
  by_cases h0 : c.aplay.frames = 0
  · simp [h0]
  · by_cases hrun : c.aplay.running = true
    · by_cases hlast : wrap (c.aplay.frames - 1) = 0
      · simp only [h0, hrun, hlast, Bool.false_eq_true, not_false_eq_true, ne_eq, and_self,
          if_true, if_false]
        exact hstop _
      · simp only [h0, hrun, hlast, Bool.false_eq_true, not_false_eq_true, ne_eq, and_self,
          if_true, if_false]
        exact (List.append_nil _).symm
    · simp only [h0, hrun, Bool.false_eq_true, not_false_eq_true, ne_eq, and_self,
        if_true, if_false]
      exact hstart _

/-- While no stream runs, the check's commands are the only ones. -/
theorem audioWrites_handleFrame {irq : FrameIrq TC} (hf : irq.field = false) {c : Card TC}
    (hrun : c.stream.running = false) :
    (handleFrame irq c).audioWrites = c.audioWrites ++ c.aplay.commands := by
  have hnew : (newFrame irq c).audioWrites = c.audioWrites := writes_newFrame (by decide) irq hrun
  unfold handleFrame
  rw [hf, if_pos Bool.false_ne_true, audioWrites_aplayCheck, hnew, aplay_newFrame]

/-! ### Frames taken back -/

/-- Frames are added, or taken back, or an interrupt comes. -/
inductive Op.IsAudio : Op TC → Prop
  | add (n : ℤ) : Op.IsAudio (.aframeAdd n)
  | frame (irq : FrameIrq TC) : Op.IsAudio (.frame irq)

/-- What holds of the audio while no stream runs: the counter is a word, and the
last command since `c₀` was a start exactly when the audio plays. -/
structure Commanded (c₀ c : Card TC) : Prop where
  range : wrap c.aplay.frames = c.aplay.frames
  last : ∃ w, c.audioWrites = c₀.audioWrites ++ w ∧ ∀ v, w.getLast? = some v →
    v = if c.aplay.running then 0 else 1

section Commanded

omit [Timecode TC]

variable {c₀ c : Card TC}

theorem Commanded.start (h : c₀.aplay = ⟨0, false⟩) : Commanded c₀ c₀ :=
  ⟨by rw [h]; rfl, [], (List.append_nil _).symm, fun v hv => by simp at hv⟩

theorem Commanded.silent (h : Commanded c₀ c) (hrun : c.aplay.running = false) : Silent c₀ c := by
  obtain ⟨w, hw, hlast⟩ := h.last
  refine ⟨hrun, fun v hv => ?_⟩
  unfold lastAudio at hv
  rw [hw, List.drop_left] at hv
  rw [hlast v hv, hrun]
  rfl

/-- Between two new frames the audio goes on, and the counter takes what is added. -/
theorem between_frames {l : List (Op TC)} (h : newFrames l = 0) {a : Audio}
    (ha : wrap a.frames = a.frames) :
    l.foldl Audio.next a = ⟨wrap (a.frames + added l), a.running⟩ := by
  induction l generalizing a with
  | nil =>
    show a = ⟨wrap (a.frames + 0), a.running⟩
    rw [add_zero, ha]
  | cons op l ih =>
    have hop : op.isNewFrame = false := by
      have := List.countP_eq_zero.mp h op (List.mem_cons_self ..)
      exact eq_false_of_ne_true this
    have hl : newFrames l = 0 := by
      rw [newFrames, List.countP_eq_zero] at h ⊢
      exact fun x hx => h x (List.mem_cons_of_mem _ hx)
    rw [List.foldl_cons, next_other hop ha, ih hl (by rw [wrap_wrap])]
    simp only [wrap_wrap_add, added_cons, add_assoc]

/-- The audio plays only since a new frame. -/
theorem playing_since {a : Audio} (ha : a.running = false) :
    ∀ {l : List (Op TC)}, (l.foldl Audio.next a).running = true →
    ∃ l₁ f l₂, l = l₁ ++ f :: l₂ ∧ f.isNewFrame = true ∧ newFrames l₂ = 0 := by
  intro l
  induction l using List.reverseRecOn with
  | nil => exact fun h => absurd (ha.symm.trans h) Bool.false_ne_true
  | append_singleton l op ih =>
    intro h
    by_cases hop : op.isNewFrame = true
    · exact ⟨l, op, [], rfl, hop, rfl⟩
    · rw [List.foldl_append, List.foldl_cons, List.foldl_nil,
        running_next (eq_false_of_ne_true hop)] at h
      obtain ⟨l₁, f, l₂, rfl, hf, hl₂⟩ := ih h
      refine ⟨l₁, f, l₂ ++ [op], by simp, hf, ?_⟩
      rw [newFrames, List.countP_append, List.countP_singleton, if_neg hop]
      exact hl₂

end Commanded

theorem Commanded.exec {c₀ c : Card TC} (h : Commanded c₀ c) (M : ModParams) {op : Op TC}
    (hop : op.IsAudio) (hrun : c.stream.running = false) :
    Commanded c₀ (AjaDriver.exec M c op).2 := by
  obtain ⟨hrange, w, hw, hlast⟩ := h
  by_cases hnew : op.isNewFrame = true
  · cases hop with
    | add n => exact absurd hnew Bool.false_ne_true
    | frame irq =>
      have hf : irq.field = false := by simpa [Op.isNewFrame] using hnew
      have hwrites := audioWrites_handleFrame hf hrun
      have haplay := aplay_handleFrame irq c
      rw [next_newFrame hnew] at haplay
      show Commanded c₀ (handleFrame irq c)
      by_cases h0 : c.aplay.frames = 0
      · rw [check_empty h0] at haplay
        refine ⟨by rw [haplay, hrange], w, ?_, by rwa [haplay]⟩
        rw [hwrites, hw, Audio.commands, if_pos h0, List.append_nil]
      by_cases hplay : c.aplay.running = true
      · rw [check_playing hplay h0] at haplay
        rw [Audio.commands, if_neg h0, if_pos hplay] at hwrites
        by_cases hone : wrap (c.aplay.frames - 1) = 0
        · refine ⟨by rw [haplay, wrap_wrap], w ++ [1], ?_, fun v hv => ?_⟩
          · rw [hwrites, if_pos hone, hw, List.append_assoc]
          · rw [haplay]
            simpa [hone] using hv.symm
        · refine ⟨by rw [haplay, wrap_wrap], w, ?_, fun v hv => ?_⟩
          · rw [hwrites, if_neg hone, hw, List.append_nil]
          · rw [hlast v hv, haplay]
            simp [hone, hplay]
      · rw [check_stopped (eq_false_of_ne_true hplay) h0] at haplay
        refine ⟨by rw [haplay, hrange], w ++ [1, 0], ?_, fun v hv => ?_⟩
        · rw [hwrites, Audio.commands, if_neg h0, if_neg hplay, hw, List.append_assoc]
        · rw [haplay]
          simpa using hv.symm
  · have haplay := aplay_exec M c op
    rw [next_other (eq_false_of_ne_true hnew) hrange] at haplay
    have hwrites : (AjaDriver.exec M c op).2.audioWrites = c.audioWrites := by
      cases hop with
      | add n => rfl
      | frame irq =>
        have hf : irq.field = true := by simpa [Op.isNewFrame] using hnew
        show (handleFrame irq c).audioWrites = _
        unfold handleFrame secondField
        rw [hf, if_neg (by simp)]
        unfold aplayCheck
        rw [if_neg (by simp)]
        split_ifs <;> rfl
    exact ⟨by rw [haplay, wrap_wrap], w, hwrites.trans hw, fun v hv => by rw [hlast v hv, haplay]⟩

/-- The audio is under command after a run in which no stream runs. -/
theorem commanded_run (M : ModParams) {c₀ : Card TC} (h0 : c₀.aplay = ⟨0, false⟩) {l : List (Op TC)}
    (hops : ∀ op ∈ l, op.IsAudio) (hstream : ∀ p, p <+: l → (c₀.run M p).stream.running = false) :
    Commanded c₀ (c₀.run M l) := by
  induction l using List.reverseRecOn with
  | nil => exact .start h0
  | append_singleton l op ih =>
    have hl := ih (fun x hx => hops x (List.mem_append_left _ hx)) fun p hp =>
      hstream p (hp.trans (List.prefix_append ..))
    rw [run_append]
    exact hl.exec M (hops op (by simp)) (hstream l (List.prefix_append ..))

/-- In every run of audio frames added and taken back: after every new frame that
leaves the counter at 0 the audio is stopped, by the last command if there was
one, exactly when what is added between two new frames never takes back what the
audio that plays has left. -/
theorem audio_stops_iff (M : ModParams) {c₀ : Card TC} (h0 : c₀.aplay = ⟨0, false⟩)
    {l : List (Op TC)} (hops : ∀ op ∈ l, op.IsAudio)
    (hstream : ∀ p, p <+: l → (c₀.run M p).stream.running = false) :
    (∀ l₁ f l₂, l = l₁ ++ f :: l₂ → f.isNewFrame = true → (c₀.run M (l₁ ++ [f])).aplay.frames = 0 →
        Silent c₀ (c₀.run M (l₁ ++ [f]))) ↔
      ∀ l₁ f l₂ f' l₃, l = l₁ ++ f :: (l₂ ++ f' :: l₃) → f.isNewFrame = true →
        newFrames l₂ = 0 → f'.isNewFrame = true → (c₀.run M (l₁ ++ [f])).aplay.running = true →
          wrap ((c₀.run M (l₁ ++ [f])).aplay.frames + added l₂) ≠ 0 := by
  have hcommanded : ∀ m, m <+: l → Commanded c₀ (c₀.run M m) := fun m hm =>
    commanded_run M h0 (fun op hop => hops op (hm.subset hop)) fun p hp => hstream p (hp.trans hm)
  -- the counter between two new frames
  have hbetween : ∀ l₁ f l₂, l₁ ++ [f] <+: l → newFrames l₂ = 0 → (c₀.run M (l₁ ++ f :: l₂)).aplay =
      ⟨wrap ((c₀.run M (l₁ ++ [f])).aplay.frames + added l₂),
        (c₀.run M (l₁ ++ [f])).aplay.running⟩ := by
    intro l₁ f l₂ hpre hl₂
    rw [List.append_cons l₁ f l₂, run_append, aplay_run]
    exact between_frames hl₂ (hcommanded _ hpre).range
  have hnext : ∀ m f, f.isNewFrame = true →
      (c₀.run M (m ++ [f])).aplay = (c₀.run M m).aplay.check := by
    intro m f hf
    rw [run_append, ← next_newFrame hf]
    exact aplay_exec M _ f
  constructor
  · rintro hstops l₁ f l₂ f' l₃ rfl hf hl₂ hf' hplay htaken
    have hbefore := hbetween l₁ f l₂ (by simp) hl₂
    rw [htaken, hplay] at hbefore
    have hafter := hnext (l₁ ++ f :: l₂) f' hf'
    rw [hbefore, check_empty rfl] at hafter
    have hsilent := (hstops (l₁ ++ f :: l₂) f' l₃ (by simp) hf' (by rw [hafter])).1
    rw [hafter] at hsilent
    exact absurd hsilent.symm Bool.false_ne_true
  · rintro hleft l₁ f l₂ rfl hf hzero
    refine (hcommanded (l₁ ++ [f]) (by simp)).silent ?_
    have hafter := hnext l₁ f hf
    rw [hafter] at hzero ⊢
    by_cases hframes : (c₀.run M l₁).aplay.frames = 0
    · -- the counter was at 0 before: the audio did not play
      rw [check_empty hframes]
      by_contra hplay
      rw [Bool.not_eq_false] at hplay
      have hplay' := hplay
      rw [aplay_run] at hplay'
      obtain ⟨m₁, g, m₂, rfl, hg, hm₂⟩ := playing_since (a := c₀.aplay) (by rw [h0]) hplay'
      have hbefore := hbetween m₁ g m₂ (by simp) hm₂
      rw [hbefore] at hframes hplay
      exact hleft m₁ g m₂ f l₂ (by simp) hg hm₂ hf hplay hframes
    by_cases hplay : (c₀.run M l₁).aplay.running = true
    · rw [check_playing hplay hframes] at hzero ⊢
      simpa using hzero
    · rw [check_stopped (eq_false_of_ne_true hplay) hframes] at hzero
      exact absurd hzero hframes

/-- One frame is added, played and stopped. -/
theorem audio_stops_iff_one :
    let irq : Op ℕ := .frame ⟨false, 0, 0, 0, 0, (0, 0), (0, 0), 0, 0, none⟩
    Silent (Card.new false false) ((Card.new false false).run {} [.aframeAdd 1, irq, irq]) := by
  intro irq
  refine (@audio_stops_iff ℕ _ {} (Card.new false false) rfl [.aframeAdd 1, irq, irq] ?_ ?_).mpr ?_
    [.aframeAdd 1, irq] irq [] rfl rfl (by decide +kernel)
  · intro op hop
    simp only [List.mem_cons, List.not_mem_nil, or_false] at hop
    rcases hop with rfl | rfl | rfl
    · exact .add 1
    · exact .frame _
    · exact .frame _
  · intro p
    rw [← List.mem_inits]
    revert p
    decide +kernel
  · intro l₁ f l₂ f' l₃ hl hf hl₂ hf' hplay
    rcases l₁ with _ | ⟨x, _ | ⟨y, l₁⟩⟩
    · obtain ⟨rfl, -⟩ := List.cons.inj hl
      exact absurd hf Bool.false_ne_true
    · rcases l₂ with _ | ⟨z, l₂⟩
      · obtain ⟨hx, hl⟩ := List.cons.inj hl
        obtain ⟨rfl, -⟩ := List.cons.inj hl
        rw [← hx]
        decide +kernel
      · have hlen := congrArg List.length hl
        simp at hlen
    · have hlen := congrArg List.length hl
      simp at hlen
      omega

/-- Two frames are added, and taken back after the audio was started: it plays on,
with nothing to play. -/
theorem audio_left_running :
    let irq : Op ℕ := .frame ⟨false, 0, 0, 0, 0, (0, 0), (0, 0), 0, 0, none⟩
    let c := (Card.new false false).run {} [.aframeAdd 2, irq, .aframeAdd (-2), irq]
    c.stream.running = false ∧ c.aplay.frames = 0 ∧ lastAudio (Card.new false false) c = some 0 ∧
      ¬ Silent (Card.new false false) c := by
  intro irq c
  have hplay : c.aplay.running = true := by decide +kernel
  refine ⟨by decide +kernel, by decide +kernel, by decide +kernel, fun h => ?_⟩
  rw [h.1] at hplay
  exact Bool.false_ne_true hplay

end AjaDriver
