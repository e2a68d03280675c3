/-
# A released stream

`aja_release` stops the stream of the process that releases it, if it runs. A
stream that does not run yet, but was given a trigger, keeps it: the interrupts
that follow start it, with no process left that owns it. A released stream
stays stopped exactly when it was running or no trigger was ahead
(`released_stopped_iff`).
-/
import AjaDriver.Control
import AjaDriver.Safety

namespace AjaDriver

open Card

variable {TC : Type}

namespace Control

/-- The stream is stopped and no trigger is ahead. -/
structure Idle (k : Control) : Prop where
  stopped : k.running = false
  unarmed : k.trigger = 0 ∨ k.trigger ≤ k.id

theorem Idle.not_due {k : Control} (h : k.Idle) : ¬ k.Due := by
  rintro ⟨hne, heq⟩
  rcases h.unarmed with h0 | hle
  · exact hne h0
  · omega

theorem Idle.newFrame {k : Control} (h : k.Idle) : k.newFrame.Idle := by
  constructor
  · rw [running_newFrame, if_neg h.not_due]
    exact h.stopped
  · rw [trigger_newFrame, if_neg h.not_due, id_newFrame]
    exact h.unarmed.imp_right fun hle => by omega

/-- The stream is stopped, and its trigger comes `n` frames after the next. -/
structure Armed (k : Control) (n : ℕ) : Prop where
  stopped : k.running = false
  set : k.trigger ≠ 0
  ahead : k.trigger = k.id + 1 + n

theorem Armed.newFrame {k : Control} {n : ℕ} (h : k.Armed (n + 1)) : k.newFrame.Armed n := by
  have hahead := h.ahead
  push_cast at hahead
  have hnot : ¬ k.Due := fun hd => by
    have := hd.2
    omega
  constructor
  · rw [running_newFrame, if_neg hnot]
    exact h.stopped
  · rw [trigger_newFrame, if_neg hnot]
    exact h.set
  · rw [trigger_newFrame, if_neg hnot, id_newFrame]
    omega

theorem Armed.due {k : Control} (h : k.Armed 0) : k.Due := ⟨h.set, by have := h.ahead; omega⟩

end Control

/-! ### The interrupts after a release -/

variable [Timecode TC]

/-- An interrupt moves the control as its cue does, but for the audio. -/
theorem handleFrame_next (irq : FrameIrq TC) (c : Card TC) :
    ∃ frames audio, (handleFrame irq c).control =
      { c.control.next (cue c (.frame irq)) with frames := frames, audio := audio } := by
  have hcheck : ∀ d : Card TC, ∃ frames audio,
      (aplayCheck irq.field d).control = { d.control with frames := frames, audio := audio } := by
    intro d
    unfold aplayCheck
    simp only
    split_ifs <;> exact ⟨_, _, rfl⟩
  unfold handleFrame
  obtain ⟨frames, audio, h⟩ := hcheck (if ¬ irq.field then newFrame irq c else secondField c)
  rw [h, control_fields]
  exact ⟨frames, audio, rfl⟩

theorem idle_handleFrame {c : Card TC} (h : c.control.Idle) (irq : FrameIrq TC) :
    (handleFrame irq c).control.Idle := by
  obtain ⟨frames, audio, hnext⟩ := handleFrame_next irq c
  have hidle : (c.control.next (cue c (.frame irq))).Idle := by
    by_cases hf : irq.field = true
    · rw [cue_secondField hf]
      exact h
    · rw [cue_newFrame (eq_false_of_ne_true hf)]
      exact h.newFrame
  rw [hnext]
  exact ⟨hidle.stopped, hidle.unarmed⟩

/-- An idle stream stays stopped, whatever interrupts come. -/
theorem idle_run (M : ModParams) : ∀ (irqs : List (FrameIrq TC)) {c : Card TC}, c.control.Idle →
    (c.run M (irqs.map Op.frame)).stream.running = false
  | [], _, h => h.stopped
  | irq :: irqs, _, h => idle_run M irqs (idle_handleFrame h irq)

/-- An armed one is started, when enough frames have come. -/
theorem armed_run (M : ModParams) (irq : FrameIrq TC) (hf : irq.field = false) :
    ∀ (n : ℕ) {c : Card TC},
    c.control.Armed n → (c.run M ((List.replicate (n + 1) irq).map Op.frame)).stream.running = true
  | 0, c, h => by
    obtain ⟨frames, audio, hnext⟩ := handleFrame_next irq c
    have hrun : (handleFrame irq c).control.running = c.control.newFrame.running := by
      rw [hnext, cue_newFrame hf]; rfl
    exact hrun.trans (by rw [Control.running_newFrame, if_pos h.due])
  | n + 1, c, h => by
    obtain ⟨frames, audio, hnext⟩ := handleFrame_next irq c
    have harmed : (handleFrame irq c).control.Armed n := by
      rw [hnext, cue_newFrame hf]
      exact ⟨h.newFrame.stopped, h.newFrame.set, h.newFrame.ahead⟩
    exact armed_run M irq hf n harmed

/-- In every run: a stream its process released is never started by an interrupt
exactly when it was running, or its trigger was not set or had passed. -/
theorem released_stopped_iff (M : ModParams) (c₀ : Card TC) (ops : List (Op TC)) :
    let c := c₀.run M ops
    (∀ irqs : List (FrameIrq TC),
        (c.run M (.release c.stream.pid :: irqs.map Op.frame)).stream.running = false) ↔
      c.stream.running = true ∨ c.stream.trigger = 0 ∨ c.stream.trigger ≤ c.frame.id := by
  intro c
  have hstep : ∀ irqs : List (FrameIrq TC), c.run M (.release c.stream.pid :: irqs.map Op.frame) =
      (release c c.stream.pid).run M (irqs.map Op.frame) := fun _ => rfl
  simp only [hstep]
  by_cases hr : c.stream.running = true
  · refine iff_of_true (fun irqs => idle_run M irqs ?_) (.inl hr)
    rw [release, if_pos ⟨hr, rfl⟩, control_streamStop]
    exact ⟨rfl, .inl rfl⟩
  · have hstopped := eq_false_of_ne_true hr
    rw [release, if_neg (fun h => hr h.1)]
    constructor
    · intro h
      by_contra hcond
      rw [not_or, not_or, not_le] at hcond
      obtain ⟨n, hn⟩ : ∃ n : ℕ, c.stream.trigger = c.frame.id + 1 + n :=
        ⟨(c.stream.trigger - c.frame.id - 1).toNat, by omega⟩
      -- as many frames as the trigger is ahead
      have hstarted := armed_run M ⟨false, 0, 0, 0, 0, (0, 0), (0, 0), 0, c.tcg.value, none⟩ rfl n
        (c := c) ⟨hstopped, hcond.2.1, hn⟩
      rw [h] at hstarted
      exact Bool.false_ne_true hstarted
    · intro hcond irqs
      exact idle_run M irqs ⟨hstopped, hcond.resolve_left hr⟩

/-- A process sets a trigger and goes; two frames later its stream runs. -/
theorem released_starts :
    let c := (Card.new false false : Card ℕ).run {} [.streamInit 7 ⟨8, ajaPlayback, 1, 0⟩, .settrig 2]
    let irq : FrameIrq ℕ := ⟨false, 0, 0, 0, 0, (0, 0), (0, 0), 0, 0, none⟩
    c.stream.pid = 7 ∧ (c.run {} [.release 7, .frame irq, .frame irq]).stream.running = true := by
  decide +kernel

end AjaDriver
