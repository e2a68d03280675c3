/-
# The timecode generator

A frame interrupt moves the generator at its start (`frameCount`), and on a
capture stream the engine corrects it; the freeing of pages, the audio and the
timecode going out leave it alone. Once it runs it goes on.
-/
import AjaDriver.Audio

namespace AjaDriver

open Card

variable {TC : Type}

/-- Does the generator run? -/
def Card.Generating (c : Card TC) : Prop := c.tcg.flags &&& ajaTcgRunning ≠ 0

instance Card.Generating.decidable (c : Card TC) : Decidable c.Generating :=
  inferInstanceAs (Decidable (_ ≠ _))

theorem tcg_aplayCheck (field : Bool) (c : Card TC) : (aplayCheck field c).tcg = c.tcg := by
  unfold aplayCheck
  simp only
  split_ifs <;> rfl

theorem running_or (flags : BitVec 32) : (flags ||| ajaTcgRunning) &&& ajaTcgRunning ≠ 0 := by
  have hself : (flags ||| ajaTcgRunning) &&& ajaTcgRunning = ajaTcgRunning := by
    apply BitVec.eq_of_getLsbD_eq
    intro i _
    rw [BitVec.getLsbD_and, BitVec.getLsbD_or]
    cases ajaTcgRunning.getLsbD i <;> simp
  rw [hself]
  decide

variable [Timecode TC]

theorem tcg_frameOutput (irq : FrameIrq TC) (srun : Bool) (c : Card TC) :
    (frameOutput irq srun c).tcg = c.tcg :=
  frameOutput_keeps Card.tcg (fun _ _ _ => rfl) irq srun c

/-- The start of a new frame moves a running generator on by one. -/
theorem frameCount_generating (irq : FrameIrq TC) {c : Card TC} (h : c.Generating) :
    (frameCount irq c).tcg.value = Timecode.clearField2 (Timecode.inc c.tcg.value) ∧
      (frameCount irq c).Generating := by
  unfold frameCount
  simp only
  rw [if_pos (show c.tcg.flags &&& ajaTcgRunning ≠ 0 from h)]
  split_ifs
  · refine ⟨value_streamStart _, ?_⟩
    show (streamStart _).tcg.flags &&& ajaTcgRunning ≠ 0
    rw [tcg_streamStart]
    exact running_or _
  · exact ⟨rfl, h⟩

theorem tcg_handleFrame_first {irq : FrameIrq TC} (hf : irq.field = false) (c : Card TC) :
    (handleFrame irq c).tcg = (if c.stream.running
      then frameEngines (streamFreeup irq.freeupIn (frameCount irq c))
      else streamFreeup irq.freeupIn (frameCount irq c)).tcg := by
  unfold handleFrame newFrame
  simp only
  rw [tcg_aplayCheck, if_pos (by simp [hf]), tcg_frameOutput]

theorem tcg_handleFrame_second {irq : FrameIrq TC} (hf : irq.field = true) {c : Card TC}
    (h : c.Generating) :
    (handleFrame irq c).tcg = { c.tcg with value := Timecode.setField2 c.tcg.value } := by
  unfold handleFrame secondField
  rw [tcg_aplayCheck, if_neg (by simp [hf]), if_pos (show c.tcg.flags &&& ajaTcgRunning ≠ 0 from h)]
  rfl

end AjaDriver
