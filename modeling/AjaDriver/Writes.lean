/-
# The writes to one register

What was written to a register so far, oldest first. The frame handler of a card
whose stream is stopped writes the timecode out and checks the audio, and writes
to no other register (`writes_newFrame`).
-/
import AjaDriver.View

namespace AjaDriver

open Function Card

variable {TC : Type} {r : Register}

/-- A write to the register `r`. -/
def writeTo (r : Register) : Io TC → Option ℤ
  | .prset preg value => if preg = r then some value else none
  | _ => none

/-- The values written to the register `r`, oldest first. -/
def Card.writes (c : Card TC) (r : Register) : List ℤ := c.io.filterMap (writeTo r)

theorem writes_send (c : Card TC) (e : Io TC) :
    (c.send e).writes r = c.writes r ++ (writeTo r e).toList := by
  simp only [writes, Card.send, List.filterMap_append, List.filterMap_cons, List.filterMap_nil]
  cases writeTo r e <;> rfl

theorem writes_prset (c : Card TC) (v : ℤ) : (c.prset r v).writes r = c.writes r ++ [v] := by
  refine (writes_send c (.prset r v)).trans ?_
  rw [writeTo, if_pos rfl]
  rfl

/-- A call of the LTC board or the P2 slave, or a write to another register. -/
theorem writes_other (c : Card TC) {e : Io TC} (he : writeTo r e = none) :
    (c.send e).writes r = c.writes r := by
  rw [writes_send, he]
  exact List.append_nil _

theorem writes_prset_other {preg : Register} (h : preg ≠ r) (c : Card TC) (v : ℤ) :
    (c.prset preg v).writes r = c.writes r :=
  writes_other c (e := .prset preg v) (if_neg h)

theorem writes_ltcRun (c : Card TC) (b : Bool) : (c.ltcRun b).writes r = c.writes r := by
  unfold ltcRun
  split_ifs
  · exact writes_other c rfl
  · rfl

theorem writes_streamStart (c : Card TC) : (streamStart c).writes r = c.writes r :=
  writes_ltcRun _ true

theorem io_freeup (x : FreeupIn TC) (c : Card TC) : (streamFreeup x c).io = c.io := by
  have hio : ∀ (i : ℤ) (d : Card TC), (freeupSlot x i d).io = d.io := by
    intro i d
    have hset : ∀ (e : Card TC) (l : LastPage), (e.setLast i l).io = e.io := fun _ _ => rfl
    unfold freeupSlot
    simp only
    rw [hset]
    split_ifs <;> rfl
  unfold streamFreeup
  rw [hio, hio]

theorem writes_freeup (x : FreeupIn TC) (c : Card TC) :
    (streamFreeup x c).writes r = c.writes r := by
  unfold Card.writes
  rw [io_freeup]

theorem writes_aplayCheck (h : aplayreset ≠ r) (field : Bool) (c : Card TC) :
    (aplayCheck field c).writes r = c.writes r := by
  have hstop : ∀ d : Card TC, d.aplayStop.writes r = d.writes r := fun d => writes_prset_other h d 1
  have hstart : ∀ d : Card TC, d.aplayStart.writes r = d.writes r := fun d =>
    (writes_prset_other h _ 0).trans (writes_prset_other h d 1)
  unfold aplayCheck
  simp only
  split_ifs
  · exact hstop _
  · rfl
  · exact hstart _
  · rfl

variable [Timecode TC]

theorem writes_frameCount (irq : FrameIrq TC) (c : Card TC) :
    (frameCount irq c).writes r = c.writes r := by
  unfold frameCount
  simp only
  split_ifs <;> first
    | rfl
    | exact writes_streamStart _

/-- The register carries no timecode. -/
def NoTimecode (r : Register) : Prop :=
  ch1rp188_1 ≠ r ∧ ch1rp188_2 ≠ r ∧ ch2rp188_1 ≠ r ∧ ch2rp188_2 ≠ r

instance NoTimecode.decidable (r : Register) : Decidable (NoTimecode r) :=
  inferInstanceAs (Decidable (_ ∧ _))

theorem writes_frameOutput (hr : NoTimecode r) (irq : FrameIrq TC) (srun : Bool) (c : Card TC) :
    (frameOutput irq srun c).writes r = c.writes r := by
  refine frameOutput_keeps (fun c => c.writes r) (fun d _ he => ?_) irq srun c
  cases he with
  | rp188 hmem v =>
    simp only [rp188Registers, List.mem_cons, List.not_mem_nil, or_false] at hmem
    rcases hmem with rfl | rfl | rfl | rfl
    · exact writes_prset_other hr.1 d v
    · exact writes_prset_other hr.2.1 d v
    · exact writes_prset_other hr.2.2.1 d v
    · exact writes_prset_other hr.2.2.2 d v
  | ltcWrite tc => exact writes_other d rfl
  | ltcSync val => exact writes_other d rfl
  | p2slaveSetTc tc => exact writes_other d rfl

/-- A new frame of a card whose stream is stopped, up to the check of the audio. -/
theorem writes_newFrame (hr : NoTimecode r) (irq : FrameIrq TC) {c : Card TC}
    (hrun : c.stream.running = false) :
    (newFrame irq c).writes r = c.writes r := by
  unfold newFrame
  simp only
  rw [writes_frameOutput hr, hrun, if_neg Bool.false_ne_true, writes_freeup, writes_frameCount]

end AjaDriver
