/-
# The capture engine carries out its plan

A capture frame arms the lowest free pages, one for each channel, or counts a
drop (`streamCapture_captured`). The pages it arms were free, so the FIFO,
whose pages are all in use, is left alone.
-/
import AjaDriver.Plan
import AjaDriver.View

namespace AjaDriver

open Function Word Pool Card

variable {TC : Type}

/-! ### Allocation -/

theorem alloc_nil {P : Pool} {pagect : ℤ} (h : freePages P.inuse pagect = []) :
    (P.streamPageAlloc pagect).1 = -EAGAIN ∧ P.Keeps (P.streamPageAlloc pagect).2 := by
  rcases P.alloc_cases pagect with ⟨p, h0, hp, hlow, -, ht⟩ | ⟨-, hr, hk⟩
  · rw [freePages_cons h0 hp ht.free hlow] at h
    simp at h
  · exact ⟨hr, hk⟩

/-- The lowest free page is taken, the others stay free. -/
theorem alloc_cons {P : Pool} {pagect p : ℤ} {l : List ℤ} (h : freePages P.inuse pagect = p :: l) :
    (P.streamPageAlloc pagect).1 = p ∧ P.Takes p (P.streamPageAlloc pagect).2 ∧
      freePages (P.streamPageAlloc pagect).2.inuse pagect = l := by
  rcases P.alloc_cases pagect with ⟨a, h0, ha, hlow, hr, ht⟩ | ⟨hall, -, -⟩
  · rw [freePages_cons h0 ha ht.free hlow] at h
    obtain ⟨rfl, hl⟩ := List.cons.inj h
    exact ⟨hr, ht, by rw [ht.inuse]; exact hl⟩
  · have hp : p ∈ freePages P.inuse pagect := by rw [h]; exact List.mem_cons_self ..
    obtain ⟨⟨h0, hlt⟩, hfree⟩ := mem_freePages.mp hp
    rw [hall p h0 hlt] at hfree
    simp at hfree

/-! ### Arming the channels -/

/-- `d` is `c` with the free pages `l` armed on the channels from `n` on. -/
structure Armed (c d : Card TC) (q : List ℤ) (n : ℤ) (l : List ℤ) : Prop where
  holds : d.stream.pool.Holds q
  fifo : d.stream.pool.fifo = c.stream.pool.fifo
  inuse : d.stream.pool.inuse = fun p => decide (p ∈ l) || c.stream.pool.inuse p
  last : d.stream.last = record ajaCapture n l c.stream.last
  outputs : d.outputs = c.outputs
  inputs : d.inputs = c.inputs ++ tag n l
  steady : Steady c d

theorem inputOf_arm {n : ℤ} (h0 : 0 ≤ n) (h2 : n < 2) (p : ℤ) :
    inputOf (.prset (if n ≠ 0 then ch2input else ch1input) p : Io TC) = some (n, p) := by
  obtain rfl | rfl : n = 0 ∨ n = 1 := by omega
  · rfl
  · rfl

theorem outputOf_arm (n p : ℤ) :
    outputOf (.prset (if n ≠ 0 then ch2input else ch1input) p : Io TC) = none := by
  split_ifs <;> rfl

theorem Armed.nil {c d : Card TC} {q : List ℤ} {n : ℤ} (h : c.stream.pool.Holds q)
    (hk : c.stream.pool.Keeps d.stream.pool) (hl : d.stream.last = c.stream.last)
    (ho : d.outputs = c.outputs) (hi : d.inputs = c.inputs) (hs : Steady c d) :
    Armed c d q n [] where
  holds := h.keeps hk
  fifo := hk.fifo
  inuse := by rw [hk.inuse]; simp
  last := hl
  outputs := ho
  inputs := by rw [hi]; exact (List.append_nil _).symm
  steady := hs

/-- One channel's page, then those of the channels after it. -/
theorem Armed.cons {c d e : Card TC} {p : ℤ} {q l : List ℤ} {n : ℤ} (h : Armed c d q n [p])
    (h' : Armed d e q (n + 1) l) : Armed c e q n (p :: l) where
  holds := h'.holds
  fifo := h'.fifo.trans h.fifo
  inuse := by
    rw [h'.inuse, h.inuse]
    funext a
    simp only [List.mem_cons]
    by_cases ha : a = p <;> by_cases hl : a ∈ l <;> simp [ha, hl]
  last := by rw [h'.last, h.last]; rfl
  outputs := h'.outputs.trans h.outputs
  inputs := by rw [h'.inputs, h.inputs, List.append_assoc]; rfl
  steady := h.steady.trans h'.steady

theorem captureFrame_full {c : Card TC} {q : List ℤ} (h : c.stream.pool.Holds q) {n : ℤ}
    (hfree : freePages c.stream.pool.inuse c.stream.pagect = []) :
    (streamCaptureFrame c n).1 < 0 ∧ Armed c (streamCaptureFrame c n).2 q n [] := by
  obtain ⟨hr, hk⟩ := alloc_nil hfree
  unfold streamCaptureFrame
  simp only
  rw [hr, if_pos (by decide)]
  exact ⟨by simp [ENOMEM], Armed.nil h hk rfl rfl rfl (steady_withPool _ _)⟩

/-- The card when channel `n` is armed with page `p`. -/
theorem captureFrame_eq {c : Card TC} {p : ℤ} {l : List ℤ}
    (hfree : freePages c.stream.pool.inuse c.stream.pagect = p :: l) (n : ℤ) :
    streamCaptureFrame c n =
      (p, ((c.withPool (c.stream.pool.streamPageAlloc c.stream.pagect).2).prset
        (if n ≠ 0 then ch2input else ch1input) p).setLast n ⟨p, ajaCapture⟩) := by
  have hp : p ∈ freePages c.stream.pool.inuse c.stream.pagect := by
    rw [hfree]; exact List.mem_cons_self ..
  unfold streamCaptureFrame
  simp only
  rw [(alloc_cons hfree).1, if_neg (not_lt.mpr (mem_freePages.mp hp).1.1)]

/-- A channel is armed with the lowest free page. -/
theorem captureFrame_arm {c : Card TC} {p : ℤ} {q l : List ℤ} (h : c.stream.pool.Holds q)
    (hq : ∀ a ∈ q, c.stream.pool.inuse a = true) {n : ℤ} (h0 : 0 ≤ n) (h2 : n < 2)
    (hfree : freePages c.stream.pool.inuse c.stream.pagect = p :: l) :
    (streamCaptureFrame c n).1 = p ∧ Armed c (streamCaptureFrame c n).2 q n [p] ∧
      freePages (streamCaptureFrame c n).2.stream.pool.inuse c.stream.pagect = l := by
  obtain ⟨-, ht, hl⟩ := alloc_cons hfree
  have hp : p ∈ freePages c.stream.pool.inuse c.stream.pagect := by
    rw [hfree]; exact List.mem_cons_self ..
  obtain ⟨-, hpf⟩ := mem_freePages.mp hp
  have hpq : p ∉ q := fun e => by rw [hq p e] at hpf; simp at hpf
  rw [captureFrame_eq hfree]
  refine ⟨rfl, ⟨?_, ht.fifo, ?_, rfl, ?_, ?_, ?_⟩, hl⟩
  · exact (h.takes ht hpq).keeps (keeps_touch _ .last n)
  · show (c.stream.pool.streamPageAlloc c.stream.pagect).2.inuse = _
    rw [ht.inuse]
    funext a
    rw [update_apply]
    by_cases ha : a = p <;> simp [ha]
  · rw [outputs_setLast, outputs_prset, outputOf_arm, outputs_withPool]
    exact List.append_nil _
  · rw [inputs_setLast, inputs_prset, inputOf_arm h0 h2, inputs_withPool]
    rfl
  · exact (steady_withPool c _).trans ((steady_prset _ _ _).trans (steady_setLast _ _ _))

theorem Armed.setMeta {c d : Card TC} {q l : List ℤ} {n : ℤ} (h : Armed c d q n l) (p : ℤ)
    (m : StreamMeta TC) :
    Armed c (d.setMeta p m) q n l :=
  ⟨h.holds.keeps (keeps_touch _ .pagemeta p), h.fifo, h.inuse, h.last, h.outputs, h.inputs,
    h.steady.trans (steady_setMeta _ _ _)⟩

section Engine

variable [Timecode TC]

/-- The loop arms the lowest free pages, as many as there are. -/
theorem captureLoop_spec (inc : ℤ) :
    ∀ (k : ℕ) (n : ℤ) {c : Card TC} {q : List ℤ}, c.stream.pool.Holds q →
    (∀ a ∈ q, c.stream.pool.inuse a = true) → 0 ≤ n → n + k ≤ 2 →
    Armed c (captureLoop inc k n c) q n ((freePages c.stream.pool.inuse c.stream.pagect).take k)
  | 0, n, c, q, h, _, _, _ => Armed.nil h ⟨rfl, rfl, rfl, rfl⟩ rfl rfl rfl (.refl c)
  | k + 1, n, c, q, h, hq, h0, h2 => by
    push_cast at h2
    unfold captureLoop
    simp only
    cases hfree : freePages c.stream.pool.inuse c.stream.pagect with
    | nil =>
      obtain ⟨hneg, ha⟩ := captureFrame_full h (n := n) hfree
      rw [if_pos hneg]
      exact ha
    | cons p l =>
      obtain ⟨hr, ha, hl⟩ := captureFrame_arm h hq h0 (by omega) hfree
      have hp : p ∈ freePages c.stream.pool.inuse c.stream.pagect := by
        rw [hfree]; exact List.mem_cons_self ..
      have hp0 := (mem_freePages.mp hp).1.1
      rw [hr, if_neg (not_lt.mpr hp0)]
      have ham := ha.setMeta p (captureMeta (streamCaptureFrame c n).2 n inc)
      have hq' : ∀ a ∈ q, ((streamCaptureFrame c n).2.setMeta p
          (captureMeta (streamCaptureFrame c n).2 n inc)).stream.pool.inuse a = true := by
        intro a haq
        rw [ham.inuse]
        simp [hq a haq]
      have ih := captureLoop_spec inc k (n + 1) ham.holds hq' (by omega) (by omega)
      have hfree' : freePages ((streamCaptureFrame c n).2.setMeta p
          (captureMeta (streamCaptureFrame c n).2 n inc)).stream.pool.inuse
          ((streamCaptureFrame c n).2.setMeta p
            (captureMeta (streamCaptureFrame c n).2 n inc)).stream.pagect = l := by
        rw [ham.steady.pagect]
        exact hl
      rw [hfree'] at ih
      exact ham.cons ih

/-! ### A capture frame -/

/-- `d` is `c`, whose FIFO held `q`, after the capture frame `e`. -/
structure Captured (c d : Card TC) (q : List ℤ) (e : ArmPlan) : Prop where
  holds : d.stream.pool.Holds q
  fifo : d.stream.pool.fifo = c.stream.pool.fifo
  inuse : d.stream.pool.inuse = fun p => decide (p ∈ e.armed) || c.stream.pool.inuse p
  last : d.stream.last = record ajaCapture 0 e.armed c.stream.last
  outputs : d.outputs = c.outputs
  inputs : d.inputs = c.inputs ++ tag 0 e.armed
  flags : d.stream.flags = c.stream.flags
  pagect : d.stream.pagect = c.stream.pagect
  chans : d.stream.chans = c.stream.chans
  drops : d.stream.drop.count = c.stream.drop.count + e.drops

/-- `aja_stream_capture` does what its plan says. -/
theorem streamCapture_captured {c : Card TC} {k : ℕ} {q : List ℤ}
    (hf : c.stream.flags &&& ajaCapture ≠ 0) (hk : c.stream.chans = k) (h2 : k ≤ 2)
    (h : c.stream.pool.Holds q) (hq : ∀ a ∈ q, c.stream.pool.inuse a = true) :
    Captured c (streamCapture c) q (armPlan c.stream.pool.inuse c.stream.pagect k
      c.stream.pool.fifo) := by
  unfold streamCapture armPlan
  simp only
  rw [if_neg hf, hk]
  by_cases hfull : wrap (c.stream.pagect - c.stream.pool.fifo) ≤ k
  · rw [if_pos hfull, if_pos hfull]
    exact ⟨h, rfl, by simp; rfl, rfl, rfl, (List.append_nil _).symm, rfl, rfl, rfl, rfl⟩
  · rw [if_neg hfull, if_neg hfull]
    set c1 : Card TC := { c with stream := (streamSpeedcount c.stream).2 }
    set c2 := captureBump (streamSpeedcount c.stream).1 c1 with hc2
    have hstream : c2.stream = c1.stream := by
      rw [hc2]
      unfold captureBump
      split_ifs <;> rfl
    have hv : c2.view = c.view := view_captureBump c1 _
    have hs := captureLoop_spec (streamSpeedcount c.stream).1 k 0 (c := c2) (q := q)
      (by rw [hstream]; exact h) (by rw [hstream]; exact hq) le_rfl (by omega)
    have hk1 : c1.stream.chans.toNat = k := by
      show c.stream.chans.toNat = k
      rw [hk, Int.toNat_natCast]
    rw [hk1]
    have hpool : c2.stream.pool = c.stream.pool := pool_of_view hv
    have hpagect : c2.stream.pagect = c.stream.pagect := pagect_of_view hv
    rw [hpool, hpagect] at hs
    refine ⟨hs.holds, ?_, ?_, ?_, ?_, ?_, ?_, ?_, ?_, ?_⟩
    · rw [hs.fifo, hpool]
    · rw [hs.inuse, hpool]
    · rw [hs.last, last_of_view hv]
    · rw [hs.outputs, outputs_of_view hv]
    · rw [hs.inputs, inputs_of_view hv]
    · rw [hs.steady.flags, flags_of_view hv]
    · rw [hs.steady.pagect, pagect_of_view hv]
    · rw [hs.steady.chans, chans_of_view hv]
    · rw [hs.steady.drops, hstream, add_zero]
      rfl

end Engine

end AjaDriver
