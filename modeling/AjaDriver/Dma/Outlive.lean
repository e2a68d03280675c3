/-
# A transfer and its buffer

The engine runs on its own from the write of its go bit until it clears the
bit or the driver does. `dma` waits for it, and takes every end of the wait
but a timeout for the end of the transfer: a signal ends the wait as well.
So a transfer stays within the life of its buffer exactly when no signal
interrupts the wait, or the engine happens to finish before the buffer is
unmapped (`dma_within_iff`).
-/
import AjaDriver.Dma.Bytes

namespace AjaDriver

open Segments

/-! ### The engine -/

/-- A DMA engine: its go bit, and whether it cleared the bit by itself since
the driver set it. -/
structure Engine where
  go : Bool
  finished : Bool
  deriving DecidableEq, Repr

namespace Engine

/-- The engine at an action of the driver: it may have finished since the last one. -/
def tick (e : Engine) (finish : Bool) : Engine := if finish ∧ e.go then ⟨false, true⟩ else e

/-- What an action of the driver does to the engine with the registers `r`. -/
def act (r : DmaRegs) (e : Engine) : DmaAct → Engine
  | .prset preg value =>
    if preg = r.dmago then if value.getLsbD 0 then ⟨true, false⟩ else { e with go := false } else e
  | _ => e

/-- The driver's actions, each with the engine at that moment. The hardware's
timing is `hw`: it says before which actions a running engine finishes. -/
def trace (r : DmaRegs) (hw : ℕ → Bool) : List DmaAct → ℕ → Engine → List (DmaAct × Engine)
  | [], _, _ => []
  | a :: l, n, e => (a, e.tick (hw n)) :: trace r hw l (n + 1) ((e.tick (hw n)).act r a)

/-- The engine after the driver's actions. -/
def after (r : DmaRegs) (hw : ℕ → Bool) : List DmaAct → ℕ → Engine → Engine
  | [], _, e => e
  | a :: l, n, e => after r hw l (n + 1) ((e.tick (hw n)).act r a)

theorem trace_append (r : DmaRegs) (hw : ℕ → Bool) : ∀ (l m : List DmaAct) (n : ℕ) (e : Engine),
    trace r hw (l ++ m) n e = trace r hw l n e ++ trace r hw m (n + l.length) (after r hw l n e)
  | [], _, _, _ => rfl
  | a :: l, m, n, e => by
    rw [List.cons_append, trace, trace_append r hw l m, trace, after, List.cons_append,
      List.length_cons, Nat.add_assoc, Nat.add_comm 1]

theorem after_append (r : DmaRegs) (hw : ℕ → Bool) : ∀ (l m : List DmaAct) (n : ℕ) (e : Engine),
    after r hw (l ++ m) n e = after r hw m (n + l.length) (after r hw l n e)
  | [], _, _, _ => rfl
  | a :: l, m, n, e => by
    rw [List.cons_append, after, after_append r hw l m, after, List.length_cons, Nat.add_assoc,
      Nat.add_comm 1]

theorem fst_mem_trace {r : DmaRegs} {hw : ℕ → Bool} {x : DmaAct × Engine} :
    ∀ {l : List DmaAct} {n : ℕ} {e : Engine},
    x ∈ trace r hw l n e → x.1 ∈ l
  | [], _, _, h => by simp [trace] at h
  | a :: l, n, e, h => by
    rw [trace] at h
    rcases List.mem_cons.mp h with rfl | h
    · exact List.mem_cons_self ..
    · exact List.mem_cons_of_mem _ (fst_mem_trace h)

theorem tick_of_idle {e : Engine} (h : e.go = false) (finish : Bool) : e.tick finish = e := by
  unfold tick
  rw [h]
  simp

/-- A started engine found stopped has finished. -/
theorem tick_finished {finish : Bool} (h : (tick ⟨true, false⟩ finish).go = false) :
    tick ⟨true, false⟩ finish = ⟨false, true⟩ := by
  cases finish with
  | true => rfl
  | false => exact absurd h (by decide)

theorem tick_running {finish : Bool} (h : (tick ⟨true, false⟩ finish).go = true) :
    tick ⟨true, false⟩ finish = ⟨true, false⟩ := by
  cases finish with
  | true => exact absurd h (by decide)
  | false => rfl

/-- A stopped engine stays as it is while the driver does not start it. -/
theorem idle {r : DmaRegs} (hw : ℕ → Bool) :
    ∀ {l : List DmaAct} (n : ℕ) {e : Engine}, (∀ a ∈ l, ∀ e, act r e a = e) →
    e.go = false → (∀ x ∈ trace r hw l n e, x.2 = e) ∧ after r hw l n e = e
  | [], _, _, _, _ => ⟨by simp [trace], rfl⟩
  | a :: l, n, e, hl, he => by
    rw [trace, after, tick_of_idle he, hl a (List.mem_cons_self ..)]
    obtain ⟨htrace, hafter⟩ := idle hw (n + 1) (fun b hb => hl b (List.mem_cons_of_mem _ hb)) he
    exact ⟨List.forall_mem_cons.mpr ⟨rfl, htrace⟩, hafter⟩

end Engine

/-! ### The transfer -/

/-- The actions that give the buffer back. -/
def DmaAct.GivesBack : DmaAct → Bool
  | .unmapSg | .setPageDirty _ | .release _ => true
  | .prset _ _ | .wait _ => false

/-- The buffer is given back only while the go bit reads 0, and success is
returned only if the engine itself cleared it. -/
def Within (ret : ℤ) (trace : List (DmaAct × Engine)) (e : Engine) : Prop :=
  (∀ x ∈ trace, x.1.GivesBack = true → x.2.go = false) ∧ (ret = 0 → e.finished = true)

instance (ret : ℤ) (trace : List (DmaAct × Engine)) (e : Engine) : Decidable (Within ret trace e) :=
  inferInstanceAs (Decidable (_ ∧ _))

/-- What the results of the wait say: a positive one that the go bit was read
as 0, a negative one that a signal came while it was not. -/
def WaitSays (w : ℤ) (trace : List (DmaAct × Engine)) : Prop :=
  ∀ x ∈ trace, x.1 = .wait w → (0 < w → x.2.go = false) ∧ (w < 0 → x.2.go = true)

instance (w : ℤ) (trace : List (DmaAct × Engine)) : Decidable (WaitSays w trace) :=
  inferInstanceAs (Decidable (∀ _ ∈ _, _ → _))

/-- The cleanup leaves the engine alone. -/
theorem act_dmaCleanup (r : DmaRegs) (k : Kernel) (d : Dma) :
    ∀ a ∈ dmaCleanup k d, ∀ e, Engine.act r e a = e := by
  intro a ha e
  unfold dmaCleanup at ha
  rcases List.mem_cons.mp ha with rfl | ha
  · rfl
  · obtain ⟨i, -, ha⟩ := List.mem_flatMap.mp ha
    rcases List.mem_append.mp ha with ha | ha
    · split_ifs at ha
      · obtain rfl := List.mem_singleton.mp ha
        rfl
      · simp at ha
    · obtain rfl := List.mem_singleton.mp ha
      rfl

theorem givesBack_dmaStart {r : DmaRegs} {dma64 : Bool} {l : SgList} {w : ℤ} :
    ∀ a ∈ dmaStart r dma64 l w, a.GivesBack = false := by
  intro a ha
  rcases List.mem_append.mp ha with ha | ha
  · rcases List.mem_append.mp ha with ha | ha
    · simp only [List.mem_cons, List.not_mem_nil, or_false] at ha
      rcases ha with rfl | rfl | rfl | rfl <;> rfl
    · split_ifs at ha
      · simp only [List.mem_cons, List.not_mem_nil, or_false] at ha
        rcases ha with rfl | rfl <;> rfl
      · simp at ha
  · simp only [List.mem_cons, List.not_mem_nil, or_false] at ha
    rcases ha with rfl | rfl <;> rfl

/-- The engine when the wait returns: it was started, and may have finished. -/
theorem dmaStart_after (r : DmaRegs) (hw : ℕ → Bool) (dma64 : Bool) (l : SgList) (w : ℤ)
    (e₀ : Engine) :
    Engine.after r hw (dmaStart r dma64 l w) 0 e₀ =
      Engine.tick ⟨true, false⟩ (hw ((dmaLoad r dma64 l).length + 1)) ∧
      (.wait w, Engine.tick ⟨true, false⟩ (hw ((dmaLoad r dma64 l).length + 1))) ∈
        Engine.trace r hw (dmaStart r dma64 l w) 0 e₀ := by
  have hgo : ∀ e, Engine.act r e (.prset r.dmago 1) = ⟨true, false⟩ := fun e => by
    show (if r.dmago = r.dmago then if (1 : BitVec 32).getLsbD 0 then (⟨true, false⟩ : Engine)
      else { e with go := false }
      else e) = _
    rw [if_pos rfl, if_pos (by decide)]
  unfold dmaStart
  rw [Engine.after_append, Engine.trace_append, Nat.zero_add]
  set m := (dmaLoad r dma64 l).length
  set e := Engine.after r hw (dmaLoad r dma64 l) 0 e₀
  simp only [Engine.after, Engine.trace, hgo]
  exact ⟨rfl, List.mem_append_right _ (List.mem_cons_of_mem _ (List.mem_singleton_self _))⟩

/-- Until the wait returns, nothing is given back. -/
theorem within_start {r : DmaRegs} {hw : ℕ → Bool} {dma64 : Bool} {l : SgList} {w ret : ℤ}
    {e₀ e : Engine} {t : List (DmaAct × Engine)} :
    Within ret (Engine.trace r hw (dmaStart r dma64 l w) 0 e₀ ++ t) e ↔ Within ret t e := by
  have hstart : ∀ x ∈ Engine.trace r hw (dmaStart r dma64 l w) 0 e₀, x.1.GivesBack = false :=
    fun x hx =>
    givesBack_dmaStart x.1 (Engine.fst_mem_trace hx)
  refine and_congr_left fun _ =>
    ⟨fun h x hx => h x (List.mem_append_right _ hx), fun h x hx hback => ?_⟩
  rcases List.mem_append.mp hx with hx | hx
  · rw [hstart x hx] at hback
    simp at hback
  · exact h x hx hback

/-- A buffer given back while the engine is stopped. -/
theorem within_idle {r : DmaRegs} {hw : ℕ → Bool} {k : Kernel} {d : Dma} (n : ℕ) {ret : ℤ}
    {e : Engine} (he : e.go = false) (hret : ret = 0 → e.finished = true) :
    Within ret (Engine.trace r hw (dmaCleanup k d) n e)
    (Engine.after r hw (dmaCleanup k d) n e) := by
  obtain ⟨htrace, hafter⟩ := Engine.idle hw n (act_dmaCleanup r k d) he
  refine ⟨fun x hx _ => ?_, fun h => ?_⟩
  · rw [htrace x hx]
    exact he
  · rw [hafter]
    exact hret h

/-- A buffer given back while the engine may be running: it must finish before
the first action. -/
theorem within_running {r : DmaRegs} {hw : ℕ → Bool} {k : Kernel} {d : Dma} {n : ℕ} :
    Within 0 (Engine.trace r hw (dmaCleanup k d) n ⟨true, false⟩)
    (Engine.after r hw (dmaCleanup k d) n ⟨true, false⟩) ↔
      hw n = true := by
  by_cases hn : hw n = true
  · refine ⟨fun _ => hn, fun _ => ?_⟩
    have htick : Engine.tick ⟨true, false⟩ (hw n) = Engine.tick ⟨false, true⟩ (hw n) := by
      rw [hn]; rfl
    have hsame : Within 0 (Engine.trace r hw (dmaCleanup k d) n ⟨false, true⟩)
        (Engine.after r hw (dmaCleanup k d) n ⟨false, true⟩) := within_idle n rfl fun _ => rfl
    unfold dmaCleanup at hsame ⊢
    rw [Engine.trace, Engine.after] at hsame ⊢
    rwa [htick]
  · refine ⟨fun h => ?_, fun h => absurd h hn⟩
    have hunmap := h.1 (.unmapSg, Engine.tick ⟨true, false⟩ (hw n)) (List.mem_cons_self ..) rfl
    rw [Bool.not_eq_true] at hn
    rw [hn] at hunmap
    exact absurd hunmap (by decide)

/-- A transfer that times out is stopped by the driver itself. -/
theorem within_timeout {r : DmaRegs} {hw : ℕ → Bool} {k : Kernel} {dma64 : Bool} {d : Dma}
    {l : SgList} {e₀ : Engine} :
    Within (dmaTransfer k r dma64 d l 0).1 (Engine.trace r hw (dmaTransfer k r dma64 d l 0).2 0 e₀)
      (Engine.after r hw (dmaTransfer k r dma64 d l 0).2 0 e₀) := by
  have hstop : ∀ e, (Engine.act r e (.prset r.dmago 0)).go = false := fun e => by
    show (if r.dmago = r.dmago then if (0 : BitVec 32).getLsbD 0 then (⟨true, false⟩ : Engine)
      else { e with go := false }
      else e).go = false
    rw [if_pos rfl, if_neg (by decide)]
  have hret : ∀ e : Engine, -ETIMEDOUT = 0 → e.finished = true := fun e h => absurd h (by decide)
  unfold dmaTransfer
  rw [if_pos rfl]
  simp only
  rw [Engine.trace_append, Engine.after_append, within_start, Engine.trace, Engine.after]
  set n := 0 + (dmaStart r dma64 l 0).length
  set e := Engine.after r hw (dmaStart r dma64 l 0) 0 e₀
  obtain ⟨hback, hend⟩ := within_idle (k := k) (d := d) (n + 1) (hstop (e.tick (hw n))) (hret _)
  exact ⟨List.forall_mem_cons.mpr ⟨fun h => by simp [DmaAct.GivesBack] at h, hback⟩, hend⟩

/-- The buffer is unmapped right after the wait. -/
theorem idxOf_unmapSg {r : DmaRegs} {k : Kernel} {dma64 : Bool} {d : Dma} {l : SgList} {w : ℤ} :
    (dmaStart r dma64 l w ++ dmaCleanup k d).idxOf .unmapSg = (dmaStart r dma64 l w).length := by
  have hnot : DmaAct.unmapSg ∉ dmaStart r dma64 l w :=
    fun h => absurd (givesBack_dmaStart _ h) (by decide)
  rw [List.idxOf_append_of_notMem hnot]
  unfold dmaCleanup
  rw [List.idxOf_cons_self, Nat.add_zero]

/-- A transfer that was started: the engine was given to it and its request
was accepted. -/
theorem dma_started {M : ModParams} {k : Kernel} {dma64 : Bool} {busy : Fin 3 → Bool}
    {info : DmaInfo} {w : ℤ} {i : Fin 3} (hi : dmaEngine busy = some i) {a : DmaAct}
    (ha : a ∈ (dma M k dma64 busy info w).2) :
    ∃ d, dma M k dma64 busy info w = dmaTransfer k (dmaRegs i) dma64 d
      (d.list.headD default) w := by
  unfold dma at ha ⊢
  rw [hi] at ha ⊢
  simp only at ha ⊢
  rcases hd : dmaInit M k dma64 info.dir info.uadd.toNat info.cadd info.len.toNat with err | d
  · rw [hd] at ha
    simp at ha
  · exact ⟨d, rfl⟩

/-- A started transfer stays within the life of its buffer if and only if no
signal ends the wait, or the engine finishes before the buffer is unmapped. -/
theorem dma_within_iff {M : ModParams} {k : Kernel} {dma64 : Bool} {busy : Fin 3 → Bool}
    {info : DmaInfo} {w : ℤ} {i : Fin 3} {hw : ℕ → Bool} {e₀ : Engine}
    (hi : dmaEngine busy = some i)
    (hstart : .prset (dmaRegs i).dmago 1 ∈ (dma M k dma64 busy info w).2)
    (hwait : WaitSays w (Engine.trace (dmaRegs i) hw (dma M k dma64 busy info w).2 0 e₀)) :
    Within (dma M k dma64 busy info w).1
        (Engine.trace (dmaRegs i) hw (dma M k dma64 busy info w).2 0 e₀)
        (Engine.after (dmaRegs i) hw (dma M k dma64 busy info w).2 0 e₀) ↔
      0 ≤ w ∨ hw ((dma M k dma64 busy info w).2.idxOf .unmapSg) = true := by
  obtain ⟨d, hd⟩ := dma_started hi hstart
  rw [hd] at hwait ⊢
  set r := dmaRegs i
  set l := d.list.headD default
  by_cases h0 : w = 0
  · rw [h0]
    exact iff_of_true within_timeout (Or.inl le_rfl)
  · -- the wait ended otherwise, and its end is taken for the transfer's
    have hsplit : dmaTransfer k r dma64 d l w = (0, dmaStart r dma64 l w ++ dmaCleanup k d) :=
      if_neg h0
    obtain ⟨hafter, hmem⟩ := dmaStart_after r hw dma64 l w e₀
    rw [hsplit] at hwait ⊢
    simp only at hwait ⊢
    rw [Engine.trace_append] at hwait
    obtain ⟨hcleared, hsignal⟩ := hwait _ (List.mem_append_left _ hmem) rfl
    rw [Engine.trace_append, Engine.after_append, hafter, within_start, idxOf_unmapSg, Nat.zero_add]
    rcases lt_or_gt_of_ne h0 with hneg | hpos
    · rw [Engine.tick_running (hsignal hneg), within_running]
      exact ⟨Or.inr, fun h => h.resolve_left (not_le.mpr hneg)⟩
    · rw [Engine.tick_finished (hcleared hpos)]
      exact iff_of_true (within_idle _ rfl fun _ => rfl) (Or.inl hpos.le)

/-- A transfer of two words on the first engine. -/
abbrev wordsTransfer (w : ℤ) : ℤ × List DmaAct :=
  dma {} (Kernel.direct (· * pageSize)) false (fun _ => false) (alignedRequest 8) w

/-- An engine that finishes during the wait. -/
theorem dma_within_done :
    Within 0 (Engine.trace (dmaRegs 0) (· == 5) (wordsTransfer 990).2 0 ⟨false, false⟩)
      (Engine.after (dmaRegs 0) (· == 5) (wordsTransfer 990).2 0 ⟨false, false⟩) :=
  (dma_within_iff (M := {}) (i := 0) rfl (by decide +kernel) (by decide +kernel)).mpr
    (Or.inl (by decide))

/-- A signal ends the wait, and the pages are given back to the kernel under a
running engine. -/
theorem signal_unmaps_running :
    WaitSays (-512)
        (Engine.trace (dmaRegs 0) (fun _ => false) (wordsTransfer (-512)).2 0 ⟨false, false⟩) ∧
      ¬ Within (wordsTransfer (-512)).1
        (Engine.trace (dmaRegs 0) (fun _ => false) (wordsTransfer (-512)).2 0 ⟨false, false⟩)
        (Engine.after (dmaRegs 0) (fun _ => false) (wordsTransfer (-512)).2 0 ⟨false, false⟩) := by
  decide +kernel

end AjaDriver
