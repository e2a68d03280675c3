/-
# The metadata of captured pages

A page is given its metadata twice: when it is armed, with the frame's time and the
timecode generator (`shotMeta`), and when the next frame publishes it, with the audio
pointer and the timecodes read then (`FreeupIn.mark`). A new frame does both at
once and touches the metadata of no other page (`meta_handleFrame`).
-/
import AjaDriver.Playback
import AjaDriver.Tcg

namespace AjaDriver

open Function Word Pool Card

variable {TC : Type}

/-! ### Publishing -/

/-- A channel's page is marked when it is published. -/
theorem meta_freeupSlot (x : FreeupIn TC) {c : Card TC} {i : ℤ}
    (ht : (c.stream.last i).type = 0 ∨ (c.stream.last i).type = ajaCapture) :
    (freeupSlot x i c).stream.pagemeta =
      fun p => if p ∈ c.pending i then x.mark (c.stream.pagemeta p) else c.stream.pagemeta p := by
  funext p
  rcases ht with ht | ht
  · rw [pending_zero ht, freeupSlot_idle x ht, if_neg List.not_mem_nil]
    rfl
  · rw [pending_type (m := .capture) ht, freeupSlot_publish x ht]
    show update c.stream.pagemeta (c.stream.last i).page
      (x.mark (c.stream.pagemeta (c.stream.last i).page)) p = _
    by_cases hp : p = (c.stream.last i).page
    · rw [if_pos (List.mem_singleton.mpr hp), hp, update_self]
    · rw [if_neg (mt List.mem_singleton.mp hp), update_of_ne hp]

/-- So are those of both channels. -/
theorem meta_freeup (x : FreeupIn TC) {c : Card TC} (ht : c.Typed .capture)
    (hn : c.lastPages.Nodup) :
    (streamFreeup x c).stream.pagemeta =
      fun p => if p ∈ c.lastPages then x.mark (c.stream.pagemeta p) else c.stream.pagemeta p := by
  have hlast : (freeupSlot x 0 c).stream.last 1 = c.stream.last 1 := by
    rw [last_freeupSlot, update_of_ne (by decide)]
  have h1 := meta_freeupSlot x (c := freeupSlot x 0 c) (i := 1)
    (by rw [hlast]; exact ht 1 (by decide) (by decide))
  have hdisjoint := (List.nodup_append.mp hn).2.2
  unfold streamFreeup
  rw [h1, pending_congr hlast, meta_freeupSlot x (ht 0 le_rfl (by decide))]
  funext p
  unfold lastPages
  beta_reduce
  by_cases h0 : p ∈ c.pending 0
  · have hnot : p ∉ c.pending 1 := fun hp => hdisjoint p h0 p hp rfl
    rw [if_neg hnot, if_pos h0, if_pos (List.mem_append_left _ h0)]
  · by_cases hp : p ∈ c.pending 1
    · rw [if_pos hp, if_neg h0, if_pos (List.mem_append_right _ hp)]
    · rw [if_neg hp, if_neg h0, if_neg fun hmem => (List.mem_append.mp hmem).elim h0 hp]

/-! ### Arming -/

variable [Timecode TC]

/-- The metadata of a page armed for channel `n` at the time `time`, when the
generator shows `tc` and `inc` frames are due. -/
def shotMeta (time : FrameTime TC) (tc : TC) (inc n : ℤ) : StreamMeta TC :=
  { (StreamMeta.zero : StreamMeta TC) with
    timing := time
    chan := n
    inc := inc
    priv := time.priv
    tc := update (StreamMeta.zero : StreamMeta TC).tc .internal tc }

/-- The metadata once the pages `l` are armed for the channels from `n` on. -/
def shotPages (shot : ℤ → StreamMeta TC) : ℤ → List ℤ → (ℤ → StreamMeta TC) → ℤ → StreamMeta TC
  | _, [], f => f
  | n, p :: l, f => shotPages shot (n + 1) l (update f p (shot n))

omit [Timecode TC] in
theorem shotPages_of_not_mem {shot : ℤ → StreamMeta TC} {p : ℤ} :
    ∀ {n : ℤ} (l : List ℤ) (f : ℤ → StreamMeta TC), p ∉ l →
    shotPages shot n l f p = f p
  | _, [], _, _ => rfl
  | n, a :: l, f, h => by
    rw [List.mem_cons, not_or] at h
    rw [shotPages, shotPages_of_not_mem l _ h.2, update_of_ne h.1]

omit [Timecode TC] in
theorem shotPages_get {shot : ℤ → StreamMeta TC} :
    ∀ {n : ℤ} {l : List ℤ} (f : ℤ → StreamMeta TC), l.Nodup → ∀ {j : ℕ} {p : ℤ},
    l[j]? = some p → shotPages shot n l f p = shot (n + j)
  | n, a :: l, f, hn, 0, p, h => by
    obtain rfl : a = p := by simpa using h
    rw [shotPages, shotPages_of_not_mem l _ (List.nodup_cons.mp hn).1, update_self]
    simp
  | n, a :: l, f, hn, j + 1, p, h => by
    rw [shotPages, shotPages_get _ (List.nodup_cons.mp hn).2 (by simpa using h)]
    congr 1
    push_cast
    omega

/-- The loop gives the lowest free pages their metadata. -/
theorem meta_captureLoop (inc : ℤ) (time : FrameTime TC) (tc : TC) :
    ∀ (k : ℕ) (n : ℤ) {c : Card TC}, c.frame.time = time →
    c.tcg.value = tc →
    (captureLoop inc k n c).stream.pagemeta =
      shotPages (shotMeta time tc inc) n ((freePages c.stream.pool.inuse c.stream.pagect).take k)
        c.stream.pagemeta
  | 0, _, _, _, _ => rfl
  | k + 1, n, c, htime, htc => by
    unfold captureLoop
    simp only
    cases hfree : freePages c.stream.pool.inuse c.stream.pagect with
    | nil =>
      obtain ⟨hr, -⟩ := alloc_nil hfree
      have hfull : streamCaptureFrame c n =
          (-ENOMEM, c.withPool (c.stream.pool.streamPageAlloc c.stream.pagect).2) := by
        unfold streamCaptureFrame
        simp only
        rw [hr, if_pos (by decide)]
      rw [hfull, if_pos (show (-ENOMEM : ℤ) < 0 by decide)]
      rfl
    | cons p l =>
      have hp : p ∈ freePages c.stream.pool.inuse c.stream.pagect := by
        rw [hfree]; exact List.mem_cons_self ..
      rw [captureFrame_eq hfree]
      simp only
      rw [if_neg (not_lt.mpr (mem_freePages.mp hp).1.1)]
      set d := ((c.withPool (c.stream.pool.streamPageAlloc c.stream.pagect).2).prset
        (if n ≠ 0 then ch2input else ch1input) p).setLast n ⟨p, ajaCapture⟩
      have hmeta : captureMeta d n inc = shotMeta time tc inc n := by
        rw [← htime, ← htc]
        rfl
      have hinuse : (d.setMeta p (captureMeta d n inc)).stream.pool.inuse =
          (c.stream.pool.streamPageAlloc c.stream.pagect).2.inuse := rfl
      have hpagect : (d.setMeta p (captureMeta d n inc)).stream.pagect = c.stream.pagect :=
        ((steady_withPool c _).trans
          ((steady_prset _ _ _).trans ((steady_setLast _ _ _).trans (steady_setMeta _ _ _)))).pagect
      have hrest : freePages (d.setMeta p (captureMeta d n inc)).stream.pool.inuse
          (d.setMeta p (captureMeta d n inc)).stream.pagect = l := by
        rw [hinuse, hpagect]
        exact (alloc_cons hfree).2.2
      rw [meta_captureLoop inc time tc k (n + 1) (c := d.setMeta p (captureMeta d n inc)) htime htc,
        hrest, hmeta]
      rfl

/-! ### A frame -/

/-- The time of a new frame, as the engines find it: its timecode is still that of
the frame before. -/
def FrameIrq.time (irq : FrameIrq TC) (c : Card TC) : FrameTime TC :=
  { c.frame.time with id := c.frame.id + 1, line := irq.line, timer := irq.timer, tstamp := irq.tstamp }

/-- The metadata a new frame gives the page it arms for channel `n`. -/
def FrameIrq.shot (irq : FrameIrq TC) (c : Card TC) (n : ℤ) : StreamMeta TC :=
  shotMeta (irq.time c) (handleFrame irq c).tcg.value (streamSpeedcount c.stream).1 n

theorem frame_frameCount (irq : FrameIrq TC) (c : Card TC) :
    (frameCount irq c).frame = { id := c.frame.id + 1, time := irq.time c } := by
  unfold frameCount
  simp only
  split_ifs <;> first
    | rfl
    | rw [frame_streamStart]; rfl

/-- The handler publishes the last pages, and marks them. -/
theorem meta_frameStart (irq : FrameIrq TC) {c : Card TC} (ht : c.Typed .capture)
    (hn : c.lastPages.Nodup) :
    (streamFreeup irq.freeupIn (frameCount irq c)).stream.pagemeta =
      fun p => if p ∈ c.lastPages then irq.freeupIn.mark (c.stream.pagemeta p)
        else c.stream.pagemeta p := by
  have hview := view_frameCount irq c
  have hlast : (frameCount irq c).stream.last = c.stream.last := last_of_view hview
  have hmeta : (frameCount irq c).stream.pagemeta = c.stream.pagemeta :=
    congrArg View.pagemeta hview
  rw [meta_freeup irq.freeupIn (fun i h0 h2 => by rw [hlast]; exact ht i h0 h2)
    (by rw [lastPages_congr hlast]; exact hn), lastPages_congr hlast, hmeta]

/-- The engine shoots the pages of its plan, with the generator as it leaves it. -/
theorem meta_capture {a : Card TC} {k : ℕ} (hm : Mode.capture.Of a.stream.flags)
    (hk : a.stream.chans = k) :
    (streamCapture a).stream.pagemeta =
      shotPages (shotMeta a.frame.time (streamCapture a).tcg.value (streamSpeedcount a.stream).1) 0
        (armPlan a.stream.pool.inuse a.stream.pagect k a.stream.pool.fifo).armed
        a.stream.pagemeta := by
  unfold streamCapture armPlan
  simp only
  rw [if_neg (hm.2.mpr rfl), hk]
  by_cases hfull : wrap (a.stream.pagect - a.stream.pool.fifo) ≤ k
  · rw [if_pos hfull, if_pos hfull]
    rfl
  · rw [if_neg hfull, if_neg hfull]
    set g := captureBump (streamSpeedcount a.stream).1
      { a with stream := (streamSpeedcount a.stream).2 } with hg
    have hview : g.view = a.view :=
      view_captureBump { a with stream := (streamSpeedcount a.stream).2 } _
    have htime : g.frame.time = a.frame.time := by
      rw [hg]
      unfold captureBump
      split_ifs <;> rfl
    have hpagemeta : g.stream.pagemeta = a.stream.pagemeta := congrArg View.pagemeta hview
    have hchans : (streamSpeedcount a.stream).2.chans.toNat = k := by
      show a.stream.chans.toNat = k
      rw [hk, Int.toNat_natCast]
    rw [hchans, meta_captureLoop _ _ _ k 0 htime rfl, pool_of_view hview, pagect_of_view hview,
      hpagemeta, (beside_captureLoop ..).tcg]

/-- What a new frame of a capture stream does to the metadata: the last pages are
marked, those armed are shot, the others stay as they are. -/
theorem meta_handleFrame {irq : FrameIrq TC} (hf : irq.field = false) {c : Card TC} {k : ℕ}
    (hm : Mode.capture.Of c.stream.flags) (hk : c.stream.chans = k)
    (hr : wrap c.stream.pool.fifo = c.stream.pool.fifo) (ht : c.Typed .capture)
    (hv : ∀ p ∈ c.lastPages, 0 ≤ p ∧ p < 64) {q : List ℤ} (h : c.stream.pool.Holds q)
    (hn : (q ++ c.lastPages).Nodup) :
    (handleFrame irq c).stream.pagemeta = shotPages (irq.shot c) 0 (c.armStep k).armed fun p =>
      if p ∈ c.lastPages then irq.freeupIn.mark (c.stream.pagemeta p) else c.stream.pagemeta p := by
  obtain ⟨hpub, -⟩ := frameStart_capture irq h hr ht hv hn
  have hmark := meta_frameStart irq ht (List.nodup_append.mp hn).2.1
  set b := streamFreeup irq.freeupIn (frameCount irq c) with hb
  have hstream := stream_handleFrame_first hf c
  have htcg := tcg_handleFrame_first hf c
  unfold armStep
  by_cases hrun : c.stream.running = true
  · rw [if_pos hrun] at hstream htcg
    rw [if_pos hrun]
    set a := frameAudio b with ha
    have haview : a.view = b.view := view_frameAudio b
    have hasteady : Steady c a := hpub.steady.trans (steady_frameAudio b)
    have haflags : Mode.capture.Of a.stream.flags := by rw [hasteady.flags]; exact hm
    have heng : frameEngines b = streamCapture a := by
      show streamCapture (streamPlayback a) = streamCapture a
      rw [streamPlayback_idle haflags]
    rw [heng] at hstream htcg
    have hapool : a.stream.pool = b.stream.pool := pool_of_view haview
    have hameta : a.stream.pagemeta = _ := (congrArg View.pagemeta haview).trans hmark
    have hatime : a.frame.time = irq.time c := by
      rw [ha, (beside_frameAudio b).frame, hb, (beside_freeup _ _).frame, frame_frameCount]
    have hinc : (streamSpeedcount a.stream).1 = (streamSpeedcount c.stream).1 := by
      unfold streamSpeedcount
      rw [hasteady.speed, hasteady.spdct]
    rw [hstream, meta_capture haflags (hasteady.chans.trans hk), hatime, ← htcg, hinc, hapool,
      hpub.inuse, hasteady.pagect, hpub.fifo, hameta]
    rfl
  · rw [if_neg hrun] at hstream
    rw [if_neg hrun, hstream]
    exact hmark

end AjaDriver
