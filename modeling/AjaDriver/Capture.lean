/-
# Capture runs

What a capture stream does with its pages over a whole run. The pages armed
are popped by the client in the order they were armed, and none is lost
(`capture_conserved`). The start of a frame publishes the pages captured into
before the engine knows whether it has others to arm: a page stays out of the
client's reach exactly when its channel is given a new one
(`armed_unreadable`).
-/
import AjaDriver.Playback

namespace AjaDriver

open Function Word Pool Card

variable {TC : Type}

theorem map_snd_tag : ∀ (n : ℤ) (l : List ℤ), (tag n l).map Prod.snd = l
  | _, [] => rfl
  | n, p :: l => by rw [tag, List.map_cons, map_snd_tag (n + 1) l]

/-! ### Conservation and order -/

/-- A page is in use exactly when it has an owner, and the pages popped, those
queued and those waiting at a channel are the pages armed, in order. -/
structure Captures (k : ℕ) (s : Sys TC) (q : List ℤ) : Prop where
  inv : s.Inv .capture k q
  owners : ∀ p, 0 ≤ p → p < 64 → s.card.stream.pool.inuse p = true → p ∈ s.owned q
  order : s.popped ++ (q ++ s.card.lastPages) = s.card.inputs.map Prod.snd

theorem init_captures (c : Card TC) (pid : ℤ) {i : StreamInit} (hm : Mode.capture.Of i.flags) :
    Captures (clampChans i.chans).toNat (Sys.init c pid i) [] := by
  have hs : (Sys.init c pid i).card.stream = _ := stream_streamInit c pid i
  have hinv := Sys.init_inv c pid hm
  have hfree : ∀ p, 0 ≤ p → p < 64 → (Sys.init c pid i).card.stream.pool.inuse p = false := by
    intro p h0 h64
    rw [hs]
    exact inuse_clear c.stream.pool h0 h64
  refine ⟨hinv, fun p h0 h64 hp => ?_, ?_⟩
  · rw [hfree p h0 h64] at hp
    simp at hp
  · -- a page waiting at a channel would be in use
    have hlast : (Sys.init c pid i).card.lastPages = [] := by
      apply List.eq_nil_iff_forall_not_mem.mpr
      intro p hp
      have howned : p ∈ (Sys.init c pid i).owned [] := List.mem_append_right _ hp
      obtain ⟨h0, h64⟩ := hinv.valid p howned
      have hused := hinv.inuse p howned
      rw [hfree p h0 h64] at hused
      simp at hused
    rw [hlast]
    rfl

variable [Timecode TC]

/-- The client of a capture stream: it frees pages it popped, and neither
allocates nor pushes. -/
def CaptureClient (s : Sys TC) : Op TC → Prop
  | .pageAlloc => False
  | .fifoPush _ => False
  | op => Client s op

omit [Timecode TC] in
theorem CaptureClient.client {s : Sys TC} {op : Op TC} (h : CaptureClient s op) : Client s op := by
  cases op with
  | pageAlloc => trivial
  | fifoPush p => exact absurd h id
  | _ => exact h

instance (s : Sys TC) : ∀ op, Decidable (CaptureClient s op)
  | .pageAlloc | .fifoPush _ => instDecidableFalse
  | .streamInit pid i => inferInstanceAs (Decidable (Client s (.streamInit pid i)))
  | .pageFree p => inferInstanceAs (Decidable (p ∈ s.held))
  | .streamStart _ | .streamStop _ | .release _ | .getmeta _ | .setmeta _ _ | .fifoPop | .setspeed _
    | .settrig _
  | .aframeAdd _ | .timecodeSetflags _ | .timecodeClrflags _ | .timecodeSet _ | .frame _ =>
    instDecidableTrue

namespace Captures

omit [Timecode TC] in
/-- A step that moves no page. -/
theorem same {k : ℕ} {s t : Sys TC} {q : List ℤ} (h : Captures k s q) (hi : t.Inv .capture k q)
    (hc : Calm s.card t.card) (hu : t.card.stream.pool.inuse = s.card.stream.pool.inuse)
    (hh : t.held = s.held) (hp : t.popped = s.popped) : Captures k t q := by
  have hlast := lastPages_congr hc.last
  refine ⟨hi, fun p h0 h64 hused => ?_, ?_⟩
  · unfold Sys.owned
    rw [hh, hlast]
    rw [hu] at hused
    exact h.owners p h0 h64 hused
  · rw [hp, hlast, hc.inputs]
    exact h.order

/-- Every step keeps the invariant. -/
theorem step {k : ℕ} {s : Sys TC} {q : List ℤ} (h : Captures k s q) (M : ModParams) {op : Op TC}
    (hop : CaptureClient s op) : ∃ r, Captures k (s.step M op) r := by
  obtain ⟨r, ht, hm⟩ := h.inv.step M hop.client
  refine ⟨r, ?_⟩
  cases hm with
  | quiet _ calm keeps _ held _ popped => exact h.same ht calm keeps.inuse held popped
  | setmeta calm keeps _ held _ popped => exact h.same ht calm keeps.inuse held popped
  | alloc => exact absurd hop id
  | push => exact absurd hop id
  | @free a _ calm mem inuse fifo pagemeta held pushed popped =>
    have hlast := lastPages_congr calm.last
    refine ⟨ht, fun p h0 h64 hused => ?_, ?_⟩
    · rw [inuse, update_apply] at hused
      split_ifs at hused with hpa
      unfold Sys.owned
      rw [held, hlast]
      rcases List.mem_append.mp (h.owners p h0 h64 hused) with hheld | hrest
      · exact List.mem_append_left _ ((List.mem_erase_of_ne hpa).mpr hheld)
      · exact List.mem_append_right _ hrest
    · rw [popped, hlast, calm.inputs]
      exact h.order
  | popNil calm inuse fifo pagemeta held pushed popped => exact h.same ht calm inuse held popped
  | @popCons a rest calm inuse fifo pagemeta held pushed popped =>
    have hlast := lastPages_congr calm.last
    refine ⟨ht, fun p h0 h64 hused => ?_, ?_⟩
    · rw [inuse] at hused
      unfold Sys.owned
      rw [held, hlast]
      have hp := h.owners p h0 h64 hused
      unfold Sys.owned at hp
      simp only [List.cons_append, List.mem_append, List.mem_cons] at hp ⊢
      tauto
    · rw [popped, hlast, calm.inputs, ← h.order, List.append_assoc]
      rfl
  | play mode field frame => exact absurd (h.inv.mode.1.mp (mode.1.mpr rfl)) (by decide)
  | arm mode field frame held pushed popped =>
    refine ⟨ht, fun p h0 h64 hused => ?_, ?_⟩
    · rw [frame.inuse, Bool.or_eq_true, decide_eq_true_iff] at hused
      unfold Sys.owned
      rw [held, frame.lastPages]
      rcases hused with harmed | hused
      · exact List.mem_append_right _ (List.mem_append_right _ harmed)
      · have hp := h.owners p h0 h64 hused
        unfold Sys.owned at hp
        simp only [List.mem_append] at hp ⊢
        tauto
    · rw [popped, frame.lastPages, frame.inputs, List.map_append, map_snd_tag, ← h.order]
      simp only [List.append_assoc]

end Captures

/-- In every capture run the pages in use are, without overlap, those held by
the client, those queued and those being captured into; and the pages popped
so far, in order, followed by those still to be popped, are the pages armed. -/
theorem capture_conserved {M : ModParams} {c : Card TC} {pid : ℤ} {i : StreamInit}
    (hm : Mode.capture.Of i.flags) {t : Sys TC}
    (hr : Runs.Reach (Sys.step M) CaptureClient (Sys.init c pid i) t) :
    ∃ q, Intrusive.Chain (fun i => (t.card.stream.pool.pagealloc i).next)
      t.card.stream.pool.pfirst q ∧
      (t.held ++ (q ++ t.card.lastPages)).Nodup ∧
      (∀ n, 0 ≤ n → n < 2 →
        (t.card.stream.last n).type = 0 ∨ (t.card.stream.last n).type = ajaCapture) ∧
      (∀ p, 0 ≤ p → p < 64 →
        (t.card.stream.pool.inuse p = true ↔ p ∈ t.held ++ (q ++ t.card.lastPages))) ∧
      t.popped ++ (q ++ t.card.lastPages) = t.card.inputs.map Prod.snd := by
  obtain ⟨q, h⟩ : ∃ q, Captures (clampChans i.chans).toNat t q := by
    refine hr.inv (I := fun t : Sys TC => ∃ q, Captures _ t q) ⟨[], init_captures c pid hm⟩ ?_
    rintro s op ⟨q, h⟩ hop
    exact h.step M hop
  exact ⟨q, h.inv.holds.isQueue.chain, h.inv.nodup, h.inv.typed,
    fun p h0 h64 => ⟨h.owners p h0 h64, h.inv.inuse p⟩, h.order⟩

/-- Two pages captured, one of them popped and freed, then a stop with a page
in flight. -/
theorem capture_conserved_three :
    ∃ q, ([.streamStart .frame, .frame blankFrame, .frame blankFrame, .fifoPop, .pageFree 0,
      .frame blankFrame, .streamStop .frame].foldl (Sys.step {})
        (Sys.start ajaCapture 4 1)).popped ++ q = [0, 1, 0] := by
  have hrun : Runs.Along (Sys.step {}) CaptureClient (Sys.start ajaCapture 4 1)
      [.streamStart .frame, .frame blankFrame, .frame blankFrame, .fifoPop, .pageFree 0,
        .frame blankFrame, .streamStop .frame] := by decide +kernel
  obtain ⟨q, -, -, -, -, horder⟩ :=
    capture_conserved (c := Card.new false false) (i := ⟨4, ajaCapture, 1, 0⟩)
    (by decide) (Runs.Reach.of_along _ hrun)
  exact ⟨_, horder.trans (by decide +kernel)⟩

/-! ### The pages captured into -/

/-- The page last written to a channel's input register waits at the channel,
and is neither queued nor held by the client nor free. -/
def Sys.ArmedUnreadable (k : ℕ) (s : Sys TC) : Prop :=
  ∀ n < k, ∀ p, lastOn s.card.inputs (n : ℕ) = some p →
    s.card.stream.last n = ⟨p, ajaCapture⟩ ∧ ¬ s.card.stream.pool.Queued p ∧ p ∉ s.held ∧
      s.card.stream.pool.inuse p = true

/-- At the next new frame every channel that captures is given another page:
with the last pages published, the level leaves more pages than channels, and
there are free pages for the channels up to this one. -/
def RearmsAll (k : ℕ) (s : Sys TC) : Prop :=
  ∀ n < k, ∀ p, lastOn s.card.inputs (n : ℕ) = some p →
    (k : ℤ) <
      wrap (s.card.stream.pagect - wrap (s.card.stream.pool.fifo + s.card.lastPages.length)) ∧
      n < (freePages s.card.stream.pool.inuse s.card.stream.pagect).length

omit [Timecode TC] in
/-- The channels that wait after a frame are those it armed. -/
theorem ArmFrame.lt_armed {c d : Card TC} {q : List ℤ} {e : ArmPlan} (h : ArmFrame c d q e)
    {n : ℕ} (hn : n < 2) {p : ℤ} (hp : d.stream.last n = ⟨p, ajaCapture⟩) : n < e.armed.length := by
  have hpending : ∀ {m : ℕ} {a : ℤ}, d.stream.last m = ⟨a, ajaCapture⟩ → d.pending m = [a] :=
    fun {m a} hm => by
    rw [pending_type (m := .capture) (by rw [hm]; rfl), hm]
  have hlast : d.pending 0 ++ d.pending 1 = e.armed := h.lastPages
  have hlen := congrArg List.length hlast
  rw [List.length_append] at hlen
  obtain rfl | rfl : n = 0 ∨ n = 1 := by omega
  · rw [show d.pending 0 = [p] from hpending (m := 0) hp] at hlen
    rw [List.length_singleton] at hlen
    omega
  · rw [show d.pending 1 = [p] from hpending (m := 1) hp] at hlen hlast
    rw [List.length_singleton] at hlen
    by_contra hle
    -- the only page armed would wait at channel 0 as well
    have hnil : d.pending 0 = [] := List.eq_nil_of_length_eq_zero (by omega)
    rw [hnil, List.nil_append] at hlast
    have hzero := h.last 0 p (by rw [← hlast]; rfl)
    rw [show d.pending 0 = [p] from hpending (m := 0) hzero] at hnil
    simp at hnil

omit [Timecode TC] in
/-- The channels that a new frame gives a page, from the state before it. -/
theorem Card.lt_armed {c : Card TC} {k n : ℕ} (hrun : c.stream.running = true) (hn : n < k) :
    n < (c.armStep k).armed.length ↔
      (k : ℤ) < wrap (c.stream.pagect - wrap (c.stream.pool.fifo + c.lastPages.length)) ∧
        n < (freePages c.stream.pool.inuse c.stream.pagect).length := by
  have he : c.armStep k = armPlan c.stream.pool.inuse c.stream.pagect k
      (wrap (c.stream.pool.fifo + c.lastPages.length)) := if_pos hrun
  rw [he]
  unfold armPlan
  split_ifs with hfull
  · exact ⟨fun h => absurd h (Nat.not_lt_zero n), fun h => absurd hfull (not_le.mpr h.1)⟩
  · rw [List.length_take, lt_min_iff]
    exact ⟨fun h => ⟨not_le.mp hfull, h.2⟩, fun h => ⟨hn, h.2⟩⟩

/-- After every new frame of a running stream, in every run: the pages being
captured into are out of the client's reach exactly when the frame gave every
channel that captured another page. -/
theorem armed_unreadable {M : ModParams} {c : Card TC} {pid : ℤ} {i : StreamInit}
    (hm : Mode.capture.Of i.flags) {s : Sys TC}
    (hr : Runs.Reach (Sys.step M) Client (Sys.init c pid i) s) {irq : FrameIrq TC}
    (hf : irq.field = false) (hrun : s.card.stream.running = true) :
    (s.step M (.frame irq)).ArmedUnreadable (clampChans i.chans).toNat ↔
      RearmsAll (clampChans i.chans).toNat s := by
  obtain ⟨q, hi⟩ := Sys.reach_inv hm (fun _ _ h => h) hr
  set k := (clampChans i.chans).toNat
  have hi' := (hi.arm M hf).1
  have hframe := hi.armFrame M hf
  set t := s.step M (.frame irq)
  have hlt := fun n (hn : n < k) => s.card.lt_armed hrun hn
  set e := s.card.armStep k
  -- a channel captures into the page this frame armed, or into the one before
  unfold Sys.ArmedUnreadable RearmsAll
  rw [hframe.inputs]
  constructor
  · intro h n hn p hp
    rw [← hlt n hn]
    by_contra hle
    have hshown := (lastOn_kept _ (not_lt.mp hle)).trans hp
    have htwo := hi.two
    exact hle (hframe.lt_armed (by omega) (h n hn p hshown).1)
  · intro h n hn p hp
    by_cases hlen : n < e.armed.length
    · rw [lastOn_given _ hlen] at hp
      have hget : e.armed[n]? = some p := (List.getElem?_eq_getElem hlen).trans hp
      have hlast : p ∈ t.card.lastPages := by
        rw [hframe.lastPages]
        exact List.mem_of_getElem? hget
      have hrest : p ∈ q ++ s.card.lastPages ++ t.card.lastPages := List.mem_append_right _ hlast
      have hnd := List.nodup_append.mp hi'.nodup
      refine ⟨hframe.last n p hget, fun hq => ?_, fun hheld => hnd.2.2 p hheld p hrest rfl,
        hi'.inuse p (List.mem_append_right _ hrest)⟩
      exact (List.nodup_append.mp hnd.2.1).2.2 p ((queued_iff hi'.holds p).mp hq) p hlast rfl
    · rw [lastOn_kept _ (not_lt.mp hlen)] at hp
      exact absurd ((hlt n hn).mpr (h n hn p hp)) hlen

/-- A stream of four pages that captured one page arms another one. -/
theorem armed_unreadable_two :
    (([.streamStart .frame, .frame blankFrame].foldl (Sys.step {})
      (Sys.start ajaCapture 4 1)).step {} (.frame blankFrame)).ArmedUnreadable 1 := by
  have hrun : Runs.Along (Sys.step {}) Client (Sys.start ajaCapture 4 1)
      [.streamStart .frame, .frame blankFrame] := by decide +kernel
  have hframe : blankFrame.field = false := rfl
  refine (armed_unreadable (c := Card.new false false) (i := ⟨4, ajaCapture, 1, 0⟩) (by decide)
    (Runs.Reach.of_along _ hrun) hframe (by decide +kernel)).mpr fun n hn _ _ => ?_
  obtain rfl : n = 0 := Nat.lt_one_iff.mp hn
  exact ⟨by decide +kernel, by decide +kernel⟩

/-- A full stream arms nothing: its channel goes on capturing into a page the
client may pop. -/
theorem full_stream_readable :
    ∃ s : Sys ℕ, Runs.Reach (Sys.step {}) CaptureClient (Sys.start ajaCapture 2 1) s ∧
      s.card.stream.running = true ∧ ¬ (s.step {} (.frame blankFrame)).ArmedUnreadable 1 := by
  have hrun : Runs.Along (Sys.step {}) CaptureClient (Sys.start ajaCapture 2 1)
      [.streamStart .frame, .frame blankFrame] := by decide +kernel
  refine ⟨_, Runs.Reach.of_along _ hrun, by decide +kernel, fun h => ?_⟩
  have htype := congrArg LastPage.type (h 0 (by decide) 0 (by decide +kernel)).1
  exact absurd htype (by decide +kernel)

end AjaDriver
