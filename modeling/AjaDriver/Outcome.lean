/-
# What becomes of a frame

A frame of a stream is to reach all of its channels or to be counted as a drop.
The playback engine counts a drop when the FIFO is dry at its entry or during a
bump, but not when a load fails: of two channels one may then have been given its
page (`playback_outcome_iff`). The capture engine counts a drop when the FIFO
leaves no room, but not when the pages that are not queued are in use
(`capture_outcome_iff`).
-/
import AjaDriver.Playback
import AjaDriver.Safety

namespace AjaDriver

open Function Word Pool Card

variable {TC : Type}

/-! ### Playback -/

/-- The frame due finds its pages: once the bump is done the pages of the
channels are the next ones of the FIFO, in order. -/
def FrameReady (chanOf : ℤ → ℤ) (k : ℕ) (due : ℤ) (q : List ℤ) : Prop :=
  k ≤ q.length → due ≠ 0 → (due - 1).toNat * k ≤ q.length →
    InOrder chanOf k (q.drop ((due - 1).toNat * k))

/-- The three outcomes of a plan: all channels, a drop, or a frame repeated. -/
def PlayPlan.Outcome (e : PlayPlan) (k : ℕ) (due : ℤ) : Prop :=
  (e.loaded.length = k ∧ e.drops = 0) ∨ (e.loaded = [] ∧ e.drops = 1) ∨
    (due = 0 ∧ e.loaded = [] ∧ e.drops = 0)

theorem playPlan_outcome {chanOf : ℤ → ℤ} {k : ℕ} (hk : 0 < k) (due : ℤ) (q : List ℤ) :
    (playPlan chanOf k q.length due q).Outcome k due ↔ FrameReady chanOf k due q := by
  unfold playPlan FrameReady
  simp only
  by_cases hl : (q.length : ℤ) < k
  · rw [if_pos hl]
    exact iff_of_true (.inr (.inl ⟨rfl, rfl⟩)) fun hle => absurd hle (by omega)
  rw [if_neg hl]
  by_cases hd : due = 0
  · rw [if_pos hd]
    exact iff_of_true (.inr (.inr ⟨hd, rfl, rfl⟩)) fun _ hne => absurd hd hne
  rw [if_neg hd]
  set b := (due - 1).toNat
  have hrounds := bumpRounds_eq_iff hk (q.length : ℤ) (by omega) b
  have hle : bumpRounds k (q.length : ℤ) b ≤ b := min_le_left ..
  have hdry : ¬ q.length < bumpRounds k (q.length : ℤ) b * k := by
    have hdiv : bumpRounds k (q.length : ℤ) b ≤ q.length / k := by
      have hcast : ((q.length : ℤ) / (k : ℤ)).toNat = q.length / k := by
        rw [← Int.natCast_ediv, Int.toNat_natCast]
      exact (min_le_right ..).trans hcast.le
    have hmul := (Nat.mul_le_mul_right k hdiv).trans (Nat.div_mul_le_self q.length k)
    omega
  rw [if_neg hdry]
  by_cases hshort : bumpRounds k (q.length : ℤ) b < b
  · -- the bump stops before it is done
    rw [if_pos hshort]
    refine iff_of_true (.inr (.inl ⟨rfl, rfl⟩)) fun _ _ hlong => ?_
    exact absurd (hrounds.mpr (by exact_mod_cast hlong)) hshort.ne
  · have hb : bumpRounds k (q.length : ℤ) b = b := by omega
    have hlong : b * k ≤ q.length := by exact_mod_cast hrounds.mp hb
    rw [if_neg hshort, hb]
    show (_ ∨ _ ∨ _) ↔ _
    simp only [and_true]
    rw [fit_full]
    constructor
    · rintro (hin | ⟨-, h01⟩ | ⟨h0, -⟩)
      · exact fun _ _ _ => hin
      · exact absurd h01 (by decide)
      · exact absurd h0 hd
    · exact fun h => .inl (h (by omega) hd hlong)

/-- From `c` to `d` all `k` output registers were written and no drop counted, or
none and a drop, or none at all because no frame is due. -/
def PlayOutcome (c d : Card TC) (k : ℕ) : Prop :=
  (∃ l, l.length = k ∧ d.outputs = c.outputs ++ tag 0 l ∧
    d.stream.drop.count = c.stream.drop.count) ∨
  (d.outputs = c.outputs ∧ d.stream.drop.count = c.stream.drop.count + 1) ∨
  ((streamSpeedcount c.stream).1 = 0 ∧ d.outputs = c.outputs ∧
    d.stream.drop.count = c.stream.drop.count)

/-- Pages given to the channels are as many as the writes. -/
theorem given_length {io : List (ℤ × ℤ)} {l m : List ℤ} (h : io ++ tag 0 l = io ++ tag 0 m) :
    l.length = m.length := by
  have hlen := congrArg List.length (List.append_cancel_left h)
  rwa [tag_length, tag_length] at hlen

theorem given_none {io : List (ℤ × ℤ)} {l : List ℤ} : io ++ tag 0 l = io ↔ l = [] := by
  constructor
  · intro h
    have hlen : l.length = ([] : List ℤ).length := given_length (h.trans (List.append_nil io).symm)
    exact List.eq_nil_of_length_eq_zero hlen
  · rintro rfl
    exact List.append_nil io

theorem playOutcome_iff {c d : Card TC} {k : ℕ} {e : PlayPlan}
    (hout : d.outputs = c.outputs ++ tag 0 e.loaded)
    (hdrops : d.stream.drop.count = c.stream.drop.count + e.drops) :
    PlayOutcome c d k ↔ e.Outcome k (streamSpeedcount c.stream).1 := by
  unfold PlayOutcome PlayPlan.Outcome
  rw [hout, hdrops, given_none, add_eq_left, add_right_inj]
  refine or_congr ⟨?_, ?_⟩ Iff.rfl
  · rintro ⟨l, hlen, hsame, hd⟩
    exact ⟨(given_length hsame).trans hlen, hd⟩
  · rintro ⟨hlen, hd⟩
    exact ⟨e.loaded, hlen, rfl, hd⟩

variable [Timecode TC]

/-- A playback frame writes all of the stream's output registers, or none and
counts a drop, or none because no frame is due, exactly when the frame due finds
its pages. -/
theorem playback_outcome_iff {c : Card TC} {k : ℕ} {q : List ℤ}
    (hf : c.stream.flags &&& ajaPlayback ≠ 0) (hk : c.stream.chans = k) (h0 : 0 < k) (h2 : k ≤ 2)
    (h : c.stream.pool.Holds q) (hl : c.stream.pool.fifo = q.length) :
    PlayOutcome c (streamPlayback c) k ↔ FrameReady c.chanOf k (streamSpeedcount c.stream).1 q := by
  have hlen := h.length_le
  have hr : wrap c.stream.pool.fifo = c.stream.pool.fifo := wrap_of_range (by omega) (by omega)
  have hplayed := streamPlayback_played hf hk h0 h2 h hr
  rw [playOutcome_iff hplayed.loads.outputs hplayed.drops, hl]
  exact playPlan_outcome h0 _ q

/-- Two pages of two channels, pushed in order. -/
theorem playback_outcome_two :
    let s := [Op.setmeta 1 { (StreamMeta.zero : StreamMeta ℕ) with chan := 1 }, .fifoPush 0,
      .fifoPush 1].foldl (Sys.step {}) (Sys.start ajaPlayback 3 2)
    PlayOutcome s.card (streamPlayback s.card) 2 := by
  intro s
  have hinit : (Sys.start ajaPlayback 3 2).Inv .playback 2 [] :=
    Sys.init_inv (Card.new false false) 0 (i := ⟨3, ajaPlayback, 2, 0⟩) (by decide)
  have hmeta := hinit.holds.keeps (keeps_touch _ .pagemeta 1)
  have hholds : s.card.stream.pool.Holds [0, 1] :=
    (hmeta.push (p := 0) (by decide) (by decide) (by simp)).push (p := 1) (by decide)
      (by decide) (by decide)
  have hdue : (streamSpeedcount s.card.stream).1 = 1 := by decide +kernel
  refine (playback_outcome_iff (k := 2) (by decide +kernel) (by decide +kernel) (by decide)
    le_rfl hholds
    (by decide +kernel)).mpr fun _ _ _ j hj => ?_
  rw [hdue]
  obtain rfl | rfl : j = 0 ∨ j = 1 := by omega
  · exact ⟨0, rfl, by decide +kernel⟩
  · exact ⟨1, rfl, by decide +kernel⟩

/-- A second page that is not the second channel's, and a bump at double speed
that empties the FIFO. -/
theorem playback_halves :
    let s := [Op.fifoPush 0, .fifoPush 1].foldl (Sys.step {}) (Sys.start ajaPlayback 3 2)
    let t := [Op.fifoPush 0, .setspeed 2000000].foldl (Sys.step {}) (Sys.start ajaPlayback 3 1)
    ¬ PlayOutcome s.card (streamPlayback s.card) 2 ∧
      ¬ PlayOutcome t.card (streamPlayback t.card) 1 := by
  intro s t
  constructor
  · have hout : (streamPlayback s.card).outputs = s.card.outputs ++ tag 0 [0] := by decide +kernel
    rintro (⟨l, hlen, hall, -⟩ | ⟨hnone, -⟩ | ⟨-, hnone, -⟩)
    · have hone := given_length (hout.symm.trans hall)
      rw [hlen] at hone
      exact absurd hone (by decide)
    · exact absurd (given_none.mp (hout.symm.trans hnone)) (by decide)
    · exact absurd (given_none.mp (hout.symm.trans hnone)) (by decide)
  · have hout : (streamPlayback t.card).outputs = t.card.outputs ++ tag 0 [] := by decide +kernel
    have hdrops : (streamPlayback t.card).stream.drop.count = t.card.stream.drop.count := by
      decide +kernel
    rintro (⟨l, hlen, hall, -⟩ | ⟨-, hdrop⟩ | ⟨hdue, -⟩)
    · have hzero := given_length (hout.symm.trans hall)
      rw [hlen] at hzero
      exact absurd hzero (by decide)
    · omega
    · exact absurd hdue (by decide +kernel)

/-! ### Capture -/

/-- From `c` to `d` a fresh page was armed on all `k` input registers and no drop
counted, or none and a drop. -/
def CaptureOutcome (c d : Card TC) (k : ℕ) : Prop :=
  (∃ l, l.length = k ∧ l.Nodup ∧ (∀ p ∈ l, c.stream.pool.inuse p = false) ∧
    d.inputs = c.inputs ++ tag 0 l ∧
    d.stream.drop.count = c.stream.drop.count) ∨
  (d.inputs = c.inputs ∧ d.stream.drop.count = c.stream.drop.count + 1)

/-- There is a free page for each channel. -/
def PagesFree (c : Card TC) (k : ℕ) : Prop :=
  k ≤ (freePages c.stream.pool.inuse c.stream.pagect).length

/-- The entry test of `aja_stream_capture`: the FIFO leaves no room for a frame. -/
def NoRoom (c : Card TC) (k : ℕ) : Prop := wrap (c.stream.pagect - c.stream.pool.fifo) ≤ k

/-- The card once channel `n` is armed with page `p` and the page has its metadata. -/
def Card.armed (c : Card TC) (n p : ℤ) (m : StreamMeta TC) : Card TC :=
  ((((c.withPool (c.stream.pool.streamPageAlloc c.stream.pagect).2).prset
    (if n ≠ 0 then ch2input else ch1input) p).setLast n ⟨p, ajaCapture⟩).setMeta p m)

omit [Timecode TC] in
theorem steady_armed (c : Card TC) (n p : ℤ) (m : StreamMeta TC) : Steady c (c.armed n p m) :=
  (steady_withPool c _).trans
    ((steady_prset _ _ _).trans ((steady_setLast _ _ _).trans (steady_setMeta _ _ _)))

omit [Timecode TC] in
theorem inputs_armed (c : Card TC) {n : ℤ} (h0 : 0 ≤ n) (h2 : n < 2) (p : ℤ) (m : StreamMeta TC) :
    (c.armed n p m).inputs = c.inputs ++ [(n, p)] := by
  unfold Card.armed
  rw [inputs_setMeta, inputs_setLast, inputs_prset, inputOf_arm h0 h2, inputs_withPool]
  rfl

omit [Timecode TC] in
/-- The other free pages stay free. -/
theorem freePages_armed {c : Card TC} {p : ℤ} {l : List ℤ}
    (hfree : freePages c.stream.pool.inuse c.stream.pagect = p :: l) (n : ℤ) (m : StreamMeta TC) :
    freePages (c.armed n p m).stream.pool.inuse (c.armed n p m).stream.pagect = l := by
  have hinuse : (c.armed n p m).stream.pool.inuse =
      (c.stream.pool.streamPageAlloc c.stream.pagect).2.inuse := by
    show (((c.stream.pool.streamPageAlloc c.stream.pagect).2.touch .last n).touch .pagemeta
      p).inuse = _
    rw [inuse_touch, inuse_touch]
  rw [hinuse, (steady_armed c n p m).pagect]
  exact (alloc_cons hfree).2.2

/-- The loop arms the lowest free pages, as many as there are, whatever the FIFO
holds. -/
theorem captureLoop_inputs (inc : ℤ) : ∀ (k : ℕ) (n : ℤ) (c : Card TC), 0 ≤ n → n + k ≤ 2 →
    (captureLoop inc k n c).inputs = c.inputs ++
      tag n ((freePages c.stream.pool.inuse c.stream.pagect).take k) ∧
      (captureLoop inc k n c).stream.drop.count = c.stream.drop.count
  | 0, n, c, _, _ => ⟨(List.append_nil _).symm, rfl⟩
  | k + 1, n, c, h0, h2 => by
    push_cast at h2
    unfold captureLoop
    simp only
    cases hfree : freePages c.stream.pool.inuse c.stream.pagect with
    | nil =>
      have hfail : streamCaptureFrame c n =
          (-ENOMEM, c.withPool (c.stream.pool.streamPageAlloc c.stream.pagect).2) := by
        unfold streamCaptureFrame
        simp only
        rw [(alloc_nil hfree).1, if_pos (by decide)]
      rw [hfail, if_pos (by simp [ENOMEM])]
      exact ⟨(List.append_nil _).symm, rfl⟩
    | cons p l =>
      have hp : p ∈ freePages c.stream.pool.inuse c.stream.pagect := by
        rw [hfree]; exact List.mem_cons_self ..
      rw [captureFrame_eq hfree, if_neg (not_lt.mpr (mem_freePages.mp hp).1.1)]
      generalize captureMeta (_ : Card TC) n inc = m
      change (captureLoop inc k (n + 1) (c.armed n p m)).inputs = _ ∧
        (captureLoop inc k (n + 1) (c.armed n p m)).stream.drop.count = _
      obtain ⟨hinputs, hdrops⟩ :=
        captureLoop_inputs inc k (n + 1) (c.armed n p m) (by omega) (by omega)
      rw [hinputs, hdrops, freePages_armed hfree, inputs_armed c h0 (by omega),
        (steady_armed c n p m).drops, List.append_assoc]
      exact ⟨rfl, rfl⟩

/-- On any card, a capture frame arms all channels or counts a drop exactly when
the FIFO leaves no room or there are pages free. -/
theorem captureOutcome_iff {c : Card TC} {k : ℕ} (hf : c.stream.flags &&& ajaCapture ≠ 0)
    (hk : c.stream.chans = k) (h0 : 0 < k) (h2 : k ≤ 2) :
    CaptureOutcome c (streamCapture c) k ↔ NoRoom c k ∨ PagesFree c k := by
  unfold streamCapture NoRoom PagesFree CaptureOutcome
  simp only
  rw [if_neg hf, hk]
  by_cases hfull : wrap (c.stream.pagect - c.stream.pool.fifo) ≤ k
  · rw [if_pos hfull]
    exact iff_of_true (.inr ⟨rfl, rfl⟩) (.inl hfull)
  · rw [if_neg hfull]
    set free := freePages c.stream.pool.inuse c.stream.pagect
    have hchans : (streamSpeedcount c.stream).2.chans.toNat = k := by
      show c.stream.chans.toNat = k
      rw [hk, Int.toNat_natCast]
    have hv : (captureBump (streamSpeedcount c.stream).1 c.counted).view = c.view :=
      view_captureBump c.counted _
    have hdrop : (captureBump (streamSpeedcount c.stream).1 c.counted).stream.drop.count =
        c.stream.drop.count := by
      unfold captureBump
      split_ifs <;> rfl
    obtain ⟨hinputs, hdrops⟩ := captureLoop_inputs (streamSpeedcount c.stream).1 k 0
      (captureBump (streamSpeedcount c.stream).1 c.counted) le_rfl (by omega)
    rw [inputs_of_view hv, pool_of_view hv, pagect_of_view hv] at hinputs
    rw [hdrop] at hdrops
    rw [show ({ c with stream := (streamSpeedcount c.stream).2 } : Card TC) = c.counted from rfl,
      hchans, hinputs, hdrops]
    constructor
    · rintro (⟨l, hlen, -, -, hall, -⟩ | ⟨-, hdrop⟩)
      · right
        have hsame := given_length hall
        rw [List.length_take, hlen] at hsame
        exact min_eq_left_iff.mp hsame
      · omega
    · rintro (hroom | henough)
      · exact absurd hroom hfull
      · exact .inl ⟨free.take k, List.length_take_of_le henough,
          (freePages_nodup _ _).sublist (List.take_sublist ..), fun p hp =>
            (mem_freePages.mp (List.mem_of_mem_take hp)).2,
          rfl, rfl⟩

/-- The card as `aja_handle_frame` hands it to `aja_stream_capture`. -/
def Card.atCapture (irq : FrameIrq TC) (c : Card TC) : Card TC :=
  streamPlayback (frameAudio (streamFreeup irq.freeupIn (frameCount irq c)))

/-- The engines of a running stream end with that call. -/
theorem view_handleFrame_running {irq : FrameIrq TC} (hf : irq.field = false) {c : Card TC}
    (hr : c.stream.running = true) :
    (handleFrame irq c).view = (streamCapture (c.atCapture irq)).view := by
  rw [view_handleFrame_first hf, if_pos hr]
  rfl

theorem Card.Sound.atCapture {c : Card TC} (h : c.Sound) (irq : FrameIrq TC) :
    (c.atCapture irq).Sound :=
  (((h.of_view (view_frameCount irq c)).freeup irq.freeupIn).of_view (view_frameAudio _)).playback

/-- In every run, whatever the client does, the engines of a new frame end with the
capture call, and that arms a fresh page on all of the stream's input registers, or
none and counts a drop, exactly when the FIFO leaves no room or there are pages free
for all of them. -/
theorem capture_outcome_iff (M : ModParams) (pcitc p2slave : Bool) (ops : List (Op TC))
    (irq : FrameIrq TC) {k : ℕ} :
    let s := (Card.new pcitc p2slave : Card TC).run M ops
    let c := s.atCapture irq
    (irq.field = false → s.stream.running = true →
      (handleFrame irq s).view = (streamCapture c).view) ∧
      (c.stream.flags &&& ajaCapture ≠ 0 → c.stream.chans = k → 0 < k →
        (CaptureOutcome c (streamCapture c) k ↔ NoRoom c k ∨ PagesFree c k)) := by
  intro s c
  refine ⟨fun hf hr => view_handleFrame_running hf hr, fun hf hk h0 => ?_⟩
  have hsound : c.Sound := (Card.Sound.run M ops (Card.Sound.new pcitc p2slave)).atCapture irq
  have h2 := hsound.chans
  exact captureOutcome_iff hf hk h0 (by omega)

/-- Two frames captured, and a page for the third. -/
theorem capture_outcome_three :
    let c := ((Card.new false false : Card ℕ).run {}
      [.streamInit 0 ⟨4, ajaCapture, 1, 0⟩, .streamStart .frame, .frame blankFrame,
        .frame blankFrame]).atCapture blankFrame
    CaptureOutcome c (streamCapture c) 1 :=
  ((capture_outcome_iff {} false false _ blankFrame).2 (by decide +kernel) (by decide +kernel)
    (by decide)).mpr
    (.inr (by unfold PagesFree; decide +kernel))

/-- Three pages, one queued and two with the client: the FIFO has room for a
frame, no page is free, and the frame is lost without a drop. Of five pages, two
queued and two with the client, one channel of a pair is armed with the last. -/
theorem capture_halves :
    let c := ((Card.new false false : Card ℕ).run {}
      [.streamInit 0 ⟨3, ajaCapture, 1, 0⟩, .streamStart .frame, .frame blankFrame,
        .frame blankFrame, .fifoPop, .frame blankFrame, .fifoPop]).atCapture blankFrame
    let d := ((Card.new false false : Card ℕ).run {}
      [.streamInit 0 ⟨5, ajaCapture, 2, 0⟩, .streamStart .frame, .frame blankFrame,
        .frame blankFrame, .fifoPop, .fifoPop]).atCapture blankFrame
    ¬ CaptureOutcome c (streamCapture c) 1 ∧ ¬ CaptureOutcome d (streamCapture d) 2 := by
  intro c d
  constructor
  · have hin : (streamCapture c).inputs = c.inputs ++ tag 0 [] := by decide +kernel
    have hdrops : (streamCapture c).stream.drop.count = c.stream.drop.count := by decide +kernel
    rintro (⟨l, hlen, -, -, hall, -⟩ | ⟨-, hdrop⟩)
    · have hzero := given_length (hin.symm.trans hall)
      rw [hlen] at hzero
      exact absurd hzero (by decide)
    · omega
  · have hin : (streamCapture d).inputs = d.inputs ++ tag 0 [4] := by decide +kernel
    rintro (⟨l, hlen, -, -, hall, -⟩ | ⟨hnone, -⟩)
    · have hone := given_length (hin.symm.trans hall)
      rw [hlen] at hone
      exact absurd hone (by decide)
    · exact absurd (given_none.mp (hin.symm.trans hnone)) (by decide)

end AjaDriver
