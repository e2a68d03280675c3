/-
# Two channels fall back into step

A stream of two channels takes its pages from one FIFO, channel 0's before
channel 1's. A page of another channel than the one expected is lost, with what
was popped for the frame before it. At normal speed the frames that follow each
other are an automaton on the list of the pages queued (`sync`): whatever comes
before a list of complete pairs, at most the first of these is lost, and all the
others are shown in order, each in one interrupt (`resyncs`).
-/
import AjaDriver.Speed.Rest

namespace AjaDriver

open Function Word Pool Card

variable {TC : Type}

/-! ### The automaton -/

section Sync

variable {chanOf : ℤ → ℤ}

/-- The pages that each frame loads, while there are two queued: one that is not
channel 0's is popped alone, one of channel 0 with the page behind it, which is
loaded too if it is channel 1's. -/
def sync (chanOf : ℤ → ℤ) : List ℤ → List (List ℤ)
  | x :: y :: q =>
    if chanOf x ≠ 0 then [] :: sync chanOf (y :: q)
    else if chanOf y ≠ 1 then [x] :: sync chanOf q
    else [x, y] :: sync chanOf q
  | _ => []

/-- The pages of pairs, in the order of the FIFO. -/
def flat (pairs : List (ℤ × ℤ)) : List ℤ := pairs.flatMap fun e => [e.1, e.2]

/-- The pairs are complete: a page of channel 0 and one of channel 1. -/
def Paired (chanOf : ℤ → ℤ) (pairs : List (ℤ × ℤ)) : Prop :=
  ∀ e ∈ pairs, chanOf e.1 = 0 ∧ chanOf e.2 = 1

theorem sync_short {q : List ℤ} (h : q.length < 2) : sync chanOf q = [] := by
  match q, h with
  | [], _ => rfl
  | [_], _ => rfl

/-- Only the channels of the pages queued matter. -/
theorem sync_congr {f g : ℤ → ℤ} : ∀ {q : List ℤ}, (∀ p ∈ q, f p = g p) → sync f q = sync g q
  | [], _ => rfl
  | [_], _ => rfl
  | x :: y :: q, h => by
    have hx := h x (by simp)
    have hy := h y (by simp)
    have htail : sync f (y :: q) = sync g (y :: q) :=
      sync_congr fun p hp => h p (List.mem_cons_of_mem _ hp)
    have hrest : sync f q = sync g q :=
      sync_congr fun p hp => h p (List.mem_cons_of_mem _ (List.mem_cons_of_mem _ hp))
    unfold sync
    rw [hx, hy, htail, hrest]

/-- The automaton is done in fewer frames than there were pages. -/
theorem sync_length_le : ∀ q : List ℤ, (sync chanOf q).length ≤ q.length - 1
  | [] => le_rfl
  | [_] => le_rfl
  | x :: y :: q => by
    have htail := sync_length_le (y :: q)
    have hrest := sync_length_le q
    unfold sync
    split_ifs <;> simp only [List.length_cons] at * <;> omega

/-- Pairs at the head of the FIFO are shown one after the other. -/
theorem sync_flat : ∀ {pairs : List (ℤ × ℤ)}, Paired chanOf pairs →
    sync chanOf (flat pairs) = pairs.map fun e => [e.1, e.2]
  | [], _ => rfl
  | e :: pairs, h => by
    obtain ⟨h0, h1⟩ := h e (List.mem_cons_self ..)
    have ih := sync_flat fun e he => h e (List.mem_cons_of_mem _ he)
    show sync chanOf (e.1 :: e.2 :: flat pairs) = _
    unfold sync
    rw [if_neg (not_not.mpr h0), if_neg (not_not.mpr h1), ih]
    rfl

/-- Behind any pages, all pairs but perhaps the first are shown, at the end and
in order. -/
theorem sync_suffix : ∀ (junk : List ℤ) {pairs : List (ℤ × ℤ)}, Paired chanOf pairs →
    (pairs.tail.map fun e => [e.1, e.2]) <:+ sync chanOf (junk ++ flat pairs)
  | [], pairs, h => by
    rw [List.nil_append, sync_flat h]
    exact (List.tail_suffix pairs).map _
  | [x], [], _ => List.nil_suffix
  | [x], e :: pairs, h => by
    obtain ⟨h0, h1⟩ := h e (List.mem_cons_self ..)
    have hrest : Paired chanOf pairs := fun e he => h e (List.mem_cons_of_mem _ he)
    show (pairs.map fun e => [e.1, e.2]) <:+ sync chanOf (x :: e.1 :: (e.2 :: flat pairs))
    unfold sync
    split_ifs with hx hy
    · -- the first page is lost alone, and the pairs are in step
      have hflat := sync_flat h
      rw [show e.1 :: e.2 :: flat pairs = flat (e :: pairs) from rfl, hflat, List.map_cons]
      exact (List.suffix_cons _ _).trans (List.suffix_cons _ _)
    · -- it takes the first pair's first page with it: the second is lost next
      refine List.IsSuffix.trans ?_ (List.suffix_cons _ _)
      cases pairs with
      | nil => exact List.nil_suffix
      | cons d pairs =>
        have hflat := sync_flat hrest
        show ((d :: pairs).map fun e => [e.1, e.2]) <:+ sync chanOf
          (e.2 :: d.1 :: (d.2 :: flat pairs))
        unfold sync
        rw [if_pos (by rw [h1]; decide),
          show d.1 :: d.2 :: flat pairs = flat (d :: pairs) from rfl, hflat]
        exact List.suffix_cons _ _
    · omega
  | x :: y :: junk, pairs, h => by
    have htail := sync_suffix (y :: junk) h
    have hrest := sync_suffix junk h
    show _ <:+ sync chanOf (x :: y :: (junk ++ flat pairs))
    unfold sync
    split_ifs
    · exact htail.trans (List.suffix_cons _ _)
    · exact hrest.trans (List.suffix_cons _ _)
    · exact hrest.trans (List.suffix_cons _ _)

/-- Two pages loaded in one frame are those of channels 0 and 1, one behind the
other in the FIFO. -/
theorem sync_adjacent : ∀ {q : List ℤ} {l : List ℤ}, l ∈ sync chanOf q → l.length = 2 →
    ∃ x y, l = [x, y] ∧ chanOf x = 0 ∧ chanOf y = 1 ∧ [x, y] <:+: q
  | [], _, h, _ => absurd h List.not_mem_nil
  | [_], _, h, _ => absurd h List.not_mem_nil
  | x :: y :: q, l, h, hl => by
    have htail : ∀ {l}, l ∈ sync chanOf (y :: q) → l.length = 2 →
        ∃ a b, l = [a, b] ∧ chanOf a = 0 ∧ chanOf b = 1 ∧ [a, b] <:+: x :: y :: q := fun h hl => by
      obtain ⟨a, b, hab, ha, hb, hin⟩ := sync_adjacent h hl
      exact ⟨a, b, hab, ha, hb, hin.trans (List.suffix_cons x _).isInfix⟩
    have hrest : ∀ {l}, l ∈ sync chanOf q → l.length = 2 →
        ∃ a b, l = [a, b] ∧ chanOf a = 0 ∧ chanOf b = 1 ∧ [a, b] <:+: x :: y :: q := fun h hl => by
      obtain ⟨a, b, hab, ha, hb, hin⟩ := sync_adjacent h hl
      exact ⟨a, b, hab, ha, hb, hin.trans
        ((List.suffix_cons y q).trans (List.suffix_cons x _)).isInfix⟩
    unfold sync at h
    split_ifs at h with hx hy <;> rcases List.mem_cons.mp h with rfl | h
    · simp at hl
    · exact htail h hl
    · simp at hl
    · exact hrest h hl
    · exact ⟨x, y, rfl, not_not.mp hx, not_not.mp hy, (List.prefix_append [x, y] q).isInfix⟩
    · exact hrest h hl

end Sync

/-! ### The stream -/

/-- The speed is 1x, whatever part of a frame is left over or owed. -/
structure OneX (c : Card TC) : Prop where
  speed : c.stream.speed = 1 * ajaSpeedDivisor
  lt_spdct : -ajaSpeedDivisor < c.stream.spdct
  spdct_lt : c.stream.spdct < ajaSpeedDivisor

theorem OneX.congr {c d : Card TC} (h : OneX c) (hspeed : d.stream.speed = c.stream.speed)
    (hspdct : d.stream.spdct = c.stream.spdct) : OneX d where
  speed := hspeed.trans h.speed
  lt_spdct := by
    rw [hspdct]
    exact h.lt_spdct
  spdct_lt := by
    rw [hspdct]
    exact h.spdct_lt

/-- So it is in every run whose stored speed is 1x. -/
theorem oneX_run [Timecode TC] (M : ModParams) (ops : List (Op TC)) {c : Card TC} (h : Settled c)
    (hspeed : (c.run M ops).stream.speed = 1 * ajaSpeedDivisor) : OneX (c.run M ops) :=
  ⟨hspeed, (settled_run M ops h).1, (settled_run M ops h).2⟩

/-- The second field of a frame leaves the pace alone. -/
theorem OneX.secondField [Timecode TC] {c : Card TC} (h : OneX c) {irq : FrameIrq TC}
    (hf : irq.field = true) :
    OneX (handleFrame irq c) := by
  have hstream := stream_handleFrame_second hf c
  exact h.congr (by rw [hstream]) (by rw [hstream])

/-- At 1x a frame is due at every frame, and what is left over stays; what is
owed is made up by the first of them. -/
theorem OneX.speedcount {c : Card TC} (h : OneX c) :
    (0 ≤ c.stream.spdct → c.due = 1 ∧ (streamSpeedcount c.stream).2.spdct = c.stream.spdct) ∧
      (c.stream.spdct < 0 → c.due = 0 ∧ (streamSpeedcount c.stream).2.spdct =
        c.stream.spdct + ajaSpeedDivisor) := by
  have h0 := h.lt_spdct
  have h1 := h.spdct_lt
  have hD : (ajaSpeedDivisor : ℤ) = 1000000 := rfl
  have hwrap : wrap (c.stream.spdct + 1 * ajaSpeedDivisor) = c.stream.spdct + 1 * ajaSpeedDivisor :=
    wrap_of_range (by omega) (by omega)
  have hdiv : (c.stream.spdct + 1 * ajaSpeedDivisor).tdiv ajaSpeedDivisor =
      (c.stream.spdct + 1 * ajaSpeedDivisor) / ajaSpeedDivisor :=
        Int.tdiv_eq_ediv_of_nonneg (by omega)
  unfold Card.due streamSpeedcount
  simp only
  rw [h.speed, hwrap, hdiv]
  rw [hD] at h0 h1 ⊢
  omega

/-- A frame of two channels at normal speed. -/
theorem playPlan_sync {chanOf : ℤ → ℤ} : ∀ q : List ℤ, playPlan chanOf 2 q.length 1 q =
    match q with
    | x :: y :: _ =>
      if chanOf x ≠ 0 then ⟨1, [], 0⟩ else if chanOf y ≠ 1 then ⟨2, [x], 0⟩ else ⟨2, [x, y], 0⟩
    | _ => ⟨0, [], 1⟩
  | [] => rfl
  | [_] => rfl
  | x :: y :: q => by
    have hrounds : bumpRounds 2 ((x :: y :: q).length : ℤ) ((1 : ℤ) - 1).toNat = 0 :=
      Nat.min_eq_left (Nat.zero_le _)
    unfold playPlan
    simp only
    rw [if_neg (by rw [List.length_cons, List.length_cons]; omega), if_neg one_ne_zero, hrounds,
      if_neg (by omega), if_neg (by decide), Nat.zero_mul, List.drop_zero]
    unfold fit fit fit loadPops
    by_cases hx : chanOf x = 0
    · by_cases hy : chanOf y = 0 + 1
      · simp [hx, hy]
      · have hy' : ¬ chanOf y = 1 := by simpa using hy
        simp [hx, hy']
    · simp [hx]

/-- The frame loads what the automaton says and leaves the rest to it. -/
theorem sync_playPlan {chanOf : ℤ → ℤ} {q : List ℤ} (h : 2 ≤ q.length) :
    (playPlan chanOf 2 q.length 1 q).pops ≤ q.length ∧
      sync chanOf q = (playPlan chanOf 2 q.length 1 q).loaded :: sync chanOf
        (q.drop (playPlan chanOf 2 q.length 1 q).pops) := by
  match q, h with
  | x :: y :: q, _ =>
    rw [playPlan_sync]
    conv => rhs; lhs; unfold sync
    simp only
    split_ifs <;> simp

variable [Timecode TC]

/-- What each interrupt of a run writes to the output registers. -/
def shows : Card TC → List (FrameIrq TC) → List (List (ℤ × ℤ))
  | _, [] => []
  | c, irq :: irqs =>
    (handleFrame irq c).outputs.drop c.outputs.length :: shows (handleFrame irq c) irqs

/-- What a frame shows is what its plan loads. -/
theorem Ready.drop_outputs {c : Card TC} {q : List ℤ} (h : Ready 2 c q) {irq : FrameIrq TC}
    (hf : irq.field = false) :
    (handleFrame irq c).outputs.drop c.outputs.length =
      tag 0 (playPlan c.chanOf 2 q.length c.due q).loaded := by
  rw [(h.playFrame hf).outputs, List.drop_left]

/-- A frame for which nothing is popped: too few pages, or no frame is due. -/
theorem Ready.idleStep {c : Card TC} {q : List ℤ} (h : Ready 2 c q) {irq : FrameIrq TC}
    (hf : irq.field = false) (hidle : q.length < 2 ∨ c.due = 0) :
    Ready 2 (handleFrame irq c) q ∧ (handleFrame irq c).outputs.drop c.outputs.length = [] ∧
      sync (handleFrame irq c).chanOf q = sync c.chanOf q := by
  have hplan : (playPlan c.chanOf 2 q.length c.due q).pops = 0 ∧
      (playPlan c.chanOf 2 q.length c.due q).loaded = [] := by
    unfold playPlan
    split_ifs with hl hdue
    · exact ⟨rfl, rfl⟩
    · exact ⟨rfl, rfl⟩
    · exact absurd hidle (by push Not; exact ⟨by exact_mod_cast not_lt.mp hl, hdue⟩)
  have hready := h.newFrame hf (by rw [hplan.1]; exact Nat.zero_le _)
  have hdrop := h.drop_outputs hf
  have hchan : ∀ p ∈ q, (handleFrame irq c).chanOf p = c.chanOf p :=
    fun p hp => h.chanOf hf (by rw [hplan.1]; exact hp)
  rw [hplan.1] at hready
  rw [hplan.2] at hdrop
  exact ⟨hready, hdrop, sync_congr hchan⟩

/-- A frame of the automaton. -/
theorem Ready.syncStep {c : Card TC} {q : List ℤ} (h : Ready 2 c q) (hdue : c.due = 1)
    (hl : 2 ≤ q.length) {irq : FrameIrq TC} (hf : irq.field = false) :
    ∃ l r, Ready 2 (handleFrame irq c) r ∧
      (handleFrame irq c).outputs.drop c.outputs.length = tag 0 l ∧
      sync c.chanOf q = l :: sync (handleFrame irq c).chanOf r := by
  obtain ⟨hpops, hsync⟩ := @sync_playPlan c.chanOf q hl
  rw [← hdue] at hpops hsync
  refine ⟨_, _, h.newFrame hf hpops, h.drop_outputs hf, ?_⟩
  rw [hsync, sync_congr fun p hp => h.chanOf hf hp]

/-- The second field of a frame shows nothing. -/
theorem shows_second {c : Card TC} {irq : FrameIrq TC} (hf : irq.field = true)
    (irqs : List (FrameIrq TC)) :
    (shows c (irq :: irqs)).filter (fun e => e.length = 2) = (shows (handleFrame irq c) irqs).filter
      (fun e => e.length = 2) ∧
      (handleFrame irq c).chanOf = c.chanOf ∧ frameCt (irq :: irqs) = frameCt irqs := by
  have hout : (handleFrame irq c).outputs = c.outputs :=
    outputs_of_view (view_handleFrame_second hf c)
  refine ⟨?_, chanOf_second hf c, List.countP_cons_of_neg (by simp [hf])⟩
  rw [shows, hout, List.drop_length, List.filter_cons_of_neg (by simp)]

omit [Timecode TC] in
theorem frameCt_first {irq : FrameIrq TC} (hf : irq.field = false) (irqs : List (FrameIrq TC)) :
    frameCt (irq :: irqs) = frameCt irqs + 1 := List.countP_cons_of_pos (by simp [hf])

/-- With too few pages nothing is shown. -/
theorem shows_short : ∀ (irqs : List (FrameIrq TC)) {c : Card TC} {q : List ℤ}, Ready 2 c q →
    q.length < 2 →
    (shows c irqs).filter (fun e => e.length = 2) = []
  | [], _, _, _, _ => rfl
  | irq :: irqs, c, q, h, hl => by
    cases hf : irq.field with
    | true =>
      rw [(shows_second hf irqs).1]
      exact shows_short irqs (h.secondField hf) hl
    | false =>
      obtain ⟨hready, hdrop, -⟩ := h.idleStep hf (Or.inl hl)
      unfold shows
      rw [hdrop, List.filter_cons_of_neg (by simp)]
      exact shows_short irqs hready hl

/-- A run of interrupts with nothing owed shows what the automaton says, as far
as it goes. -/
theorem shows_sync : ∀ (irqs : List (FrameIrq TC)) {c : Card TC} {q : List ℤ}, Ready 2 c q →
    OneX c → 0 ≤ c.stream.spdct →
    (shows c irqs).filter (fun e => e.length = 2) =
      (((sync c.chanOf q).take (frameCt irqs)).map (tag 0)).filter fun e => e.length = 2
  | [], _, _, _, _, _ => rfl
  | irq :: irqs, c, q, h, hs, h0 => by
    cases hf : irq.field with
    | true =>
      have hspdct := congrArg Stream.spdct (stream_handleFrame_second hf c)
      obtain ⟨hshows, hchan, hcount⟩ := shows_second (c := c) hf irqs
      rw [hshows, shows_sync irqs (h.secondField hf) (hs.secondField hf) (by rw [hspdct]; exact h0),
        hchan, hcount]
    | false =>
      obtain ⟨hdue, hrest⟩ := hs.speedcount.1 h0
      by_cases hl : q.length < 2
      · rw [shows_short _ h hl, sync_short hl, List.take_nil]
        rfl
      · obtain ⟨l, r, hready, hdrop, hsync⟩ := h.syncStep hdue (not_lt.mp hl) hf
        have hspdct : (handleFrame irq c).stream.spdct = c.stream.spdct := by
          rw [h.spdct hf, if_neg hl, hrest]
        have hone : OneX (handleFrame irq c) := hs.congr (h.playFrame hf).speed hspdct
        unfold shows
        rw [hdrop, hsync, frameCt_first hf, List.take_succ_cons, List.map_cons, List.filter_cons,
          List.filter_cons, shows_sync irqs hready hone (by rw [hspdct]; exact h0)]

/-- What is owed holds the automaton up for one frame. -/
theorem shows_owed : ∀ (irqs : List (FrameIrq TC)) {c : Card TC}
    {q : List ℤ}, Ready 2 c q → OneX c →
    ∃ m, frameCt irqs ≤ m + 1 ∧ (shows c irqs).filter (fun e => e.length = 2) =
      (((sync c.chanOf q).take m).map (tag 0)).filter fun e => e.length = 2
  | [], _, _, _, _ => ⟨0, Nat.zero_le _, rfl⟩
  | irq :: irqs, c, q, h, hs => by
    by_cases h0 : 0 ≤ c.stream.spdct
    · exact ⟨_, Nat.le_succ _, shows_sync _ h hs h0⟩
    by_cases hl : q.length < 2
    · refine ⟨_, Nat.le_succ _, ?_⟩
      rw [shows_short _ h hl, sync_short hl, List.take_nil]
      rfl
    cases hf : irq.field with
    | true =>
      obtain ⟨hshows, hchan, hcount⟩ := shows_second (c := c) hf irqs
      obtain ⟨m, hm, hrest⟩ := shows_owed irqs (h.secondField hf) (hs.secondField hf)
      exact ⟨m, by rwa [hcount], by rw [hshows, hrest, hchan]⟩
    | false =>
      obtain ⟨hdue, hrest⟩ := hs.speedcount.2 (not_le.mp h0)
      obtain ⟨hready, hdrop, hsync⟩ := h.idleStep hf (Or.inr hdue)
      have hspdct : (handleFrame irq c).stream.spdct = c.stream.spdct + ajaSpeedDivisor := by
        rw [h.spdct hf, if_neg hl, hrest]
      have hlo := hs.lt_spdct
      have hone : OneX (handleFrame irq c) :=
        ⟨(h.playFrame hf).speed.trans hs.speed, by rw [hspdct]; omega, by rw [hspdct]; omega⟩
      refine ⟨frameCt irqs, by rw [frameCt_first hf], ?_⟩
      unfold shows
      rw [hdrop, List.filter_cons_of_neg (by simp),
        shows_sync irqs hready hone (by rw [hspdct]; omega), hsync]

theorem tag_pair (x y : ℤ) : tag 0 [x, y] = [(0, x), (1, y)] := rfl

/-- A stream of two channels at normal speed, with nothing pushed: whatever is
queued before a list of complete pairs, once as many frames came as pages were
queued all the pairs but perhaps the first were shown in order at the end, each in
one interrupt on the two outputs; and any two pages shown in one interrupt were
those of channels 0 and 1 and one behind the other. -/
theorem resyncs {c : Card TC} {junk : List ℤ} {pairs : List (ℤ × ℤ)}
    (h : Ready 2 c (junk ++ flat pairs)) (hs : OneX c) (hpairs : Paired c.chanOf pairs)
    (irqs : List (FrameIrq TC)) :
    ((junk ++ flat pairs).length ≤ frameCt irqs →
        (pairs.tail.map fun e => [(0, e.1), (1, e.2)]) <:+
          (shows c irqs).filter fun e => e.length = 2) ∧
      ∀ e ∈ shows c irqs, e.length = 2 →
        ∃ x y, e = [(0, x), (1, y)] ∧ c.chanOf x = 0 ∧ c.chanOf y = 1 ∧
          [x, y] <:+: junk ++ flat pairs := by
  obtain ⟨m, hm, hshows⟩ := shows_owed irqs h hs
  constructor
  · intro hlong
    have hlen := @sync_length_le c.chanOf (junk ++ flat pairs)
    have htake : (sync c.chanOf (junk ++ flat pairs)).take m = sync c.chanOf (junk ++ flat pairs) :=
      List.take_of_length_le (by omega)
    rw [htake] at hshows
    obtain ⟨before, hbefore⟩ := sync_suffix junk hpairs
    have htail : ((pairs.tail.map fun e => [e.1, e.2]).map (tag 0)).filter (fun e => e.length = 2) =
        pairs.tail.map fun e => [(0, e.1), (1, e.2)] := by
      rw [List.map_map]
      apply List.filter_eq_self.mpr
      intro e he
      obtain ⟨d, -, rfl⟩ := List.mem_map.mp he
      rfl
    rw [hshows, ← hbefore, List.map_append, List.filter_append, htail]
    exact List.suffix_append _ _
  · intro e he hlen
    have hmem : e ∈ (shows c irqs).filter fun e => e.length = 2 :=
      List.mem_filter.mpr ⟨he, by simpa using hlen⟩
    rw [hshows] at hmem
    obtain ⟨l, hl, rfl⟩ := List.mem_map.mp (List.mem_filter.mp hmem).1
    rw [tag_length] at hlen
    obtain ⟨x, y, rfl, hx, hy, hin⟩ := sync_adjacent (List.mem_of_mem_take hl) hlen
    exact ⟨x, y, tag_pair x y, hx, hy, hin⟩

/-- A page of channel 0 without its other takes half of the pair behind it with it;
the pair after that is shown. -/
theorem resyncs_two :
    let d : Card ℕ := Card.filled 2 5 0
    let c : Card ℕ := { d with
      stream := { d.stream with
        speed := 1000000
        pagemeta := fun p =>
          { (StreamMeta.zero : StreamMeta ℕ) with chan := if p = 0 then 0 else (p + 1) % 2 } } }
    [[(0, 3), (1, 4)]] <:+
      (shows c (List.replicate 5 blankFrame)).filter fun e => e.length = 2 := by
  intro d c
  have hfilled : Ready 2 d ([0] ++ flat [(1, 2), (3, 4)]) :=
    @ready_filled ℕ _ 2 5 (by decide) le_rfl (by decide) 0
  have hready : Ready 2 c ([0] ++ flat [(1, 2), (3, 4)]) := hfilled.congr rfl rfl rfl rfl rfl
  have hpairs : Paired c.chanOf [(1, 2), (3, 4)] := by
    intro e he
    rcases List.mem_pair.mp he with rfl | rfl <;> exact ⟨rfl, rfl⟩
  exact (resyncs hready ⟨rfl, by decide, by decide⟩ hpairs (List.replicate 5 blankFrame)).1
    (by decide)

end AjaDriver
