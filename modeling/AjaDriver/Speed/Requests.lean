/-
# A lower request

Two requests for a speed, and the frames that the stream consumes at each. The
limit is applied to the request as an unsigned number: a negative request is
stored as the limit, so it plays faster than a request of a positive speed below
the limit. A lower request never plays faster exactly if the two are not such a
pair, or the limit is beyond what a FIFO of 64 pages can show
(`lower_slower_iff`).
-/
import AjaDriver.Speed

namespace AjaDriver

open Function Word Pool Card

variable {TC : Type} {M : ModParams}

/-- A request for the speed `v`, and the interrupts after it. -/
def atSpeed (v : ℤ) (irqs : List (FrameIrq TC)) : List (Op TC) := .setspeed v :: irqs.map .frame

/-- Every new frame reads the speed stored. -/
theorem speedsRead_frames (v : ℤ) : ∀ irqs : List (FrameIrq TC),
    speedsRead M v (irqs.map .frame) = List.replicate (frameCt irqs) v
  | [] => rfl
  | irq :: irqs => by
    rw [List.map_cons, speedsRead_frame, speedsRead_frames v irqs]
    unfold frameCt
    cases hf : irq.field with
    | true => rw [if_pos rfl, List.countP_cons_of_neg (by simp [hf])]
    | false =>
      rw [if_neg Bool.false_ne_true, List.countP_cons_of_pos (by simp [hf]), List.replicate_succ]

theorem framesDue_atSpeed (c : Card TC) (v : ℤ) (irqs : List (FrameIrq TC)) :
    framesDue M c (atSpeed v irqs) =
      ((c.stream.spdct + frameCt irqs * clampSpeed M v) / ajaSpeedDivisor).toNat := by
  unfold framesDue atSpeed
  rw [speedsRead, speedsRead_frames, List.sum_replicate, nsmul_eq_mul]

variable [Timecode TC]

/-- The pages that a run takes from the FIFO. -/
def Card.consumed (M : ModParams) (c : Card TC) (ops : List (Op TC)) : ℤ :=
  c.stream.pool.fifo - (c.run M ops).stream.pool.fifo

/-- With the frames queued, those due are consumed. -/
theorem consumed_atSpeed (hM : M.SpeedFits) {c : Card TC} {k : ℕ} {q : List ℤ} (h : Ready k c q)
    (hq : Rotating c.chanOf k q) (h0 : 0 ≤ c.stream.spdct) (h1 : c.stream.spdct < ajaSpeedDivisor)
    {v : ℤ} (hv : wrap v = v) {irqs : List (FrameIrq TC)}
    (hlong : framesDue M c (atSpeed v irqs) * k ≤ q.length) :
    c.consumed M (atSpeed v irqs) = (framesDue M c (atSpeed v irqs) * k : ℕ) := by
  have hrange := clampSpeed_range hM hv
  have hops : ∀ o ∈ irqs.map Op.frame ++ [], Override o := by
    intro o ho
    rw [List.append_nil] at ho
    obtain ⟨irq, -, rfl⟩ := List.mem_map.mp ho
    trivial
  have hset : Cadence M k (exec M c (.setspeed v)).2 q :=
    ⟨h.setspeed M v, hq, ⟨h0, h1, hrange.1, hrange.2⟩⟩
  obtain ⟨hend, -⟩ :=
    Cadence.run hM [] (irqs.map Op.frame) hset hops (by rw [List.append_nil]; exact hlong)
  have hlevel : (c.run M (atSpeed v irqs)).stream.pool.fifo =
    ((q.drop (framesDue M c (atSpeed v irqs) * k)).length : ℤ) :=
    hend.ready.level
  unfold Card.consumed
  rw [hlevel, h.level, List.length_drop]
  omega

/-- At the request `a` no more is consumed than at the request `b`, whatever is
left over before and however many interrupts follow, with the frames due queued;
and neither stores more than the limit. -/
def NeverFaster (TC : Type) [Timecode TC] (M : ModParams) (k : ℕ) (a b : ℤ) : Prop :=
  (∀ (c : Card TC) (q : List ℤ) (irqs : List (FrameIrq TC)), Ready k c q → Rotating c.chanOf k q →
      0 ≤ c.stream.spdct → c.stream.spdct < ajaSpeedDivisor →
      framesDue M c (atSpeed a irqs) * k ≤ q.length →
        framesDue M c (atSpeed b irqs) * k ≤ q.length →
        c.consumed M (atSpeed a irqs) ≤ c.consumed M (atSpeed b irqs)) ∧
    ∀ c : Card TC, (exec M c (.setspeed a)).2.stream.speed ≤ M.max_play_speed ∧
      (exec M c (.setspeed b)).2.stream.speed ≤ M.max_play_speed

/-- The frames of `k` pages that a FIFO can hold. -/
def frameRoom (k : ℕ) : ℕ := ajaMaxpages / k

/-- A request that is not stored as the limit while the lower one is, unless the
limit shows no difference within the room of the FIFO. -/
def Ordered (M : ModParams) (k : ℕ) (a b : ℤ) : Prop :=
  0 ≤ a ∨ b < 0 ∨ (M.max_play_speed : ℤ) ≤ b ∨
    (frameRoom k : ℤ) * ajaSpeedDivisor ≤ b ∨ ((frameRoom k : ℤ) + 1) * ajaSpeedDivisor ≤
      M.max_play_speed

omit [Timecode TC] in
/-- A speed of `x` frames or more makes them due at the first frame. -/
theorem le_framesDue {c : Card TC} (h0 : 0 ≤ c.stream.spdct) {v x : ℤ} {irqs : List (FrameIrq TC)}
    (hn : 0 < frameCt irqs) (hx : 0 ≤ x) (hv : x * ajaSpeedDivisor ≤ clampSpeed M v) :
    x ≤ framesDue M c (atSpeed v irqs) := by
  have hD := divisor_pos
  have hpos : 0 ≤ clampSpeed M v := (mul_nonneg hx hD.le).trans hv
  have hmul : 1 * clampSpeed M v ≤ frameCt irqs * clampSpeed M v :=
    mul_le_mul_of_nonneg_right (by exact_mod_cast hn) hpos
  rw [framesDue_atSpeed]
  have hle : x ≤ (c.stream.spdct + frameCt irqs * clampSpeed M v) / ajaSpeedDivisor :=
    Int.le_ediv_of_mul_le hD (by omega)
  omega

omit [Timecode TC] in
theorem framesDue_mono {c : Card TC} {a b : ℤ} (h : clampSpeed M a ≤ clampSpeed M b)
    (irqs : List (FrameIrq TC)) :
    framesDue M c (atSpeed a irqs) ≤ framesDue M c (atSpeed b irqs) := by
  rw [framesDue_atSpeed, framesDue_atSpeed]
  have hmul : (frameCt irqs : ℤ) * clampSpeed M a ≤ frameCt irqs * clampSpeed M b :=
    mul_le_mul_of_nonneg_left h (by omega)
  exact Int.toNat_le_toNat (Int.ediv_le_ediv divisor_pos (by omega))

omit [Timecode TC] in
/-- A pair that is in order consumes in order. -/
theorem Ordered.framesDue_le (hM : M.SpeedFits) {a b : ℤ} (ha : wrap a = a) (hb : wrap b = b)
    (hab : a ≤ b) {k : ℕ} (hk : 0 < k) (ho : Ordered M k a b) {c : Card TC}
    (h0 : 0 ≤ c.stream.spdct) {irqs : List (FrameIrq TC)}
    (hlong : framesDue M c (atSpeed a irqs) * k ≤ ajaMaxpages) :
    framesDue M c (atSpeed a irqs) ≤ framesDue M c (atSpeed b irqs) := by
  by_cases hle : clampSpeed M a ≤ clampSpeed M b
  · exact framesDue_mono hle irqs
  have hsa := clampSpeed_eq hM ha
  have hsb := clampSpeed_eq hM hb
  -- `a` is stored as the limit, and `b` is below it
  have hpair : a < 0 ∧ 0 ≤ b ∧ b < M.max_play_speed ∧ clampSpeed M a = M.max_play_speed ∧
      clampSpeed M b = b := by
    split_ifs at hsa hsb <;> omega
  obtain ⟨hneg, hnonneg, hlt, hsa, hsb⟩ := hpair
  have hroom : framesDue M c (atSpeed a irqs) ≤ frameRoom k := (Nat.le_div_iff_mul_le hk).mpr hlong
  rcases Nat.eq_zero_or_pos (frameCt irqs) with hn | hn
  · rw [framesDue_atSpeed, framesDue_atSpeed, hn, Nat.cast_zero, Int.zero_mul, Int.zero_mul]
  rcases ho with h | h | h | h | h
  · omega
  · omega
  · omega
  · have hfull : (frameRoom k : ℤ) ≤ framesDue M c (atSpeed b irqs) :=
      le_framesDue h0 hn (by omega) (by rwa [hsb])
    omega
  · have hover : (frameRoom k : ℤ) + 1 ≤ framesDue M c (atSpeed a irqs) :=
      le_framesDue h0 hn (by omega) (by rwa [hsa])
    omega

/-- A pair that is out of order consumes out of order with some rest, in one
frame, with the pages queued. -/
theorem exists_faster (hM : M.SpeedFits) {a b : ℤ} (ha : wrap a = a) (hb : wrap b = b) {k : ℕ}
    (hk : 0 < k) (h2 : k ≤ 2) (ho : ¬ Ordered M k a b) : ¬ NeverFaster TC M k a b := by
  unfold Ordered at ho
  push Not at ho
  obtain ⟨hneg, hnonneg, hlt, hroom, hlimit⟩ := ho
  have hsa : clampSpeed M a = M.max_play_speed := by rw [clampSpeed_eq hM ha, if_pos (Or.inl hneg)]
  have hsb : clampSpeed M b = b := by rw [clampSpeed_eq hM hb, if_neg (by omega)]
  obtain ⟨r, hr0, hr1, hfewer, hfits⟩ := Accumulator.exists_fewer divisor_pos hlt hroom hlimit
  let irq : FrameIrq TC := ⟨false, 0, 0, 0, 0, (0, 0), (0, 0), 0, Timecode.zero, none⟩
  have hready : Ready k (Card.filled k ajaMaxpages r : Card TC) _ :=
    ready_filled hk h2 (by decide) r
  have hq : Rotating (Card.filled k ajaMaxpages r : Card TC).chanOf k _ :=
    rotating_filled k ajaMaxpages r
  set c : Card TC := Card.filled k ajaMaxpages r with hc
  set q := (List.range ajaMaxpages).map fun i : ℕ => (i : ℤ) with hqdef
  have hlen : q.length = ajaMaxpages := by rw [hqdef, List.length_map, List.length_range]
  have hspdct : c.stream.spdct = r := rfl
  have hdue : ∀ v : ℤ, framesDue M c (atSpeed v [irq]) =
      (Accumulator.ticks ajaSpeedDivisor r [clampSpeed M v]).toNat := by
    intro v
    rw [framesDue_atSpeed, Accumulator.ticks_singleton]
    rw [hspdct, show frameCt [irq] = 1 from rfl, Nat.cast_one, Int.one_mul]
  have hda := hdue a
  have hdb := hdue b
  rw [hsa] at hda
  rw [hsb] at hdb
  have hnonneg' : 0 ≤ Accumulator.ticks ajaSpeedDivisor r [b] :=
    Accumulator.ticks_nonneg divisor_pos hr0 fun s hs => by rwa [List.mem_singleton.mp hs]
  have hmul : frameRoom k * k ≤ ajaMaxpages := Nat.div_mul_le_self _ _
  have hlongA : framesDue M c (atSpeed a [irq]) * k ≤ ajaMaxpages :=
    (Nat.mul_le_mul_right k (by omega)).trans hmul
  have hlongB : framesDue M c (atSpeed b [irq]) * k ≤ ajaMaxpages :=
    (Nat.mul_le_mul_right k (by omega)).trans hmul
  rintro ⟨hslower, -⟩
  have hle := hslower c _ [irq] hready hq hr0 hr1 (by rwa [hlen]) (by rwa [hlen])
  rw [consumed_atSpeed hM hready hq hr0 hr1 ha (by rwa [hlen]),
    consumed_atSpeed hM hready hq hr0 hr1 hb (by rwa [hlen])] at hle
  have hcount : framesDue M c (atSpeed a [irq]) ≤ framesDue M c (atSpeed b [irq]) :=
    Nat.le_of_mul_le_mul_right (by exact_mod_cast hle) hk
  omega

/-- The lower of two requests never plays faster exactly when they are in order:
neither is below zero with the other at or above it and below the limit, or the
limit is too large for a FIFO to show the difference. -/
theorem lower_slower_iff (TC : Type) [Timecode TC] {M : ModParams} (hM : M.SpeedFits) {k : ℕ}
    (hk : 0 < k) (h2 : k ≤ 2) {a b : ℤ} (ha : wrap a = a) (hb : wrap b = b) (hab : a ≤ b) :
    NeverFaster TC M k a b ↔ Ordered M k a b := by
  constructor
  · intro h
    by_contra ho
    exact exists_faster hM ha hb hk h2 ho h
  · intro ho
    refine ⟨fun c q irqs hready hq h0 h1 hlongA hlongB => ?_,
      fun c => ⟨(clampSpeed_range hM ha).2, (clampSpeed_range hM hb).2⟩⟩
    rw [consumed_atSpeed hM hready hq h0 h1 ha hlongA,
      consumed_atSpeed hM hready hq h0 h1 hb hlongB]
    have hle := ho.framesDue_le hM ha hb hab hk h0 (hlongA.trans hready.holds.length_le)
    exact_mod_cast Nat.mul_le_mul_right k hle

/-- With the default limit, a request of 1x and one of 2x. -/
theorem lower_slower_iff_double : NeverFaster ℕ {} 1 1000000 2000000 :=
  (lower_slower_iff ℕ (by decide) (by decide) (by decide) (by decide) (by decide) (by decide)).mpr
    (Or.inl (by decide))

/-- Three pages queued: the request of -1 plays them all in one frame, the
request of 0 plays none. -/
theorem lower_faster :
    let c := (Card.new false false : Card ℕ).run {}
      [.streamInit 7 ⟨8, ajaPlayback, 1, 0⟩, .pageAlloc, .fifoPush 0, .pageAlloc, .fifoPush 1,
        .pageAlloc, .fifoPush 2, .streamStart .frame]
    (-1 : ℤ) ≤ 0 ∧ framesDue {} c (atSpeed (-1) [blankFrame]) = 3 ∧
      framesDue {} c (atSpeed 0 [blankFrame]) = 0 ∧
      c.consumed {} (atSpeed (-1) [blankFrame]) = 3 ∧ c.consumed {} (atSpeed 0 [blankFrame]) = 0 ∧
      ¬ c.consumed {} (atSpeed (-1) [blankFrame]) ≤ c.consumed {} (atSpeed 0 [blankFrame]) := by
  decide +kernel

end AjaDriver
