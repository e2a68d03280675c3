/-
# The speed override in playback

`STREAM_SETSPEED` stores a speed in millionths of a frame for each frame
interval; `aja_stream_speedcount` adds it to an accumulator at every new frame
and takes out the whole frames, which `aja_stream_playback` pops from the FIFO,
all but the last unseen. Over any run of interrupts and requests the frames
consumed are the whole frames of the speeds read, and each interrupt shows the
last of those it consumes (`speed_exact`).

A request is compared with the limit as an unsigned number, so a negative one is
stored as the limit: only for requests of one sign does the lower one never play
faster (`lower_slower_iff`).
-/
import AjaDriver.Lib.Accumulator
import AjaDriver.Ready
import AjaDriver.Safety

namespace AjaDriver

open Function Word Pool Card

variable {TC : Type}

/-- A speed limit that the accumulator can hold beside its rest. -/
abbrev ModParams.SpeedFits (M : ModParams) : Prop := M.max_play_speed ≤ 2 ^ 31 - 1000001

/-! ### The stored speed -/

/-- What a request stores: itself, or the limit if it is negative or above it. -/
theorem clampSpeed_eq {M : ModParams} (hM : M.SpeedFits) {v : ℤ} (hv : wrap v = v) :
    clampSpeed M v = if v < 0 ∨ (M.max_play_speed : ℤ) < v then (M.max_play_speed : ℤ) else v := by
  have hlo : -2 ^ 31 ≤ v := by
    rw [← hv]
    exact Int.le_bmod (by decide)
  have hhi : v < 2 ^ 31 := by
    rw [← hv]
    exact wrap_lt v
  have hmax : wrap (M.max_play_speed : ℤ) = M.max_play_speed := wrap_of_range (by omega) (by omega)
  have hover : unsigned v > M.max_play_speed ↔ v < 0 ∨ (M.max_play_speed : ℤ) < v := by
    unfold unsigned
    omega
  unfold clampSpeed
  rw [hmax]
  simp only [hover]

/-- What is stored is no more than the limit. -/
theorem clampSpeed_range {M : ModParams} (hM : M.SpeedFits) {v : ℤ} (hv : wrap v = v) :
    0 ≤ clampSpeed M v ∧ clampSpeed M v ≤ M.max_play_speed := by
  rw [clampSpeed_eq hM hv]
  split_ifs <;> omega

/-! ### The count of frames -/

/-- The accumulator holds less than a frame, and the speed is within the limit. -/
structure Paced (M : ModParams) (c : Card TC) : Prop where
  spdct_nonneg : 0 ≤ c.stream.spdct
  spdct_lt : c.stream.spdct < ajaSpeedDivisor
  speed_nonneg : 0 ≤ c.stream.speed
  speed_le : c.stream.speed ≤ M.max_play_speed

theorem divisor_pos : (0 : ℤ) < ajaSpeedDivisor := by decide

/-- The count takes out the whole frames and leaves the rest. -/
theorem Paced.speedcount {M : ModParams} (hM : M.SpeedFits) {c : Card TC} (h : Paced M c) :
    c.due = Accumulator.ticks ajaSpeedDivisor c.stream.spdct [c.stream.speed] ∧
      (streamSpeedcount c.stream).2.spdct = Accumulator.rest ajaSpeedDivisor c.stream.spdct
        [c.stream.speed] := by
  have h0 := h.spdct_nonneg
  have h1 := h.spdct_lt
  have h2 := h.speed_nonneg
  have h3 := h.speed_le
  have hD : (ajaSpeedDivisor : ℤ) = 1000000 := rfl
  have hwrap : wrap (c.stream.spdct + c.stream.speed) = c.stream.spdct + c.stream.speed :=
    wrap_of_range (by omega) (by omega)
  have hdiv : (c.stream.spdct + c.stream.speed).tdiv ajaSpeedDivisor =
    (c.stream.spdct + c.stream.speed) / ajaSpeedDivisor :=
    Int.tdiv_eq_ediv_of_nonneg (by omega)
  unfold Card.due streamSpeedcount Accumulator.ticks Accumulator.rest
  simp only [List.sum_cons, List.sum_nil, add_zero]
  rw [hwrap, hdiv]
  refine ⟨rfl, ?_⟩
  rw [Int.emod_def, mul_comm]

/-! ### Frames in the FIFO -/

/-- The pages of the FIFO are those of the channels in turn. -/
def Rotating (chanOf : ℤ → ℤ) (k : ℕ) (q : List ℤ) : Prop :=
  ∀ (j : ℕ) (p : ℤ), q[j]? = some p → chanOf p = ((j % k : ℕ) : ℤ)

/-- The pages of frame `n`, one of each channel. -/
def frameOf (k : ℕ) (q : List ℤ) (n : ℕ) : List ℤ := (q.drop (n * k)).take k

/-- The pages shown of `r` frames consumed: those of the last. -/
def shownOf (k : ℕ) (q : List ℤ) (r : ℕ) : List ℤ := if r = 0 then [] else frameOf k q (r - 1)

theorem rotating_filled [Timecode TC] (k n : ℕ) (spdct : ℤ) :
    Rotating (Card.filled k n spdct : Card TC).chanOf k
      ((List.range n).map fun i : ℕ => (i : ℤ)) := by
  intro j p hp
  rw [List.getElem?_map] at hp
  obtain ⟨i, hi, rfl⟩ := Option.map_eq_some_iff.mp hp
  obtain ⟨hj, rfl⟩ := List.getElem?_eq_some_iff.mp hi
  rw [List.getElem_range]
  rfl

theorem Rotating.drop {chanOf : ℤ → ℤ} {k : ℕ} {q : List ℤ} (h : Rotating chanOf k q) (n : ℕ) :
    Rotating chanOf k (q.drop (n * k)) := by
  intro j p hp
  rw [List.getElem?_drop] at hp
  rw [h _ p hp, Nat.mul_add_mod_self_right]

/-- A frame interrupt with `r` frames due that are all there: their pages are
popped, and those of the last are loaded. -/
theorem playPlan_rotating {chanOf : ℤ → ℤ} {k : ℕ} (hk : 0 < k) {q : List ℤ}
    (h : Rotating chanOf k q) {r : ℕ} (hr : r * k ≤ q.length) :
    playPlan chanOf k q.length r q = ⟨r * k, shownOf k q r, if q.length < k then 1 else 0⟩ := by
  cases r with
  | zero =>
    unfold playPlan
    rw [if_pos Nat.cast_zero, Nat.zero_mul]
    simp only [Nat.cast_lt]
    split_ifs <;> rfl
  | succ n =>
    rw [Nat.succ_mul] at hr ⊢
    have horder : InOrder chanOf k (q.drop (n * k)) :=
      inOrder_of_turn (h.drop n) (by rw [List.length_drop]; omega)
    rw [if_neg (by omega)]
    exact playPlan_full hk hr horder

/-! ### Runs -/

/-- The run's operations: requests for a speed, and interrupts. -/
def Override : Op TC → Prop
  | .setspeed v => wrap v = v
  | .frame _ => True
  | _ => False

instance Override.decidable : ∀ op : Op TC, Decidable (Override op)
  | .setspeed v => inferInstanceAs (Decidable (wrap v = v))
  | .frame _ => instDecidableTrue
  | .streamInit _ _ | .streamStart _ | .streamStop _ | .release _ | .getmeta _ | .setmeta _ _
    | .pageAlloc | .pageFree _
  | .fifoPush _ | .fifoPop | .settrig _ | .aframeAdd _ | .timecodeSetflags _ | .timecodeClrflags _
    | .timecodeSet _ =>
    instDecidableFalse

/-- A speed that is asked for is an `int`. -/
def SpeedInt : Op TC → Prop
  | .setspeed v => wrap v = v
  | _ => True

theorem Override.int {op : Op TC} (h : Override op) : SpeedInt op := by
  cases op with
  | setspeed v => exact h
  | frame irq => trivial
  | _ => exact absurd h id

/-- The stored speeds that the new frames read, from a stored speed of `v`. -/
def speedsRead (M : ModParams) : ℤ → List (Op TC) → List ℤ
  | _, [] => []
  | _, .setspeed w :: ops => speedsRead M (clampSpeed M w) ops
  | v, .frame irq :: ops => if irq.field then speedsRead M v ops else v :: speedsRead M v ops
  | v, _ :: ops => speedsRead M v ops

/-- The whole frames of the speeds read: all they add, in millionths. -/
def framesDue (M : ModParams) (c : Card TC) (ops : List (Op TC)) : ℕ :=
  ((c.stream.spdct + (speedsRead M c.stream.speed ops).sum) / ajaSpeedDivisor).toNat

variable {M : ModParams}

theorem speedsRead_frame (v : ℤ) (irq : FrameIrq TC) (ops : List (Op TC)) :
    speedsRead M v (.frame irq :: ops) = if irq.field then speedsRead M v ops
      else v :: speedsRead M v ops := rfl

theorem speedsRead_range (hM : M.SpeedFits) : ∀ (ops : List (Op TC)) {v : ℤ}, 0 ≤ v →
    (∀ op ∈ ops, SpeedInt op) →
    ∀ s ∈ speedsRead M v ops, 0 ≤ s
  | [], _, _, _, s, hs => absurd hs List.not_mem_nil
  | op :: ops, v, hv, hops, s, hs => by
    have hrest : ∀ op ∈ ops, SpeedInt op := fun o ho => hops o (List.mem_cons_of_mem _ ho)
    have hop : SpeedInt op := hops op (List.mem_cons_self ..)
    cases op with
    | setspeed w => exact speedsRead_range hM ops (clampSpeed_range hM hop).1 hrest s hs
    | frame irq =>
      unfold speedsRead at hs
      split_ifs at hs
      · exact speedsRead_range hM ops hv hrest s hs
      · rcases List.mem_cons.mp hs with rfl | hs
        · exact hv
        · exact speedsRead_range hM ops hv hrest s hs
    | _ => exact speedsRead_range hM ops hv hrest s hs

/-- What a run reads begins with what its first part reads. -/
theorem speedsRead_append (more : List (Op TC)) : ∀ (ops : List (Op TC)) (v : ℤ),
    ∃ l, speedsRead M v (ops ++ more) = speedsRead M v ops ++ l
  | [], v => ⟨_, rfl⟩
  | op :: ops, v => by
    obtain ⟨l, hl⟩ := speedsRead_append more ops v
    cases op with
    | setspeed w => exact speedsRead_append more ops (clampSpeed M w)
    | frame irq =>
      refine ⟨l, ?_⟩
      rw [List.cons_append]
      unfold speedsRead
      rw [hl]
      split_ifs <;> rfl
    | _ => exact ⟨l, hl⟩

theorem framesDue_cast (hM : M.SpeedFits) {c : Card TC} (h : Paced M c) {ops : List (Op TC)}
    (hops : ∀ op ∈ ops, SpeedInt op) :
    (framesDue M c ops : ℤ) = Accumulator.ticks ajaSpeedDivisor c.stream.spdct
      (speedsRead M c.stream.speed ops) :=
  Int.toNat_of_nonneg
    (Accumulator.ticks_nonneg divisor_pos h.spdct_nonneg
      (speedsRead_range hM ops h.speed_nonneg hops))

theorem framesDue_nil {c : Card TC} (h : Paced M c) : framesDue M c [] = 0 :=
  congrArg Int.toNat (Accumulator.ticks_nil h.spdct_nonneg h.spdct_lt)

/-- A longer run consumes no fewer frames. -/
theorem framesDue_append_le (hM : M.SpeedFits) {c : Card TC} (h : Paced M c)
    {ops more : List (Op TC)} (hops : ∀ op ∈ ops ++ more, SpeedInt op) :
    framesDue M c ops ≤ framesDue M c (ops ++ more) := by
  obtain ⟨l, hl⟩ := speedsRead_append (M := M) more ops c.stream.speed
  have hrange := speedsRead_range hM (ops ++ more) h.speed_nonneg hops
  rw [hl] at hrange
  have hsum : 0 ≤ l.sum := List.sum_nonneg fun s hs => hrange s (List.mem_append_right _ hs)
  have hle := Accumulator.ticks_mono (a := c.stream.spdct) divisor_pos
    (show (speedsRead M c.stream.speed ops).sum ≤ (speedsRead M c.stream.speed (ops ++ more)).sum by
      rw [hl, List.sum_append]
      omega)
  exact Int.toNat_le_toNat hle

theorem speedsRead_newFrame {irq : FrameIrq TC} (hf : irq.field = false) (v : ℤ)
    (ops : List (Op TC)) :
    speedsRead M v (.frame irq :: ops) = v :: speedsRead M v ops := by
  rw [speedsRead_frame, if_neg (by simp [hf])]

/-- A new frame makes the frames due that it counts. -/
theorem due_eq_framesDue (hM : M.SpeedFits) {c : Card TC} (h : Paced M c) {irq : FrameIrq TC}
    (hf : irq.field = false) :
    c.due = (framesDue M c [.frame irq] : ℕ) := by
  have hone : (framesDue M c [.frame irq] : ℤ) =
      Accumulator.ticks ajaSpeedDivisor c.stream.spdct (speedsRead M c.stream.speed [.frame irq]) :=
    framesDue_cast hM h (List.forall_mem_singleton.mpr trivial)
  rw [speedsRead_newFrame hf] at hone
  exact (h.speedcount hM).1.trans hone.symm

/-- From `c` the operations `ops` lead to `d`: what they read of the speeds and
what follows reads make up the whole, and what is left of a frame is in the
accumulator. -/
structure Passes (M : ModParams) (c d : Card TC) (ops : List (Op TC)) : Prop where
  reads : ∀ more, speedsRead M c.stream.speed (ops ++ more) =
    speedsRead M c.stream.speed ops ++ speedsRead M d.stream.speed more
  spdct : d.stream.spdct = Accumulator.rest ajaSpeedDivisor c.stream.spdct
    (speedsRead M c.stream.speed ops)

theorem Passes.nil {c : Card TC} (h : Paced M c) : Passes M c c [] :=
  ⟨fun _ => rfl, (Accumulator.rest_nil h.spdct_nonneg h.spdct_lt).symm⟩

theorem Passes.trans {c d e : Card TC} {ops more : List (Op TC)} (h : Passes M c d ops)
    (h' : Passes M d e more) :
    Passes M c e (ops ++ more) := by
  refine ⟨fun last => ?_, ?_⟩
  · rw [List.append_assoc, h.reads, h'.reads, h.reads, List.append_assoc]
  · rw [h.reads, Accumulator.rest_append, ← h.spdct]
    exact h'.spdct

/-- What follows makes the others due. -/
theorem Passes.framesDue (hM : M.SpeedFits) {c d : Card TC} {ops more : List (Op TC)}
    (h : Passes M c d ops) (hc : Paced M c) (hd : Paced M d)
    (hops : ∀ o ∈ ops ++ more, SpeedInt o) :
    framesDue M c (ops ++ more) = framesDue M c ops + framesDue M d more := by
  have hall := framesDue_cast hM hc hops
  have hfirst := framesDue_cast hM hc fun o ho => hops o (List.mem_append_left _ ho)
  have hnext := framesDue_cast hM hd fun o ho => hops o (List.mem_append_right _ ho)
  rw [h.reads more, Accumulator.ticks_append divisor_pos.ne', ← h.spdct] at hall
  omega

/-- A new frame that leaves the speed and counts the frames due. -/
theorem Passes.newFrame (hM : M.SpeedFits) {c d : Card TC} (h : Paced M c) {irq : FrameIrq TC}
    (hf : irq.field = false) (hspeed : d.stream.speed = c.stream.speed)
    (hspdct : d.stream.spdct = (streamSpeedcount c.stream).2.spdct) :
    Passes M c d [.frame irq] := by
  refine ⟨fun more => ?_, ?_⟩
  · rw [List.singleton_append, speedsRead_newFrame hf, speedsRead_newFrame hf, hspeed]
    rfl
  · rw [hspdct, (h.speedcount hM).2, speedsRead_newFrame hf]
    rfl

theorem Paced.of_stream {c d : Card TC} (h : Paced M c) (hs : d.stream = c.stream) : Paced M d := by
  constructor <;> rw [hs]
  exacts [h.spdct_nonneg, h.spdct_lt, h.speed_nonneg, h.speed_le]

/-- The second field of a frame makes no frame due. -/
theorem framesDue_secondField {irq : FrameIrq TC} (hf : irq.field = true) {c d : Card TC}
    (hs : d.stream = c.stream) (ops : List (Op TC)) :
    framesDue M c (.frame irq :: ops) = framesDue M d ops := by
  unfold framesDue
  rw [speedsRead_frame, if_pos hf, hs]

/-- A ready stream with its channels in turn, within the limit. -/
structure Cadence (M : ModParams) (k : ℕ) (c : Card TC) (q : List ℤ) : Prop where
  ready : Ready k c q
  rotating : Rotating c.chanOf k q
  paced : Paced M c

variable [Timecode TC]

/-- A step that consumes `r` frames of the FIFO, with `d` the card after it. -/
structure Consumes (M : ModParams) (k : ℕ) (c d : Card TC) (q : List ℤ) (r : ℕ) : Prop where
  cadence : Cadence M k d (q.drop (r * k))
  outputs : d.outputs = c.outputs ++ tag 0 (shownOf k q r)

omit [Timecode TC] in
theorem Consumes.none {k : ℕ} {c d : Card TC} {q : List ℤ} (h : Cadence M k d q)
    (ho : d.outputs = c.outputs) :
    Consumes M k c d q 0 where
  cadence := by
    rw [Nat.zero_mul]
    exact h
  outputs := by
    rw [ho]
    exact (List.append_nil _).symm

/-- A new frame with `r` frames due, all of them there. -/
theorem Cadence.newFrame {k : ℕ} {c : Card TC} {q : List ℤ} (h : Cadence M k c q)
    (hM : M.SpeedFits) {irq : FrameIrq TC} (hf : irq.field = false) {r : ℕ} (hdue : c.due = r)
    (hr : r * k ≤ q.length) :
    Consumes M k c (handleFrame irq c) q r := by
  have hplan := playPlan_rotating h.ready.pos h.rotating hr
  rw [← hdue] at hplan
  have hframe := h.ready.playFrame hf
  have hready := h.ready.newFrame hf (by rw [hplan]; exact hr)
  have hchan : ∀ p ∈ q.drop (r * k), (handleFrame irq c).chanOf p = c.chanOf p := fun p hp =>
    h.ready.chanOf hf (by rw [hplan]; exact hp)
  rw [hplan] at hframe hready
  have hspdct := h.ready.spdct hf
  refine ⟨⟨hready, ?_, ?_⟩, hframe.outputs⟩
  · intro j p hp
    rw [hchan p (List.mem_of_getElem? hp)]
    exact h.rotating.drop r j p hp
  · have hspeed : (handleFrame irq c).stream.speed = c.stream.speed := hframe.speed
    have hrest : 0 ≤ (handleFrame irq c).stream.spdct ∧ (handleFrame irq c).stream.spdct <
        ajaSpeedDivisor := by
      rw [hspdct]
      split_ifs
      · exact ⟨h.paced.spdct_nonneg, h.paced.spdct_lt⟩
      · rw [(h.paced.speedcount hM).2]
        exact ⟨Accumulator.rest_nonneg (by decide) _, Accumulator.rest_lt divisor_pos _⟩
    exact ⟨hrest.1,
      hrest.2, by rw [hspeed]; exact h.paced.speed_nonneg, by rw [hspeed]; exact h.paced.speed_le⟩

/-- The second field of a frame consumes nothing. -/
theorem Cadence.stepSecond {k : ℕ} {c : Card TC} {q : List ℤ} (h : Cadence M k c q)
    {irq : FrameIrq TC} (hf : irq.field = true) : Consumes M k c (handleFrame irq c) q 0 := by
  have hstream := stream_handleFrame_second hf c
  refine .none ⟨h.ready.secondField hf, ?_, h.paced.of_stream hstream⟩
    (outputs_of_view (view_handleFrame_second hf c))
  rw [chanOf_second hf c]
  exact h.rotating

/-- A new frame consumes the frames of the speed it reads, and leaves the rest. -/
theorem Cadence.stepFirst {k : ℕ} {c : Card TC} {q : List ℤ} (h : Cadence M k c q)
    (hM : M.SpeedFits) {irq : FrameIrq TC} (hf : irq.field = false) {ops : List (Op TC)}
    (hops : ∀ o ∈ Op.frame irq :: ops, Override o)
    (hlong : framesDue M c (.frame irq :: ops) * k ≤ q.length) :
    framesDue M c (.frame irq :: ops) = framesDue M c [.frame irq] + framesDue M
      (handleFrame irq c) ops ∧
      Consumes M k c (handleFrame irq c) q (framesDue M c [.frame irq]) := by
  have hints : ∀ o ∈ Op.frame irq :: ops, SpeedInt o := fun o ho => (hops o ho).int
  have hle : framesDue M c [.frame irq] ≤ framesDue M c (.frame irq :: ops) :=
    framesDue_append_le hM h.paced hints
  have hconsumes :=
    h.newFrame hM hf (due_eq_framesDue hM h.paced hf) ((Nat.mul_le_mul_right k hle).trans hlong)
  have hspeed : (handleFrame irq c).stream.speed = c.stream.speed := (h.ready.playFrame hf).speed
  have hspdct := h.ready.spdct hf
  refine ⟨?_, hconsumes⟩
  by_cases hl : q.length < k
  · -- too few pages: nothing is counted, and no frame is due in the whole run
    have hzero : framesDue M c (.frame irq :: ops) = 0 := by
      by_contra h0
      have hk : 1 * k ≤ framesDue M c (.frame irq :: ops) * k := Nat.mul_le_mul_right k (by omega)
      omega
    have hall := framesDue_cast hM h.paced hints
    have hnext :=
      framesDue_cast hM hconsumes.cadence.paced fun o ho => hints o (List.mem_cons_of_mem _ ho)
    have hsub := Accumulator.ticks_le_cons (a := c.stream.spdct) divisor_pos h.paced.speed_nonneg
      (speedsRead M c.stream.speed ops)
    rw [speedsRead_newFrame hf] at hall
    rw [hspeed, hspdct, if_pos hl] at hnext
    omega
  · rw [if_neg hl] at hspdct
    exact (Passes.newFrame hM h.paced hf hspeed hspdct).framesDue hM h.paced
      hconsumes.cadence.paced hints

/-- One operation consumes the frames that it makes due, and the others are due
by the operations that follow. -/
theorem Cadence.step {k : ℕ} {c : Card TC} {q : List ℤ} (h : Cadence M k c q) (hM : M.SpeedFits)
    {op : Op TC} {ops : List (Op TC)} (hops : ∀ o ∈ op :: ops, Override o)
    (hlong : framesDue M c (op :: ops) * k ≤ q.length) :
    framesDue M c (op :: ops) = framesDue M c [op] + framesDue M (exec M c op).2 ops ∧
      Consumes M k c (exec M c op).2 q (framesDue M c [op]) := by
  have hop : Override op := hops op (List.mem_cons_self ..)
  cases op with
  | setspeed v =>
    have hnone : framesDue M c [.setspeed v] = 0 := framesDue_nil h.paced
    have hrange := clampSpeed_range hM hop
    rw [hnone, zero_add]
    exact ⟨rfl, .none ⟨h.ready.setspeed M v, h.rotating,
      ⟨h.paced.spdct_nonneg, h.paced.spdct_lt, hrange.1, hrange.2⟩⟩ rfl⟩
  | frame irq =>
    cases hf : irq.field with
    | true =>
      have hstream := stream_handleFrame_second hf c
      have hnone : framesDue M c [.frame irq] = 0 :=
        (framesDue_secondField hf rfl []).trans (framesDue_nil h.paced)
      rw [hnone, zero_add]
      exact ⟨framesDue_secondField hf hstream ops, h.stepSecond hf⟩
    | false => exact h.stepFirst hM hf hops hlong
  | _ => exact absurd hop id

/-- Over a run, too: what follows it finds the frames that it left. -/
theorem Cadence.run {k : ℕ} (hM : M.SpeedFits) (more : List (Op TC)) :
    ∀ (ops : List (Op TC)) {c : Card TC} {q : List ℤ},
    Cadence M k c q → (∀ o ∈ ops ++ more, Override o) → framesDue M c (ops ++ more) * k ≤ q.length →
    Cadence M k (c.run M ops) (q.drop (framesDue M c ops * k)) ∧
      framesDue M c (ops ++ more) = framesDue M c ops + framesDue M (c.run M ops) more
  | [], c, q, h, _, _ => by
    rw [framesDue_nil h.paced, Nat.zero_mul, zero_add]
    exact ⟨h, rfl⟩
  | op :: ops, c, q, h, hops, hlong => by
    have hle := framesDue_append_le hM h.paced fun o ho => (hops o ho).int
    have hfirst : ∀ o ∈ op :: ops, Override o := fun o ho => hops o (List.mem_append_left more ho)
    rw [List.cons_append] at hops hlong hle ⊢
    obtain ⟨hall, hconsumes⟩ := h.step hM hops hlong
    obtain ⟨hpart, -⟩ := h.step hM hfirst
      ((Nat.mul_le_mul_right k hle).trans hlong)
    rw [hall, Nat.add_mul] at hlong
    obtain ⟨hcadence, hdue⟩ := Cadence.run hM more ops hconsumes.cadence
      (fun o ho => hops o (List.mem_cons_of_mem _ ho)) (by rw [List.length_drop]; omega)
    rw [List.drop_drop, ← Nat.add_mul, ← hpart] at hcadence
    refine ⟨hcadence, ?_⟩
    calc framesDue M c (op :: (ops ++ more))
      _ = framesDue M c [op] + framesDue M (exec M c op).2 (ops ++ more) := hall
      _ = framesDue M c (op :: ops) + framesDue M (c.run M (op :: ops)) more := by
        rw [hdue, hpart, add_assoc]
        rfl

/-- A stream whose speed is changed at will between the interrupts of a run, with
the pages of all the frames due queued in turn: it consumes the whole frames of
what it starts with and of all the speeds read, and what is left is less than a
frame; an interrupt that consumes frames shows the last of them, and one that
consumes none leaves the registers. -/
theorem speed_exact (hM : M.SpeedFits) {c : Card TC} {k : ℕ} {q : List ℤ} (h : Ready k c q)
    (hq : Rotating c.chanOf k q) (hacc : 0 ≤ c.stream.spdct ∧ c.stream.spdct < ajaSpeedDivisor)
    (hspeed : 0 ≤ c.stream.speed ∧ c.stream.speed ≤ M.max_play_speed) {ops : List (Op TC)}
    (hops : ∀ op ∈ ops, Override op) (hlong : framesDue M c ops * k ≤ q.length) :
    ((c.run M ops).stream.pool.Holds (q.drop (framesDue M c ops * k)) ∧
        (c.run M ops).stream.pool.fifo = q.length - (framesDue M c ops * k : ℕ)) ∧
      (0 ≤ (c.run M ops).stream.spdct ∧ (c.run M ops).stream.spdct < ajaSpeedDivisor) ∧
      ∀ (pre : List (Op TC)) (irq : FrameIrq TC) (post : List (Op TC)),
        ops = pre ++ .frame irq :: post → irq.field = false →
        (c.run M (pre ++ [.frame irq])).outputs = (c.run M pre).outputs ++
          tag 0 (shownOf k (q.drop (framesDue M c pre * k))
            (framesDue M c (pre ++ [.frame irq]) - framesDue M c pre)) := by
  have hcadence : Cadence M k c q := ⟨h, hq, ⟨hacc.1, hacc.2, hspeed.1, hspeed.2⟩⟩
  obtain ⟨hend, -⟩ :=
    Cadence.run hM [] ops hcadence (by rwa [List.append_nil]) (by rwa [List.append_nil])
  refine ⟨⟨hend.ready.holds, ?_⟩, ⟨hend.paced.spdct_nonneg, hend.paced.spdct_lt⟩, ?_⟩
  · rw [hend.ready.level, List.length_drop]
    omega
  · rintro pre irq post rfl hf
    have hsub : ∀ o ∈ pre ++ [.frame irq], Override o := fun o ho => hops o (by
      rcases List.mem_append.mp ho with ho | ho
      · exact List.mem_append_left _ ho
      · exact List.mem_append_right _ (List.mem_cons.mpr (Or.inl (List.mem_singleton.mp ho))))
    have hle : framesDue M c (pre ++ [.frame irq]) ≤ framesDue M c (pre ++ .frame irq :: post) := by
      have hall : pre ++ .frame irq :: post = (pre ++ [.frame irq]) ++ post := by simp
      rw [hall] at hops ⊢
      exact framesDue_append_le hM hcadence.paced fun o ho => (hops o ho).int
    have hlong' := (Nat.mul_le_mul_right k hle).trans hlong
    obtain ⟨hpre, hdue⟩ := Cadence.run hM [.frame irq] pre hcadence hsub hlong'
    have hsingle : ∀ o ∈ [Op.frame irq], Override o :=
      fun o ho => hsub o (List.mem_append_right _ ho)
    obtain ⟨-, hconsumes⟩ := hpre.step hM hsingle (by
      rw [hdue, Nat.add_mul] at hlong'
      rw [List.length_drop]
      omega)
    rw [hdue, Nat.add_sub_cancel_left]
    rw [run_concat]
    exact hconsumes.outputs

/-- Half a frame left, then one frame and a half, then a quarter: two frames of
three are consumed by the first interrupt, which shows the second. -/
theorem speed_exact_two :
    let c : Card ℕ := Card.filled 2 6 500000
    (c.run {} [.setspeed 1500000, .frame blankFrame, .setspeed 250000,
      .frame blankFrame]).stream.pool.fifo = 2 ∧
      (c.run {} [.setspeed 1500000, .frame blankFrame]).outputs = [(0, 2), (1, 3)] := by
  intro c
  have hready : Ready 2 c ((List.range 6).map fun i : ℕ => (i : ℤ)) :=
    ready_filled (by decide) le_rfl (by decide) _
  have hexact := speed_exact (M := {}) (by decide) hready (rotating_filled 2 6 _) (by decide)
    (by decide +kernel)
    (show ∀ op ∈ [Op.setspeed 1500000, .frame blankFrame, .setspeed 250000, .frame blankFrame],
      Override op by decide)
    (by decide +kernel)
  refine ⟨hexact.1.2.trans (by decide +kernel), ?_⟩
  exact (hexact.2.2 [.setspeed 1500000] blankFrame
    [.setspeed 250000, .frame blankFrame] rfl rfl).trans (by decide +kernel)

end AjaDriver
