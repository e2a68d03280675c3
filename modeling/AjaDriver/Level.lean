/-
# The FIFO's level

`stream.fifo` is kept beside the list, and a pop counts it down whether it
took a page or not. So the level is the list's length as long as no pop finds
the FIFO empty: the client does not pop an empty FIFO, and no playback frame
runs it dry (`level_agrees`). A frame runs it dry exactly when its speed bump
leaves fewer pages than channels, all of them in order (`playPlan_pops_le`).
-/
import AjaDriver.Moves

namespace AjaDriver

open Function Word Pool Card

variable {TC : Type}

/-- The level is the number of pages reachable from `pfirst` through `next`. -/
def Pool.Agrees (P : Pool) : Prop :=
  ∃ q, Intrusive.Chain (fun i => (P.pagealloc i).next) P.pfirst q ∧ P.fifo = q.length

theorem agrees_iff {P : Pool} {q : List ℤ} (h : P.Holds q) : P.Agrees ↔ P.fifo = q.length := by
  constructor
  · rintro ⟨r, hr, hf⟩
    rw [Intrusive.Chain.unique h.isQueue.chain hr]
    exact hf
  · exact fun hf => ⟨q, h.isQueue.chain, hf⟩

/-! ### Frames that run dry -/

/-- A playback frame of `k` channels, with `due` frames due, pops from the
FIFO when it is empty: the bump leaves fewer pages than channels, and none of
them ends the load by being out of order. -/
def RunsDry (chanOf : ℤ → ℤ) (k : ℕ) (due : ℤ) (q : List ℤ) : Prop :=
  due ≠ 0 ∧ k ≤ q.length ∧ (due - 1).toNat * k ≤ q.length ∧ q.length < ((due - 1).toNat + 1) * k ∧
    fit chanOf k 0 (q.drop ((due - 1).toNat * k)) = q.drop ((due - 1).toNat * k)

instance (chanOf : ℤ → ℤ) (k : ℕ) (due : ℤ) (q : List ℤ) : Decidable (RunsDry chanOf k due q) :=
  inferInstanceAs (Decidable (_ ∧ _ ∧ _ ∧ _ ∧ _))

/-- With the level right, the bump runs as many rounds as the FIFO has. -/
theorem bumpRounds_length (k n b : ℕ) :
    bumpRounds k (n : ℤ) b = min b (n / k) ∧ bumpRounds k (n : ℤ) b * k ≤ n := by
  have hr : bumpRounds k (n : ℤ) b = min b (n / k) := by
    unfold bumpRounds
    rw [← Int.natCast_div, Int.toNat_natCast]
  refine ⟨hr, ?_⟩
  rw [hr]
  calc min b (n / k) * k
    _ ≤ n / k * k := Nat.mul_le_mul_right k (min_le_right ..)
    _ ≤ n := Nat.div_mul_le_self n k

/-- Behind a bump that the FIFO has the pages for, a frame runs dry when the
pages left are fewer than channels and all in order. -/
theorem runsDry_iff {chanOf : ℤ → ℤ} {k : ℕ} {due : ℤ} {q rest : List ℤ} (hd : due ≠ 0)
    (hkq : k ≤ q.length) (hfits : (due - 1).toNat * k ≤ q.length)
    (hrest : rest = q.drop ((due - 1).toNat * k)) :
    RunsDry chanOf k due q ↔ rest.length < k ∧ fit chanOf k 0 rest = rest := by
  have hlen : rest.length = q.length - (due - 1).toNat * k := by rw [hrest, List.length_drop]
  have hsucc : ((due - 1).toNat + 1) * k = (due - 1).toNat * k + k := Nat.succ_mul ..
  unfold RunsDry
  rw [← hrest, hsucc]
  constructor
  · rintro ⟨-, -, -, hlt, hfit⟩
    exact ⟨by omega, hfit⟩
  · rintro ⟨hlt, hfit⟩
    exact ⟨hd, hkq, hfits, by omega, hfit⟩

/-- A load pops more than there is when the pages are fewer than channels and
all in order. -/
theorem loadPops_le {chanOf : ℤ → ℤ} {k : ℕ} {rest : List ℤ} :
    loadPops k (fit chanOf k 0 rest) ≤ rest.length ↔
      ¬ (rest.length < k ∧ fit chanOf k 0 rest = rest) := by
  have hpre := fit_initial chanOf k 0 rest
  have hple := hpre.length_le
  have hfit := fit_length_le chanOf k 0 rest
  unfold loadPops
  by_cases hfull : (fit chanOf k 0 rest).length = k
  · rw [if_pos hfull]
    exact ⟨fun _ h => by omega, fun _ => by omega⟩
  · rw [if_neg hfull]
    constructor
    · rintro h ⟨-, he⟩
      rw [he] at h
      omega
    · intro h
      by_contra hgt
      have he : (fit chanOf k 0 rest).length = rest.length := by omega
      exact h ⟨by omega, hpre.eq_of_length he⟩

/-- With the level right, a playback frame that does not run dry pops no more
than the FIFO has, and one that does pops once more. -/
theorem playPlan_pops_le {chanOf : ℤ → ℤ} {k : ℕ} (hk : 0 < k) {due : ℤ} {q : List ℤ} :
    (playPlan chanOf k q.length due q).pops ≤ q.length ↔ ¬ RunsDry chanOf k due q := by
  unfold playPlan
  simp only
  by_cases hl : (q.length : ℤ) < k
  · rw [if_pos hl]
    exact ⟨fun _ h => by have := h.2.1; omega, fun _ => Nat.zero_le _⟩
  rw [if_neg hl]
  by_cases hd : due = 0
  · rw [if_pos hd]
    exact ⟨fun _ h => h.1 hd, fun _ => Nat.zero_le _⟩
  rw [if_neg hd]
  obtain ⟨hr, hle⟩ := bumpRounds_length k q.length (due - 1).toNat
  rw [if_neg (not_lt.mpr hle)]
  set b := (due - 1).toNat
  by_cases hs : bumpRounds k (q.length : ℤ) b < b
  · -- the bump stops early: the FIFO has not even the pages to bump
    rw [if_pos hs]
    refine ⟨fun _ h => ?_, fun _ => hle⟩
    have hdiv : q.length / k < b := by omega
    have hlt : q.length < b * k := (Nat.div_lt_iff_lt_mul hk).mp hdiv
    exact absurd h.2.2.1 (not_le.mpr hlt)
  · rw [if_neg hs]
    have hrb : bumpRounds k (q.length : ℤ) b = b := by omega
    rw [hrb] at hle ⊢
    set rest := q.drop (b * k) with hrest
    have hlen : rest.length = q.length - b * k := List.length_drop ..
    calc b * k + loadPops k (fit chanOf k 0 rest) ≤ q.length
      _ ↔ loadPops k (fit chanOf k 0 rest) ≤ rest.length := by omega
      _ ↔ ¬ (rest.length < k ∧ fit chanOf k 0 rest = rest) := loadPops_le
      _ ↔ ¬ RunsDry chanOf k due q := not_congr (runsDry_iff hd (by omega) hle hrest).symm

/-- A frame that runs dry loads the few pages its bump leaves, and pops once
more. -/
theorem playPlan_runsDry {chanOf : ℤ → ℤ} {k : ℕ} {due : ℤ} {q : List ℤ}
    (h : RunsDry chanOf k due q) :
    playPlan chanOf k q.length due q = ⟨q.length + 1, q.drop ((due - 1).toNat * k), 0⟩ := by
  obtain ⟨hd, hkq, hfits, hlt, hfit⟩ := h
  set b := (due - 1).toNat with hb
  have hsucc : (b + 1) * k = b * k + k := Nat.succ_mul b k
  have hk : 0 < k := by
    rcases Nat.eq_zero_or_pos k with rfl | hk
    · omega
    · exact hk
  obtain ⟨hr, -⟩ := bumpRounds_length k q.length b
  have hrb : bumpRounds k (q.length : ℤ) b = b := by
    have hdiv : b ≤ q.length / k := (Nat.le_div_iff_mul_le hk).mpr hfits
    omega
  have hpops : b * k + loadPops k (q.drop (b * k)) = q.length + 1 := by
    unfold loadPops
    rw [List.length_drop]
    split_ifs <;> omega
  unfold playPlan
  simp only
  rw [if_neg (by omega), if_neg hd, ← hb, hrb, if_neg (not_lt.mpr hfits), if_neg (lt_irrefl b),
    hfit, hpops]

/-! ### Steps -/

variable [Timecode TC]

/-- No pop of the step finds the FIFO empty: a condition on the state before it. -/
def NoDryPop (k : ℕ) (s : Sys TC) : Op TC → Prop
  | .fifoPop => s.card.stream.pool.pfirst ≠ none
  | .frame irq =>
    Mode.playback.Of s.card.stream.flags → irq.field = false → s.card.stream.running = true →
      ∀ q, s.card.stream.pool.Holds q → ¬ RunsDry s.card.chanOf k s.card.due q
  | _ => True

namespace Sys

omit [Timecode TC] in
/-- A state the invariant describes holds at most 64 pages in its FIFO. -/
theorem Inv.length_le {m : Mode} {k : ℕ} {s : Sys TC} {q : List ℤ} (h : s.Inv m k q) :
    (s.owned q).length ≤ 64 :=
  length_le_pages h.nodup h.valid

omit [Timecode TC] in
/-- A frame of playback leaves a right level right exactly when none of its pops
finds the FIFO empty. -/
theorem Inv.agrees_play {k : ℕ} {s t : Sys TC} {q : List ℤ} (h : s.Inv .playback k q)
    (hl : s.card.stream.pool.fifo = q.length) {irq : FrameIrq TC} (hf : irq.field = false)
    (frame : PlayFrame s.card t.card q (s.card.playStep k q)) :
    t.card.stream.pool.fifo = (q.drop (s.card.playStep k q).pops).length ↔
      NoDryPop k s (.frame irq) := by
  have hlen := h.holds.length_le
  have hdry : NoDryPop k s (.frame irq) ↔
      (s.card.stream.running = true → ¬ RunsDry s.card.chanOf k s.card.due q) := by
    refine ⟨fun hn hr => hn h.mode hf hr q h.holds, fun hn _ _ hr q' hq' => ?_⟩
    rw [← h.holds.unique hq']
    exact hn hr
  have hstep : (s.card.playStep k q).pops ≤ q.length ↔
      (s.card.stream.running = true → ¬ RunsDry s.card.chanOf k s.card.due q) := by
    unfold playStep
    by_cases hr : s.card.stream.running = true
    · rw [if_pos hr, hl, playPlan_pops_le h.pos]
      exact ⟨fun hn _ => hn, fun hn => hn hr⟩
    · rw [if_neg hr]
      exact ⟨fun _ hr' => absurd hr' hr, fun _ => Nat.zero_le _⟩
  have hpops : (s.card.playStep k q).pops ≤ q.length + 1 := by
    unfold playStep
    split_ifs
    · exact playPlan_pops_le_succ ..
    · exact Nat.zero_le _
  rw [hdry, ← hstep, frame.fifo, hl, List.length_drop, wrap_of_range (by omega) (by omega)]
  omega

/-- From a right level, a step leaves the level right exactly when none of its
pops finds the FIFO empty. -/
theorem agrees_step {m : Mode} {k : ℕ} {s : Sys TC} {q : List ℤ} (h : s.Inv m k q)
    (hl : s.card.stream.pool.fifo = q.length) {M : ModParams} {op : Op TC} (hc : Client s op) :
    (s.step M op).card.stream.pool.Agrees ↔ NoDryPop k s op := by
  obtain ⟨r, ht, hm⟩ := h.step M hc
  rw [agrees_iff ht.holds]
  have hlen := h.length_le
  have hlen' := ht.length_le
  unfold owned at hlen hlen'
  simp only [List.length_append] at hlen hlen'
  cases hm with
  | quiet hop calm keeps =>
    rw [keeps.fifo, hl]
    refine ⟨fun _ => ?_, fun _ => rfl⟩
    rcases hop with hop | rfl
    · cases op with
      | frame irq => exact fun _ hf => by rw [show irq.field = true from hop] at hf; simp at hf
      | fifoPop => exact absurd hop id
      | _ => trivial
    · trivial
  | setmeta calm keeps => rw [keeps.fifo, hl]; exact ⟨fun _ => trivial, fun _ => rfl⟩
  | alloc calm free inuse fifo => rw [fifo, hl]; exact ⟨fun _ => trivial, fun _ => rfl⟩
  | free calm mem inuse fifo => rw [fifo, hl]; exact ⟨fun _ => trivial, fun _ => rfl⟩
  | push calm mem inuse fifo =>
    rw [fifo, hl, wrap_of_range (by omega) (by omega), List.length_append]
    exact ⟨fun _ => trivial, fun _ => by simp⟩
  | popNil calm inuse fifo =>
    have hfirst : s.card.stream.pool.pfirst = none := h.holds.isQueue.first_eq
    rw [fifo, hl]
    exact ⟨fun hw => absurd hw (by decide), fun hne => absurd hfirst hne⟩
  | @popCons p _ calm inuse fifo =>
    have hfirst : s.card.stream.pool.pfirst = some p := h.holds.isQueue.first_eq
    rw [List.length_cons] at hl hlen
    rw [fifo, hl, wrap_of_range (by omega) (by omega)]
    refine ⟨fun _ => ?_, fun _ => by push_cast; ring⟩
    show s.card.stream.pool.pfirst ≠ none
    rw [hfirst]
    simp
  | play mode field frame =>
    obtain rfl : m = .playback := h.mode.1.mp (mode.1.mpr rfl)
    exact h.agrees_play hl field frame
  | @arm irq _ mode field frame =>
    rw [frame.fifo, hl, wrap_of_range (by omega) (by omega), List.length_append]
    refine ⟨fun _ hp => ?_, fun _ => by push_cast; ring⟩
    exact absurd (mode.1.mp (hp.1.mpr rfl)) (by decide)

end Sys

/-- In every run in which no pop finds the FIFO empty, the level is the number
of pages in the FIFO, after every step. -/
theorem level_agrees {M : ModParams} {c : Card TC} {pid : ℤ} {i : StreamInit} {m : Mode}
    (hm : m.Of i.flags) {t : Sys TC}
    (hr : Runs.Reach (Sys.step M)
      (fun s op => Client s op ∧ NoDryPop (clampChans i.chans).toNat s op) (Sys.init c pid i) t) :
    t.card.stream.pool.Agrees ∧ 0 ≤ t.card.stream.pool.fifo := by
  have hinv : ∃ q, t.Inv m (clampChans i.chans).toNat q ∧ t.card.stream.pool.fifo = q.length := by
    refine hr.inv (I := fun t : Sys TC => ∃ q, t.Inv m _ q ∧
      t.card.stream.pool.fifo = q.length) ?_ ?_
    · refine ⟨[], Sys.init_inv c pid hm, ?_⟩
      show (streamInit c pid i).stream.pool.fifo = 0
      rw [stream_streamInit]
      rfl
    · rintro s op ⟨q, hi, hl⟩ ⟨hc, hn⟩
      obtain ⟨r, hir, -⟩ := hi.step M hc
      exact ⟨r, hir, (agrees_iff hir.holds).mp ((Sys.agrees_step hi hl hc).mpr hn)⟩
  obtain ⟨q, hi, hl⟩ := hinv
  exact ⟨(agrees_iff hi.holds).mpr hl, by omega⟩

omit [Timecode TC] in
/-- A frame of one channel that is due at most once finds its page or does not look. -/
theorem noDryPop_frame {s : Sys TC} (hdue : s.card.due ≤ 1) (irq : FrameIrq TC) :
    NoDryPop 1 s (.frame irq) := by
  rintro - - - q - ⟨hne, hpage, -, hlast, -⟩
  omega

/-- A page is played in a frame, and another is queued and popped. -/
theorem level_agrees_pop :
    let t := [.pageAlloc, .fifoPush 0, .streamStart .frame, .frame blankFrame, .pageAlloc,
      .fifoPush 1, .fifoPop].foldl (Sys.step {}) (Sys.start ajaPlayback 3 1)
    t.card.stream.pool.Agrees ∧ 0 ≤ t.card.stream.pool.fifo := by
  intro t
  have hrun :
    Runs.Along (Sys.step {}) (fun s op => Client s op ∧ NoDryPop (clampChans 1).toNat s op)
      (Sys.start ajaPlayback 3 1)
      [.pageAlloc, .fifoPush 0, .streamStart .frame, .frame blankFrame, .pageAlloc, .fifoPush 1,
        .fifoPop] := by
    refine ⟨⟨trivial, trivial⟩, ⟨by decide, trivial⟩, ⟨trivial, trivial⟩, ⟨trivial, ?_⟩,
      ⟨trivial, trivial⟩, ⟨by decide +kernel, trivial⟩, ⟨trivial, ?_⟩, trivial⟩
    · exact noDryPop_frame (by decide +kernel) _
    · show _ ≠ none
      decide +kernel
  exact level_agrees (m := .playback) (by decide) (.of_along _ hrun)

/-- A pop of the empty FIFO takes the level below 0. -/
theorem pop_empty_level :
    ∃ t : Sys ℕ, Runs.Reach (Sys.step {}) Client (Sys.start ajaPlayback 3 1) t ∧
      t.card.stream.pool.fifo = -1 ∧ ¬ t.card.stream.pool.Agrees := by
  have hlevel : ((Sys.start ajaPlayback 3 1).step {} .fifoPop).card.stream.pool.fifo = -1 := by
    decide
  refine ⟨(Sys.start ajaPlayback 3 1).step {} .fifoPop, Runs.Reach.refl.tail trivial, hlevel, ?_⟩
  rintro ⟨q, -, hq⟩
  omega

end AjaDriver
