/-
# The playback engine carries out its plan

A playback frame pops, loads and drops what `playPlan` says
(`streamPlayback_played`). Each loop has its own lemma, by induction on its
rounds: what one round pops is added to what the rest of them do
(`Listing.bumpChans`, `Listing.bumpLoop`, `loadLoop_spec`).
-/
import AjaDriver.Plan
import AjaDriver.View

namespace AjaDriver

open Function Word Pool Card

variable {TC : Type}

/-! ### Pops -/

/-- A reading of the FIFO as a list of pages, of which a pop takes the first. -/
structure Pool.Listing (R : Pool → List ℤ → Prop) : Prop where
  nil : ∀ {P : Pool}, R P [] → P.streamFifoPop.1 < 0 ∧ R P.streamFifoPop.2 []
  cons : ∀ {P : Pool} {p : ℤ} {q : List ℤ}, R P (p :: q) → P.streamFifoPop.1 = p ∧ 0 ≤ p ∧
    R P.streamFifoPop.2 q

/-- `P'` is `P`, which was read as `q`, after `pops` pops. -/
structure Drained (R : Pool → List ℤ → Prop) (P P' : Pool) (q : List ℤ) (pops : ℕ) : Prop where
  reads : R P' (q.drop pops)
  fifo : P'.fifo = wrap (P.fifo - pops)

section Drained

variable {R : Pool → List ℤ → Prop}

theorem Drained.zero {P : Pool} {q : List ℤ} (h : R P q) (hr : wrap P.fifo = P.fifo) :
    Drained R P P q 0 :=
  ⟨h, by rw [Nat.cast_zero, sub_zero, hr]⟩

theorem Drained.trans {P P' P'' : Pool} {q : List ℤ} {m n : ℕ} (h : Drained R P P' q m)
    (h' : Drained R P' P'' (q.drop m) n) : Drained R P P'' q (m + n) where
  reads := by have := h'.reads; rwa [List.drop_drop] at this
  fifo := by rw [h'.fifo, h.fifo, wrap_wrap_sub]; push_cast; ring_nf

/-- `n` pops yield a page each if there are enough; else they stop at the
first that finds none. -/
theorem Pool.Listing.bumpChans (hR : Listing R) :
    ∀ (n : ℕ) {P : Pool} {q : List ℤ}, R P q → wrap P.fifo = P.fifo →
    (bumpChans n P).1 = decide (n ≤ q.length) ∧
      Drained R P (bumpChans n P).2 q (min n (q.length + 1))
  | 0, P, q, h, hr =>
    ⟨by simp [AjaDriver.bumpChans], by simpa [AjaDriver.bumpChans] using Drained.zero h hr⟩
  | n + 1, P, [], h, hr => by
    unfold AjaDriver.bumpChans
    rw [if_pos (hR.nil h).1]
    exact ⟨by simp, ⟨by simpa using (hR.nil h).2, by simp⟩⟩
  | n + 1, P, p :: q, h, hr => by
    obtain ⟨hret, hpage, hq⟩ := hR.cons h
    obtain ⟨hd, hp⟩ := Pool.Listing.bumpChans hR n hq (by simp)
    unfold AjaDriver.bumpChans
    rw [if_neg (by rw [hret]; exact not_lt.mpr hpage)]
    refine ⟨by rw [hd]; simp, ?_⟩
    have hone : Drained R P P.streamFifoPop.2 (p :: q) 1 := ⟨hq, by simp⟩
    have := hone.trans hp
    rwa [show 1 + min n (q.length + 1) = min (n + 1) ((p :: q).length + 1) by
      rw [List.length_cons]; omega] at this

/-- The bump runs the rounds its level allows, or until the FIFO is dry. -/
theorem Pool.Listing.bumpLoop (hR : Listing R) {c : ℕ} (hc : 0 < c) :
    ∀ (k : ℕ) {P : Pool} {q : List ℤ}, R P q →
    wrap P.fifo = P.fifo →
    if q.length < bumpRounds c P.fifo k * c then
      (AjaDriver.bumpLoop c k P).1 = .dry ∧
      Drained R P (AjaDriver.bumpLoop c k P).2 q (q.length + 1)
    else
      (AjaDriver.bumpLoop c k P).1 = (if bumpRounds c P.fifo k < k then .short else .done) ∧
        Drained R P (AjaDriver.bumpLoop c k P).2 q (bumpRounds c P.fifo k * c)
  | 0, P, q, h, hr => by simpa [AjaDriver.bumpLoop, bumpRounds] using Drained.zero h hr
  | k + 1, P, q, h, hr => by
    unfold AjaDriver.bumpLoop
    by_cases hl : P.fifo < c
    · rw [if_pos hl, bumpRounds_of_lt hl hc]
      simpa using Drained.zero h hr
    · rw [if_neg hl, Int.toNat_natCast]
      rw [bumpRounds_succ (not_lt.mp hl) hc]
      obtain ⟨hd, hp⟩ := hR.bumpChans c h hr
      by_cases hq : c ≤ q.length
      · -- the round finds its pages: go on with the rest of the FIFO
        rw [show (AjaDriver.bumpChans c P).1 = true from hd.trans (decide_eq_true hq)]
        simp only [↓reduceIte]
        rw [show min c (q.length + 1) = c by omega] at hp
        have hf : (AjaDriver.bumpChans c P).2.fifo = P.fifo - c := by
          have := wrap_lt P.fifo
          rw [hp.fifo, wrap_of_range] <;> omega
        have ih := Pool.Listing.bumpLoop hR hc k hp.reads (by rw [hp.fifo, wrap_wrap])
        rw [hf, List.length_drop] at ih
        have hmul :
            (bumpRounds c (P.fifo - c) k + 1) * c = c + bumpRounds c (P.fifo - c) k * c := by ring
        rw [hmul]
        by_cases hdry : q.length - c < bumpRounds c (P.fifo - c) k * c
        · rw [if_pos hdry] at ih
          rw [if_pos (by omega)]
          refine ⟨ih.1, ?_⟩
          have := hp.trans ih.2
          rwa [show c + (q.length - c + 1) = q.length + 1 by omega] at this
        · rw [if_neg hdry] at ih
          rw [if_neg (by omega)]
          refine ⟨?_, hp.trans ih.2⟩
          rw [ih.1]
          by_cases hs : bumpRounds c (P.fifo - c) k < k
          · rw [if_pos hs, if_pos (by omega)]
          · rw [if_neg hs, if_neg (by omega)]
      · rw [show (AjaDriver.bumpChans c P).1 = false from hd.trans (decide_eq_false hq)]
        simp only [Bool.false_eq_true, ↓reduceIte]
        rw [show min c (q.length + 1) = q.length + 1 by omega] at hp
        have hlt : q.length < (bumpRounds c (P.fifo - c) k + 1) * c := by
          have : c ≤ (bumpRounds c (P.fifo - c) k + 1) * c :=
            Nat.le_mul_of_pos_left c (Nat.succ_pos _)
          omega
        rw [if_pos hlt]
        exact ⟨trivial, hp⟩

end Drained

/-- `P'` is `P`, whose FIFO held `q`, after `pops` pops; those on the empty
FIFO are counted as well. -/
structure Popped (P P' : Pool) (q : List ℤ) (pops : ℕ) : Prop where
  holds : P'.Holds (q.drop pops)
  fifo : P'.fifo = wrap (P.fifo - pops)
  inuse : P'.inuse = P.inuse

theorem Popped.zero {P : Pool} {q : List ℤ} (h : P.Holds q) (hr : wrap P.fifo = P.fifo) :
    Popped P P q 0 :=
  ⟨h, by rw [Nat.cast_zero, sub_zero, hr], rfl⟩

theorem Popped.trans {P P' P'' : Pool} {q : List ℤ} {m n : ℕ} (h : Popped P P' q m)
    (h' : Popped P' P'' (q.drop m) n) : Popped P P'' q (m + n) where
  holds := by have := h'.holds; rwa [List.drop_drop] at this
  fifo := by rw [h'.fifo, h.fifo, wrap_wrap_sub]; push_cast; ring_nf
  inuse := h'.inuse.trans h.inuse

/-- A use of an index changes nothing. -/
theorem Popped.keeps {P P' P'' : Pool} {q : List ℤ} {n : ℕ} (h : Popped P P' q n)
    (hk : P'.Keeps P'') :
    Popped P P'' q n :=
  ⟨h.holds.keeps hk, hk.fifo.trans h.fifo, hk.inuse.trans h.inuse⟩

theorem Popped.pop {P : Pool} {q : List ℤ} (h : P.Holds q) : Popped P P.streamFifoPop.2 q 1 := by
  refine ⟨?_, by simp, P.inuse_pop⟩
  cases q with
  | nil => exact h.pop_nil.2
  | cons p q => exact h.pop_cons.2

theorem inuse_bumpChans : ∀ (n : ℕ) (P : Pool), (bumpChans n P).2.inuse = P.inuse
  | 0, _ => rfl
  | n + 1, P => by
    unfold bumpChans
    split_ifs
    · exact P.inuse_pop
    · exact (inuse_bumpChans n _).trans P.inuse_pop

theorem inuse_bumpLoop (chans : ℤ) : ∀ (k : ℕ) (P : Pool), (bumpLoop chans k P).2.inuse = P.inuse
  | 0, _ => rfl
  | k + 1, P => by
    unfold bumpLoop
    split_ifs
    · rfl
    · exact (inuse_bumpLoop chans k _).trans (inuse_bumpChans _ P)
    · exact inuse_bumpChans _ P

theorem holds_listing : Pool.Listing Holds where
  nil h := ⟨by rw [h.pop_nil.1]; decide, h.pop_nil.2⟩
  cons h := ⟨h.pop_cons.1, (h.valid _ (List.mem_cons_self ..)).1, h.pop_cons.2⟩

/-- The bump runs the rounds its level allows, or until the FIFO is dry. -/
theorem bumpLoop_spec {c : ℕ} (hc : 0 < c) (k : ℕ) {P : Pool} {q : List ℤ} (h : P.Holds q)
    (hr : wrap P.fifo = P.fifo) :
    if q.length < bumpRounds c P.fifo k * c then
      (bumpLoop c k P).1 = .dry ∧ Popped P (bumpLoop c k P).2 q (q.length + 1)
    else
      (bumpLoop c k P).1 = (if bumpRounds c P.fifo k < k then .short else .done) ∧
        Popped P (bumpLoop c k P).2 q (bumpRounds c P.fifo k * c) := by
  have hloop := holds_listing.bumpLoop hc k h hr
  have hpopped : ∀ {n : ℕ}, Drained Holds P (bumpLoop c k P).2 q n →
      Popped P (bumpLoop c k P).2 q n := fun hd =>
    ⟨hd.reads, hd.fifo, inuse_bumpLoop c k P⟩
  split_ifs at hloop ⊢
  · exact ⟨hloop.1, hpopped hloop.2⟩
  · exact ⟨hloop.1, hpopped hloop.2⟩
  · exact ⟨hloop.1, hpopped hloop.2⟩

/-! ### The load -/

/-- `d` is `c`, whose FIFO held `q`, after `pops` pops that gave the channels
from `n` on the pages `l`. -/
structure Loads (c d : Card TC) (q : List ℤ) (n : ℤ) (l : List ℤ) (pops : ℕ) : Prop where
  pool : Popped c.stream.pool d.stream.pool q pops
  last : d.stream.last = record ajaPlayback n l c.stream.last
  outputs : d.outputs = c.outputs ++ tag n l
  inputs : d.inputs = c.inputs
  pagemeta : ∀ p ∉ l, d.stream.pagemeta p = c.stream.pagemeta p

/-- The same, with the setting and the pace left alone. -/
structure Loaded (c d : Card TC) (q : List ℤ) (n : ℤ) (l : List ℤ) (pops : ℕ) : Prop
    extends Loads c d q n l pops where
  steady : Steady c d

/-- The channel number a page's metadata carries. -/
def Card.chanOf (c : Card TC) (p : ℤ) : ℤ := (c.stream.pagemeta p).chan

theorem outputOf_load {n : ℤ} (h0 : 0 ≤ n) (h2 : n < 2) (p : ℤ) :
    outputOf (.prset (if n ≠ 0 then ch2output else ch1output) p : Io TC) = some (n, p) := by
  obtain rfl | rfl : n = 0 ∨ n = 1 := by omega
  · rfl
  · rfl

theorem inputOf_load (n p : ℤ) :
    inputOf (.prset (if n ≠ 0 then ch2output else ch1output) p : Io TC) = none := by
  split_ifs <;> rfl

/-- A channel finds no page, or one of another channel: one pop is spent. -/
theorem playbackFrame_fail {c : Card TC} {q : List ℤ} (h : c.stream.pool.Holds q) {n : ℤ}
    (hn : ∀ p, q.head? = some p → c.chanOf p ≠ n) :
    (streamPlaybackFrame c n).1 < 0 ∧ Loaded c (streamPlaybackFrame c n).2 q n [] 1 := by
  have hp := Popped.pop h
  unfold streamPlaybackFrame
  simp only
  cases q with
  | nil =>
    rw [h.pop_nil.1, if_pos (by decide)]
    exact ⟨by simp [ENOMEM], ⟨hp, rfl, by simp [tag], by simp, fun _ _ => rfl⟩, steady_withPool c _⟩
  | cons p q =>
    have hv := (h.valid p (List.mem_cons_self ..)).1
    have hn' :
        (((c.withPool c.stream.pool.streamFifoPop.2).touch .pagemeta p).stream.pagemeta p).chan ≠
          n := hn p rfl
    rw [h.pop_cons.1, if_neg (not_lt.mpr hv), if_pos hn']
    exact ⟨by simp [EINVAL],
      ⟨hp.keeps (keeps_touch _ _ _), rfl, by simp [tag], by simp, fun _ _ => rfl⟩,
      (steady_withPool c _).trans (steady_touch _ _ _)⟩

/-- The card when channel `n` takes page `p`. -/
theorem playbackFrame_eq {c : Card TC} {p : ℤ} {q : List ℤ} (h : c.stream.pool.Holds (p :: q))
    {n : ℤ} (hn : c.chanOf p = n) :
    streamPlaybackFrame c n =
      (p, (((c.withPool c.stream.pool.streamFifoPop.2).touch .pagemeta p).prset
        (if n ≠ 0 then ch2output else ch1output) p).setLast n ⟨p, ajaPlayback⟩) := by
  have hv := (h.valid p (List.mem_cons_self ..)).1
  have hn' :
    ¬ (((c.withPool c.stream.pool.streamFifoPop.2).touch .pagemeta p).stream.pagemeta p).chan ≠ n :=
    not_not.mpr hn
  unfold streamPlaybackFrame
  simp only
  rw [h.pop_cons.1, if_neg (not_lt.mpr hv), if_neg hn']

/-- A channel takes the oldest page, which is its own. -/
theorem playbackFrame_load {c : Card TC} {p : ℤ} {q : List ℤ} (h : c.stream.pool.Holds (p :: q))
    {n : ℤ} (h0 : 0 ≤ n) (h2 : n < 2) (hn : c.chanOf p = n) :
    (streamPlaybackFrame c n).1 = p ∧ Loaded c (streamPlaybackFrame c n).2 (p :: q) n [p] 1 ∧
      (streamPlaybackFrame c n).2.stream.pagemeta = c.stream.pagemeta := by
  rw [playbackFrame_eq h hn]
  simp only
  set d := ((c.withPool c.stream.pool.streamFifoPop.2).touch .pagemeta p).prset
    (if n ≠ 0 then ch2output else ch1output) p
  have hlast :
      (d.setLast n ⟨p, ajaPlayback⟩).stream.last = record ajaPlayback n [p] d.stream.last := rfl
  have hmeta : (d.setLast n ⟨p, ajaPlayback⟩).stream.pagemeta = d.stream.pagemeta := rfl
  refine ⟨trivial, ⟨⟨?_, hlast, ?_, ?_, fun _ _ => congrFun hmeta _⟩, ?_⟩, hmeta⟩
  · exact ((Popped.pop h).keeps (keeps_touch _ .pagemeta p)).keeps (keeps_touch _ .last n)
  · rw [outputs_setLast, outputs_prset, outputOf_load h0 h2, outputs_touch, outputs_withPool]
    rfl
  · rw [inputs_setLast, inputs_prset, inputOf_load, inputs_touch, inputs_withPool]
    exact List.append_nil _
  · exact ((steady_withPool c _).trans (steady_touch _ _ _)).trans
      ((steady_prset _ _ _).trans (steady_setLast _ _ _))

/-- One channel's page, then those of the channels after it. -/
theorem Loaded.cons {c d e : Card TC} {p : ℤ} {q l : List ℤ} {n : ℤ} {pops : ℕ}
    (h : Loaded c d (p :: q) n [p] 1) (h' : Loaded d e q (n + 1) l pops) :
    Loaded c e (p :: q) n (p :: l) (pops + 1) where
  pool := by rw [Nat.add_comm]; exact h.pool.trans h'.pool
  last := by rw [h'.last, h.last]; rfl
  outputs := by rw [h'.outputs, h.outputs, List.append_assoc]; rfl
  inputs := h'.inputs.trans h.inputs
  pagemeta a ha := by
    rw [List.mem_cons, not_or] at ha
    rw [h'.pagemeta a ha.2, h.pagemeta a (by simpa using ha.1)]
  steady := h.steady.trans h'.steady

/-- The load gives the channels the pages that fit; it fails when one channel
gets none. The metadata stays as it is. -/
theorem loadLoop_spec : ∀ (k : ℕ) (n newp : ℤ) {c : Card TC} {q : List ℤ}, c.stream.pool.Holds q →
    wrap c.stream.pool.fifo = c.stream.pool.fifo → 0 ≤ n → n + k ≤ 2 →
    Loaded c (loadLoop k n newp c).2 q n (fit c.chanOf k n q) (loadPops k (fit c.chanOf k n q)) ∧
      ((loadLoop k n newp c).1 = if (fit c.chanOf k n q).length = k then
          some (if n = 0 then (fit c.chanOf k n q).head?.getD newp else newp) else none) ∧
      (loadLoop k n newp c).2.stream.pagemeta = c.stream.pagemeta
  | 0, n, newp, c, q, h, hr, _, _ => by
    refine ⟨⟨⟨Popped.zero h hr, rfl, by simp [tag, fit, loadLoop], rfl, fun _ _ => rfl⟩,
      .refl c⟩, ?_, rfl⟩
    simp [loadLoop, fit]
  | k + 1, n, newp, c, q, h, hr, h0, h2 => by
    push_cast at h2
    by_cases hhd : ∀ p, q.head? = some p → c.chanOf p ≠ n
    · obtain ⟨hneg, hl⟩ := playbackFrame_fail h hhd
      have hfit : fit c.chanOf (k + 1) n q = [] := by
        cases q with
        | nil => rfl
        | cons p q => unfold fit; rw [if_neg (hhd p rfl)]
      have hm : (streamPlaybackFrame c n).2.stream.pagemeta = c.stream.pagemeta :=
        funext fun p => hl.pagemeta p (by simp)
      unfold loadLoop
      simp only
      rw [if_pos hneg, hfit]
      exact ⟨by simpa [loadPops] using hl, by simp, hm⟩
    · push Not at hhd
      obtain ⟨p, hp, hn⟩ := hhd
      obtain ⟨q, rfl⟩ : ∃ q', q = p :: q' := by
        cases q with
        | nil => simp at hp
        | cons a q => exact ⟨q, by simpa using hp⟩
      obtain ⟨hret, hl, hm⟩ := playbackFrame_load h h0 (by omega) hn
      have hv := (h.valid p (List.mem_cons_self ..)).1
      have hch : (streamPlaybackFrame c n).2.chanOf = c.chanOf := by
        funext a
        unfold Card.chanOf
        rw [hm]
      have ih := loadLoop_spec k (n + 1) (if n = 0 then (streamPlaybackFrame c n).1 else newp)
        hl.pool.holds (by rw [hl.pool.fifo, wrap_wrap]) (by omega) (by omega)
      rw [hch] at ih
      obtain ⟨ihl, ihr, ihm⟩ := ih
      have hfit : fit c.chanOf (k + 1) n (p :: q) = p :: fit c.chanOf k (n + 1) q := by
        rw [fit, if_pos hn]
      have hlen :
          (fit c.chanOf (k + 1) n (p :: q)).length = (fit c.chanOf k (n + 1) q).length + 1 := by
        rw [hfit, List.length_cons]
      have hpops : loadPops (k + 1) (fit c.chanOf (k + 1) n (p :: q)) =
          loadPops k (fit c.chanOf k (n + 1) q) + 1 := by
        unfold loadPops
        rw [hlen]
        split_ifs <;> omega
      unfold loadLoop
      simp only
      rw [if_neg (by rw [hret]; exact not_lt.mpr hv)]
      refine ⟨?_, ?_, ihm.trans hm⟩
      · rw [hpops, hfit]
        exact hl.cons ihl
      · rw [ihr, hlen, hret, hfit, if_neg (show n + 1 ≠ 0 by omega)]
        simp only [Nat.add_right_cancel_iff, List.head?_cons, Option.getD_some, List.drop_one,
          List.tail_cons]

/-- A frame that gives no page. -/
theorem Loads.none {c d : Card TC} {q : List ℤ} {pops : ℕ}
    (hp : Popped c.stream.pool d.stream.pool q pops) (hl : d.stream.last = c.stream.last)
    (ho : d.outputs = c.outputs) (hi : d.inputs = c.inputs)
    (hm : d.stream.pagemeta = c.stream.pagemeta) : Loads c d q 0 [] pops :=
  ⟨hp, hl, by rw [ho]; exact (List.append_nil _).symm, hi, fun p _ => congrFun hm p⟩

/-! ### The master page -/

/-- `d` is `c` but for the metadata of page `p` (and for the timecode and the
frame's time). -/
structure MetaOnly (c d : Card TC) (p : ℤ) : Prop where
  keeps : c.stream.pool.Keeps d.stream.pool
  last : d.stream.last = c.stream.last
  outputs : d.outputs = c.outputs
  inputs : d.inputs = c.inputs
  pagemeta : ∀ a ≠ p, d.stream.pagemeta a = c.stream.pagemeta a
  steady : Steady c d

theorem MetaOnly.trans {c d e : Card TC} {p : ℤ} (h : MetaOnly c d p) (h' : MetaOnly d e p) :
    MetaOnly c e p :=
  ⟨h.keeps.trans h'.keeps, h'.last.trans h.last, h'.outputs.trans h.outputs,
    h'.inputs.trans h.inputs,
    fun a ha => (h'.pagemeta a ha).trans (h.pagemeta a ha), h.steady.trans h'.steady⟩

/-- A card with the same stream and the same writes. -/
theorem MetaOnly.of_stream {c d : Card TC} {p : ℤ} (h : d.stream = c.stream) (hio : d.io = c.io) :
    MetaOnly c d p where
  keeps := by rw [h]; exact ⟨rfl, rfl, rfl, rfl⟩
  last := by rw [h]
  outputs := by unfold Card.outputs; rw [hio]
  inputs := by unfold Card.inputs; rw [hio]
  pagemeta _ _ := by rw [h]
  steady := .of_stream h

theorem MetaOnly.touch (c : Card TC) (p : ℤ) : MetaOnly c (c.touch .pagemeta p) p :=
  ⟨keeps_touch _ _ _, rfl, rfl, rfl, fun _ _ => rfl, steady_touch _ _ _⟩

theorem MetaOnly.setMeta (c : Card TC) (p : ℤ) (m : StreamMeta TC) : MetaOnly c (c.setMeta p m) p :=
  ⟨keeps_touch _ .pagemeta p, rfl, rfl, rfl, fun _ ha => update_of_ne ha .., steady_setMeta _ _ _⟩

theorem MetaOnly.setPriv (c : Card TC) (p : ℤ) (v : ℕ) : MetaOnly c (c.setPriv v) p :=
  .of_stream rfl rfl

theorem MetaOnly.mapTcg (c : Card TC) (p : ℤ) (f : TC → TC) : MetaOnly c (c.mapTcg f) p :=
  .of_stream rfl rfl

theorem Loaded.metaOnly {c d e : Card TC} {q l : List ℤ} {n p : ℤ} {pops : ℕ}
    (h : Loaded c d q n l pops) (hm : MetaOnly d e p) (hp : p ∈ l) : Loaded c e q n l pops where
  pool := h.pool.keeps hm.keeps
  last := hm.last.trans h.last
  outputs := hm.outputs.trans h.outputs
  inputs := hm.inputs.trans h.inputs
  pagemeta a ha := (hm.pagemeta a fun e => ha (e ▸ hp)).trans (h.pagemeta a ha)
  steady := h.steady.trans hm.steady

section Engine

variable [Timecode TC]

theorem playbackMeta_metaOnly (newp : ℤ) (c : Card TC) : MetaOnly c (playbackMeta newp c) newp := by
  have htouch := MetaOnly.touch c newp
  have hend : ∀ d : Card TC, MetaOnly c d newp →
      MetaOnly c ((d.setPriv (d.stream.pagemeta newp).priv).setMeta newp StreamMeta.zero) newp :=
    fun d hd => hd.trans ((MetaOnly.setPriv d newp _).trans (MetaOnly.setMeta _ _ _))
  unfold playbackMeta
  apply hend
  split_ifs
  · exact htouch.trans ((MetaOnly.mapTcg _ newp _).trans (MetaOnly.setMeta _ _ _))
  · exact htouch

/-- The load of a frame. -/
theorem playbackLoad_loaded {c : Card TC} {k : ℕ} {q : List ℤ} (hk : c.stream.chans = k)
    (h0 : 0 < k) (h2 : k ≤ 2) (h : c.stream.pool.Holds q)
    (hr : wrap c.stream.pool.fifo = c.stream.pool.fifo) :
    Loaded c (playbackLoad c) q 0 (fit c.chanOf k 0 q) (loadPops k (fit c.chanOf k 0 q)) := by
  obtain ⟨hl, hret, -⟩ := loadLoop_spec k 0 0 h hr le_rfl (by omega)
  have hcases := playbackLoad_cases c
  rw [hk, Int.toNat_natCast] at hcases
  by_cases hfull : (fit c.chanOf k 0 q).length = k
  · rw [if_pos hfull, if_pos rfl] at hret
    simp only [hret] at hcases
    have hmem : (fit c.chanOf k 0 q).head?.getD 0 ∈ fit c.chanOf k 0 q := by
      cases hfit : fit c.chanOf k 0 q with
      | nil => rw [hfit] at hfull; simp at hfull; omega
      | cons p l => simp
    rcases hcases with ⟨hnone, -⟩ | ⟨p, hp, he⟩
    · cases hnone
    · obtain rfl := Option.some.inj hp
      rw [he]
      exact hl.metaOnly (playbackMeta_metaOnly _ _) hmem
  · rw [if_neg hfull] at hret
    simp only [hret] at hcases
    rcases hcases with ⟨-, he⟩ | ⟨p, hp, -⟩
    · rw [he]
      exact hl
    · cases hp

/-! ### A playback frame -/

/-- `d` is `c`, whose FIFO held `q`, after the playback frame `e`. -/
structure Played (c d : Card TC) (q : List ℤ) (e : PlayPlan) : Prop where
  loads : Loads c d q 0 e.loaded e.pops
  flags : d.stream.flags = c.stream.flags
  pagect : d.stream.pagect = c.stream.pagect
  chans : d.stream.chans = c.stream.chans
  speed : d.stream.speed = c.stream.speed
  spdct : d.stream.spdct =
    if c.stream.pool.fifo < c.stream.chans then c.stream.spdct
      else (streamSpeedcount c.stream).2.spdct
  drops : d.stream.drop.count = c.stream.drop.count + e.drops

omit [Timecode TC] in
/-- What is done to the card after the count is done to the card before it. -/
theorem Loads.played {c d : Card TC} {q : List ℤ} {e : PlayPlan}
    (h : Loads c.counted d q 0 e.loaded e.pops) (hl : ¬ c.stream.pool.fifo < c.stream.chans)
    (hflags : d.stream.flags = c.stream.flags) (hpagect : d.stream.pagect = c.stream.pagect)
    (hchans : d.stream.chans = c.stream.chans) (hspeed : d.stream.speed = c.stream.speed)
    (hspdct : d.stream.spdct = c.counted.stream.spdct)
    (hdrops : d.stream.drop.count = c.stream.drop.count + e.drops) : Played c d q e where
  loads := ⟨h.pool, h.last, h.outputs, h.inputs, h.pagemeta⟩
  flags := hflags
  pagect := hpagect
  chans := hchans
  speed := hspeed
  spdct := by rw [if_neg hl]; exact hspdct
  drops := hdrops

omit [Timecode TC] in
/-- A bump after which no page is loaded, with a drop or without. -/
theorem Popped.played {c : Card TC} {P : Pool} {q : List ℤ} {pops : ℕ}
    (hp : Popped c.stream.pool P q pops) (hl : ¬ c.stream.pool.fifo < c.stream.chans) :
    Played c (c.counted.withPool P) q ⟨pops, [], 0⟩ ∧
      Played c (streamDrop (c.counted.withPool P)) q ⟨pops, [], 1⟩ := by
  have hnone : Loads c.counted (c.counted.withPool P) q 0 [] pops := Loads.none hp rfl rfl rfl rfl
  have hdrop : Loads c.counted (streamDrop (c.counted.withPool P)) q 0 [] pops :=
    Loads.none hp rfl rfl rfl rfl
  exact ⟨hnone.played hl rfl rfl rfl rfl rfl (add_zero _).symm,
    hdrop.played hl rfl rfl rfl rfl rfl rfl⟩

/-- The load that follows the bump. -/
theorem playbackLoad_played {c : Card TC} {k : ℕ} {P : Pool} {q : List ℤ} {pops : ℕ}
    (hk : c.stream.chans = k) (h0 : 0 < k) (h2 : k ≤ 2)
    (hl : ¬ c.stream.pool.fifo < c.stream.chans) (hp : Popped c.stream.pool P q pops) :
    Played c (playbackLoad (c.counted.withPool P)) q
      ⟨pops + loadPops k (fit c.chanOf k 0 (q.drop pops)), fit c.chanOf k 0 (q.drop pops), 0⟩ := by
  have hP : wrap P.fifo = P.fifo := by rw [hp.fifo, wrap_wrap]
  have hL := playbackLoad_loaded (c := c.counted.withPool P) hk h0 h2 hp.holds hP
  have hloads :
    Loads c.counted (playbackLoad (c.counted.withPool P)) q 0 (fit c.chanOf k 0 (q.drop pops))
      (pops + loadPops k (fit c.chanOf k 0 (q.drop pops))) :=
    ⟨hp.trans hL.pool, hL.last, hL.outputs, hL.inputs, hL.pagemeta⟩
  exact hloads.played hl hL.steady.flags hL.steady.pagect hL.steady.chans hL.steady.speed
    hL.steady.spdct
    (hL.steady.drops.trans (add_zero _).symm)

/-- `aja_stream_playback` does what its plan says. -/
theorem streamPlayback_played {c : Card TC} {k : ℕ} {q : List ℤ}
    (hf : c.stream.flags &&& ajaPlayback ≠ 0) (hk : c.stream.chans = k) (h0 : 0 < k) (h2 : k ≤ 2)
    (h : c.stream.pool.Holds q) (hr : wrap c.stream.pool.fifo = c.stream.pool.fifo) :
    Played c (streamPlayback c) q
      (playPlan c.chanOf k c.stream.pool.fifo (streamSpeedcount c.stream).1 q) := by
  have hz : Popped c.stream.pool c.stream.pool q 0 := Popped.zero h hr
  rw [streamPlayback_eq]
  unfold playPlan
  simp only
  rw [if_neg hf, ← hk]
  by_cases hl : c.stream.pool.fifo < c.stream.chans
  · rw [if_pos hl, if_pos hl]
    exact ⟨Loads.none hz rfl rfl rfl rfl, rfl, rfl, rfl, rfl, by rw [if_pos hl]; rfl, rfl⟩
  rw [if_neg hl, if_neg hl]
  set due := (streamSpeedcount c.stream).1
  by_cases hd0 : due = 0
  · rw [if_pos hd0, if_pos hd0]
    exact (hz.played hl).1
  rw [if_neg hd0, if_neg hd0]
  have hb := bumpLoop_spec h0 (due - 1).toNat h hr
  rw [← hk] at hb
  rcases hloop : bumpLoop c.stream.chans (due - 1).toNat c.stream.pool with ⟨e, P⟩
  rw [hloop] at hb
  split_ifs at hb ⊢ with hdry hshort
  · obtain ⟨rfl, hp⟩ := hb
    exact (hp.played hl).1
  · obtain ⟨rfl, hp⟩ := hb
    exact (hp.played hl).2
  · obtain ⟨rfl, hp⟩ := hb
    exact playbackLoad_played hk h0 h2 hl hp

end Engine

end AjaDriver
