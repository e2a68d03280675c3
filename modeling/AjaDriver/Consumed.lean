/-
# The metadata of the pages taken

`aja_stream_playback` zeroes the metadata of the master page once a frame is
loaded "so we don't accidently use it again". The page of the second channel
keeps its metadata, as does every page that a bump skips and every page that
ends a load. So a call leaves zero behind exactly when the pages it may take
have no metadata, the page of a single channel apart (`cleared_iff_spent`).

What a call does is followed on the list that its FIFO is in every run, whatever
the client pushed (`streamPlayback_lists`): the plan of `Plan.lean` holds there
too.
-/
import AjaDriver.Pool.Lists
import AjaDriver.Trigger
import AjaDriver.Playback

namespace AjaDriver

open Function Word Pool Card

variable {TC : Type}

/-! ### A call on the list -/

/-- A channel takes the oldest page, if it is its own. -/
theorem playbackFrame_lists {c : Card TC} {q : List ℤ} (h : c.stream.pool.Lists q) (n : ℤ) :
    (streamPlaybackFrame c n).2.stream.pool.Lists (q.drop 1) ∧
      (streamPlaybackFrame c n).2.stream.pagemeta = c.stream.pagemeta ∧
      ((streamPlaybackFrame c n).1 < 0 ↔ fit c.chanOf 1 n q = []) ∧
      ∀ p ∈ fit c.chanOf 1 n q, (streamPlaybackFrame c n).1 = p := by
  unfold streamPlaybackFrame
  simp only
  cases q with
  | nil =>
    rw [h.pop_nil.1, if_pos (by decide)]
    exact ⟨h.pop_nil.2, rfl, by simp [fit, ENOMEM], by simp [fit]⟩
  | cons p q =>
    have hpage := (h.pages p (List.mem_cons_self ..)).1
    have hfit : fit c.chanOf 1 n (p :: q) = if c.chanOf p = n then [p] else [] := rfl
    rw [h.pop_cons.1, if_neg (not_lt.mpr hpage), hfit]
    by_cases hn : c.chanOf p = n
    · have hn' :
        ¬ (((c.withPool c.stream.pool.streamFifoPop.2).touch .pagemeta p).stream.pagemeta p).chan ≠
          n :=
        not_not.mpr hn
      rw [if_neg hn', if_pos hn]
      exact ⟨(h.pop_cons.2.keeps (keeps_touch _ .pagemeta p)).keeps (keeps_touch _ .last n), rfl,
        by simp [hpage], by simp⟩
    · have hn' :
          (((c.withPool c.stream.pool.streamFifoPop.2).touch .pagemeta p).stream.pagemeta p).chan ≠
            n := hn
      rw [if_pos hn', if_neg hn]
      exact ⟨h.pop_cons.2.keeps (keeps_touch _ .pagemeta p), rfl, by simp [EINVAL], by simp⟩

/-- The load takes the pages that fit, and the one that ends it early. -/
theorem loadLoop_lists : ∀ (k : ℕ) (n newp : ℤ) {c : Card TC}
    {q : List ℤ}, c.stream.pool.Lists q → 0 ≤ n →
    (loadLoop k n newp c).2.stream.pool.Lists (q.drop (loadPops k (fit c.chanOf k n q))) ∧
      (loadLoop k n newp c).2.stream.pagemeta = c.stream.pagemeta ∧
      (loadLoop k n newp c).1 = if (fit c.chanOf k n q).length = k then
        some (if n = 0 then (fit c.chanOf k n q).head?.getD newp else newp) else none
  | 0, n, newp, c, q, h, _ => ⟨h, rfl, by simp [loadLoop, fit]⟩
  | k + 1, n, newp, c, q, h, h0 => by
    obtain ⟨hlists, hmeta, hneg, hret⟩ := playbackFrame_lists h n
    have hchan : (streamPlaybackFrame c n).2.chanOf = c.chanOf := by
      funext a
      unfold Card.chanOf
      rw [hmeta]
    unfold loadLoop
    simp only
    by_cases hfits : fit c.chanOf 1 n q = []
    · have hfit : fit c.chanOf (k + 1) n q = [] := by
        cases q with
        | nil => rfl
        | cons p q =>
          unfold fit at hfits ⊢
          split_ifs at hfits with hn
          rw [if_neg hn]
      rw [if_pos (hneg.mpr hfits), hfit]
      exact ⟨by simpa [loadPops] using hlists, hmeta, by simp⟩
    · obtain ⟨p, q, rfl⟩ : ∃ p q', q = p :: q' := by
        cases q with
        | nil => exact absurd rfl hfits
        | cons p q => exact ⟨p, q, rfl⟩
      have hn : c.chanOf p = n := by
        by_contra hn
        exact hfits (by rw [fit, if_neg hn])
      have hp : (streamPlaybackFrame c n).1 = p :=
        hret p (by rw [fit, if_pos hn]; exact List.mem_cons_self ..)
      obtain ⟨ihlists, ihmeta, ihret⟩ :=
        loadLoop_lists k (n + 1) (if n = 0 then (streamPlaybackFrame c n).1 else newp)
          hlists (by omega)
      rw [hchan] at ihlists ihret
      have hfit : fit c.chanOf (k + 1) n (p :: q) = p :: fit c.chanOf k (n + 1) q := by
        rw [fit, if_pos hn]
      have hpops : loadPops (k + 1) (p :: fit c.chanOf k (n + 1) q) =
          loadPops k (fit c.chanOf k (n + 1) q) + 1 := by
        unfold loadPops
        rw [List.length_cons]
        split_ifs <;> omega
      rw [if_neg (mt hneg.mp hfits), hfit, hpops]
      refine ⟨ihlists, ihmeta.trans hmeta, ihret.trans ?_⟩
      rw [if_neg (show n + 1 ≠ 0 by omega), hp]
      simp

variable [Timecode TC]

/-- The metadata after the end of a frame: the master page's is zero. -/
theorem playbackMeta_pagemeta (newp : ℤ) (c : Card TC) :
    (playbackMeta newp c).stream.pagemeta = update c.stream.pagemeta newp StreamMeta.zero := by
  funext a
  by_cases ha : a = newp
  · subst ha
    rw [update_self]
    exact update_self ..
  · rw [update_of_ne ha]
    exact (playbackMeta_metaOnly newp c).pagemeta a ha

/-- The metadata `m` after a frame of `k` channels that gave them the pages `l`. -/
def metaAfter (k : ℕ) (l : List ℤ) (m : ℤ → StreamMeta TC) : ℤ → StreamMeta TC :=
  if l.length = k then update m (l.head?.getD 0) StreamMeta.zero else m

theorem playbackLoad_lists {c : Card TC} {k : ℕ} {q : List ℤ} (hk : c.stream.chans = k)
    (h : c.stream.pool.Lists q) :
    (playbackLoad c).stream.pool.Lists (q.drop (loadPops k (fit c.chanOf k 0 q))) ∧
      (playbackLoad c).stream.pagemeta = metaAfter k (fit c.chanOf k 0 q) c.stream.pagemeta := by
  obtain ⟨hlists, hmeta, hret⟩ := loadLoop_lists k 0 0 h le_rfl
  have hcases := playbackLoad_cases c
  rw [hk, Int.toNat_natCast] at hcases
  unfold metaAfter
  by_cases hfull : (fit c.chanOf k 0 q).length = k
  · rw [if_pos hfull, if_pos rfl] at hret
    simp only [hret] at hcases
    rw [if_pos hfull]
    rcases hcases with ⟨hnone, -⟩ | ⟨p, hp, he⟩
    · cases hnone
    · obtain rfl := Option.some.inj hp
      rw [he, ← hmeta]
      exact ⟨hlists.keeps (playbackMeta_metaOnly _ _).keeps, playbackMeta_pagemeta _ _⟩
  · rw [if_neg hfull] at hret
    simp only [hret] at hcases
    rw [if_neg hfull]
    rcases hcases with ⟨-, he⟩ | ⟨p, hp, -⟩
    · rw [he]
      exact ⟨hlists, hmeta⟩
    · cases hp

/-- A call takes the pages of its plan, and zeroes the metadata of the first page
of a frame that is loaded. -/
theorem streamPlayback_lists {c : Card TC} {k : ℕ} {q : List ℤ}
    (hf : c.stream.flags &&& ajaPlayback ≠ 0) (hk : c.stream.chans = k) (h0 : 0 < k)
    (h : c.stream.pool.Lists q) :
    let e := playPlan c.chanOf k c.stream.pool.fifo c.due q
    (streamPlayback c).stream.pool.Lists (q.drop e.pops) ∧
      (streamPlayback c).stream.pagemeta = metaAfter k e.loaded c.stream.pagemeta := by
  have hnone : metaAfter k [] c.stream.pagemeta = c.stream.pagemeta := if_neg h0.ne
  obtain ⟨hlists, hend⟩ := h.bumpLoop h0 (c.due - 1).toNat
  rw [← hk] at hlists hend
  rw [streamPlayback_eq]
  unfold playPlan
  simp only
  rw [if_neg hf, ← hk]
  by_cases hl : c.stream.pool.fifo < c.stream.chans
  · rw [if_pos hl, if_pos hl]
    exact ⟨h, hnone.symm⟩
  rw [if_neg hl, if_neg hl]
  by_cases hd0 : c.due = 0
  · rw [if_pos (show (streamSpeedcount c.stream).1 = 0 from hd0), if_pos hd0]
    exact ⟨h, hnone.symm⟩
  rw [if_neg (show ¬ (streamSpeedcount c.stream).1 = 0 from hd0), if_neg hd0]
  rcases hloop : bumpLoop c.stream.chans (c.due - 1).toNat c.stream.pool with ⟨e, P⟩
  have hcounted : bumpLoop c.stream.chans ((streamSpeedcount c.stream).1 - 1).toNat c.stream.pool =
      (e, P) := hloop
  rw [hloop] at hlists hend
  rw [hcounted]
  split_ifs at hend ⊢ with hdry hshort
  · obtain rfl : e = .dry := hend
    rw [List.drop_eq_nil_of_le hdry.le] at hlists
    refine ⟨?_, hnone.symm⟩
    rw [List.drop_eq_nil_of_le (Nat.le_succ _)]
    exact hlists
  · obtain rfl : e = .short := hend
    exact ⟨hlists, hnone.symm⟩
  · obtain rfl : e = .done := hend
    have hload := playbackLoad_lists (c := c.counted.withPool P) hk hlists
    rw [List.drop_drop] at hload
    exact hload

/-! ### What a call leaves behind -/

/-- The page stands at place `j` of the FIFO. -/
def Pool.AtPlace (P : Pool) (j : ℕ) (p : ℤ) : Prop :=
  ∃ q, Intrusive.Chain (fun i => (P.pagealloc i).next) P.pfirst q ∧ q[j]? = some p

/-- The places of the FIFO that a call of `k` channels may take pages from: those
of its bump as far as the level goes, and those of the frame behind it. -/
def placesTaken (k : ℕ) (level due : ℤ) : ℕ :=
  if level < k ∨ due = 0 then 0
  else
    let r := bumpRounds k level (due - 1).toNat
    if r < (due - 1).toNat then r * k else (r + 1) * k

/-- The metadata of every page that a call takes off the FIFO is zero after it. -/
def Card.Cleared (c : Card TC) : Prop :=
  ∀ p, c.stream.pool.Queued p → ¬ (streamPlayback c).stream.pool.Queued p →
    (streamPlayback c).stream.pagemeta p = StreamMeta.zero

/-- The pages that the next call may take have no metadata. The one that a single
channel is to load may have some, if it is its own. -/
def Card.Spent (c : Card TC) : Prop :=
  ∀ j p, c.stream.pool.AtPlace j p → j < placesTaken c.stream.chans.toNat c.stream.pool.fifo c.due →
    c.stream.pagemeta p = StreamMeta.zero ∨
      (c.stream.chans = 1 ∧ j = (c.due - 1).toNat ∧ c.chanOf p = 0)

theorem atPlace_iff {P : Pool} {q : List ℤ} (h : P.Lists q) (j : ℕ) (p : ℤ) :
    P.AtPlace j p ↔ q[j]? = some p := by
  constructor
  · rintro ⟨r, hr, hp⟩
    rwa [Intrusive.Chain.unique h.chain hr]
  · exact fun hp => ⟨q, h.chain, hp⟩

/-- A call clears what it takes when it does so place by place. -/
theorem cleared_iff_places {c : Card TC} {q : List ℤ} {n : ℕ} (h : c.stream.pool.Lists q)
    (h' : (streamPlayback c).stream.pool.Lists (q.drop n)) :
    c.Cleared ↔ ∀ j p, q[j]? = some p → j < n →
      (streamPlayback c).stream.pagemeta p = StreamMeta.zero := by
  have hnd : (q.take n ++ q.drop n).Nodup := by
    rw [List.take_append_drop]
    exact h.chain.nodup
  have htaken : ∀ p, (p ∈ q ∧ p ∉ q.drop n) ↔ ∃ j, q[j]? = some p ∧ j < n := by
    intro p
    have hmem : p ∈ q ↔ p ∈ q.take n ∨ p ∈ q.drop n := by
      rw [← List.mem_append, List.take_append_drop]
    have htake : p ∈ q.take n ↔ ∃ j, q[j]? = some p ∧ j < n := by
      rw [List.mem_iff_getElem?]
      refine exists_congr fun j => ?_
      rw [List.getElem?_take]
      split_ifs with hj
      · simp [hj]
      · simp [hj]
    rw [← htake, hmem]
    constructor
    · rintro ⟨hp | hp, hnot⟩
      · exact hp
      · exact absurd hp hnot
    · exact fun hp => ⟨Or.inl hp, fun hd => (List.nodup_append.mp hnd).2.2 p hp p hd rfl⟩
  unfold Card.Cleared
  simp only [queued_iff_of_chain h.chain, queued_iff_of_chain h'.chain]
  constructor
  · intro hall j p hp hj
    obtain ⟨hq, hd⟩ := (htaken p).mpr ⟨j, hp, hj⟩
    exact hall p hq hd
  · intro hall p hq hd
    obtain ⟨j, hp, hj⟩ := (htaken p).mp ⟨hq, hd⟩
    exact hall j p hp hj

/-- A page of a channel from 1 on has metadata. -/
theorem chan_of_zero {m : StreamMeta TC} (h : m = StreamMeta.zero) : m.chan = 0 := by
  rw [h]
  rfl

/-- A load leaves zero in the pages it took from the list. -/
def LoadClears (k : ℕ) (q l : List ℤ) (m : ℤ → StreamMeta TC) : Prop :=
  ∀ j p, q[j]? = some p → j < loadPops k l → metaAfter k l m p = StreamMeta.zero

/-- The pages of a frame have no metadata, or a single channel has its own page. -/
def LoadSpent (k : ℕ) (q : List ℤ) (m : ℤ → StreamMeta TC) : Prop :=
  ∀ j p, q[j]? = some p → j < k → m p = StreamMeta.zero ∨ (k = 1 ∧ j = 0 ∧ (m p).chan = 0)

/-- A single channel that has its own page clears it. -/
theorem load_clears_single {m : ℤ → StreamMeta TC} {p : ℤ} (q : List ℤ) (hp : (m p).chan = 0) :
    LoadClears 1 (p :: q) [p] m ↔ LoadSpent 1 (p :: q) m := by
  constructor
  · intro _ j p' hp' hj
    obtain rfl := Nat.lt_one_iff.mp hj
    obtain rfl := Option.some.inj hp'
    exact Or.inr ⟨rfl, rfl, hp⟩
  · intro _ j p' hp' hj
    obtain rfl := Nat.lt_one_iff.mp hj
    obtain rfl := Option.some.inj hp'
    exact update_self ..

/-- A second channel that gets no page leaves the metadata as it is. -/
theorem load_clears_half {m : ℤ → StreamMeta TC} (p : ℤ) (q : List ℤ) :
    LoadClears 2 q [p] m ↔ LoadSpent 2 q m := by
  have hmeta : metaAfter 2 [p] m = m := if_neg (show ¬ 1 = 2 by decide)
  have hpops : loadPops 2 [p] = 2 := rfl
  unfold LoadClears LoadSpent
  rw [hmeta, hpops]
  simp

/-- The second channel's page of a frame that is loaded has metadata, and keeps
it. -/
theorem load_clears_pair {m : ℤ → StreamMeta TC} {p p₁ : ℤ} (q : List ℤ) (hne : p₁ ≠ p)
    (hp₁ : (m p₁).chan = 1) :
    LoadClears 2 (p :: p₁ :: q) [p, p₁] m ↔ LoadSpent 2 (p :: p₁ :: q) m := by
  have hmeta : metaAfter 2 [p, p₁] m p₁ = m p₁ := update_of_ne hne ..
  have hno : m p₁ ≠ StreamMeta.zero := fun e => by
    rw [chan_of_zero e] at hp₁
    omega
  have hpops : 1 < loadPops 2 [p, p₁] := Nat.one_lt_two
  constructor
  · exact fun hall => absurd (hmeta.symm.trans (hall 1 p₁ rfl hpops)) hno
  · exact fun hall => absurd (hall 1 p₁ rfl Nat.one_lt_two) (by simp [hno])

/-- A page of another channel ends the load, and keeps its metadata. -/
theorem load_clears_other {m : ℤ → StreamMeta TC} {k : ℕ} (h0 : 0 < k) {p : ℤ} (q : List ℤ)
    (hp : (m p).chan ≠ 0) : LoadClears k (p :: q) [] m ↔ LoadSpent k (p :: q) m := by
  have hmeta : metaAfter k [] m p = m p := congrFun (if_neg h0.ne) p
  have hpops : 0 < loadPops k [] := by
    unfold loadPops
    split_ifs <;> omega
  have hno : m p ≠ StreamMeta.zero := fun e => hp (chan_of_zero e)
  constructor
  · exact fun hall => absurd (hmeta.symm.trans (hall 0 p rfl hpops)) hno
  · exact fun hall => absurd (hall 0 p rfl h0) (by simp [hno, hp])

/-- A load leaves zero behind exactly when its pages had no metadata, or a single
channel found its own page. -/
theorem load_clears {m : ℤ → StreamMeta TC} {k : ℕ} (h0 : 0 < k) (h2 : k ≤ 2) {q : List ℤ}
    (hq : q.Nodup) :
    LoadClears k q (fit (fun p => (m p).chan) k 0 q) m ↔ LoadSpent k q m := by
  have hk : k = 1 ∨ k = 2 := by omega
  cases q with
  | nil => exact ⟨fun _ j p hp => by simp at hp, fun _ j p hp => by simp at hp⟩
  | cons p q =>
    by_cases hp : (m p).chan = 0
    · obtain rfl | rfl := hk
      · rw [show fit (fun p => (m p).chan) 1 0 (p :: q) = [p] from if_pos hp]
        exact load_clears_single q hp
      · cases q with
        | nil =>
          rw [show fit (fun p => (m p).chan) 2 0 [p] = [p] from if_pos hp]
          exact load_clears_half p [p]
        | cons p₁ q =>
          by_cases hp₁ : (m p₁).chan = 1
          · have hfit : fit (fun p => (m p).chan) 2 0 (p :: p₁ :: q) = [p, p₁] := by
              simp [fit, hp, hp₁]
            rw [hfit]
            exact load_clears_pair q
              (fun e => (List.nodup_cons.mp hq).1 (e ▸ List.mem_cons_self ..)) hp₁
          · have hfit : fit (fun p => (m p).chan) 2 0 (p :: p₁ :: q) = [p] := by
              simp [fit, hp, hp₁]
            rw [hfit]
            exact load_clears_half p _
    · have hfit : fit (fun p => (m p).chan) k 0 (p :: q) = [] := by
        obtain rfl | rfl := hk
        · exact if_neg hp
        · exact if_neg hp
      rw [hfit]
      exact load_clears_other h0 q hp

omit [Timecode TC] in
/-- The places below `n + t`: those below `n`, and those of what stands behind. -/
theorem forall_places_add {A : ℕ → ℤ → Prop} {q : List ℤ} {n t : ℕ} :
    (∀ j p, q[j]? = some p → j < n + t → A j p) ↔
      (∀ j p, q[j]? = some p → j < n → A j p) ∧ ∀ i p, (q.drop n)[i]? = some p → i < t →
      A (n + i) p := by
  constructor
  · intro hall
    refine ⟨fun j p hp hj => hall j p hp (by omega), fun i p hp hi => hall (n + i) p ?_ (by omega)⟩
    rw [← List.getElem?_drop]
    exact hp
  · rintro ⟨hfirst, hrest⟩ j p hp hj
    by_cases hjn : j < n
    · exact hfirst j p hp hjn
    · obtain ⟨i, rfl⟩ : ∃ i, j = n + i := ⟨j - n, by omega⟩
      refine hrest i p ?_ (by omega)
      rw [List.getElem?_drop]
      exact hp

/-- What stands before the pages loaded keeps its metadata. -/
theorem metaAfter_before {m : ℤ → StreamMeta TC} {k n : ℕ} {q l : List ℤ} (h0 : 0 < k)
    (hq : q.Nodup) (hl : ∀ p ∈ l, p ∈ q.drop n) {j : ℕ} {p : ℤ} (hp : q[j]? = some p) (hj : j < n) :
    metaAfter k l m p = m p := by
  unfold metaAfter
  split_ifs with hfull
  · have hmem : l.head?.getD 0 ∈ l := by
      cases l with
      | nil => exact absurd hfull h0.ne
      | cons a l => exact List.mem_cons_self ..
    rw [← List.take_append_drop n q, List.nodup_append] at hq
    have htake : p ∈ q.take n := by
      rw [List.mem_iff_getElem?]
      exact ⟨j, by rw [List.getElem?_take, if_pos hj]; exact hp⟩
    exact update_of_ne (hq.2.2 p htake _ (hl _ hmem)) ..
  · rfl

/-- No place below `b` of a single channel is the one it loads. -/
theorem spent_before {m : StreamMeta TC} {k b n j : ℕ} (hn : n ≤ b) (hj : j < n * k) :
    (m = StreamMeta.zero ∨ (k = 1 ∧ j = b ∧ m.chan = 0)) ↔ m = StreamMeta.zero := by
  refine or_iff_left ?_
  rintro ⟨rfl, rfl, -⟩
  omega

/-- The list ends in the bump: the call takes all of it, and changes no metadata. -/
theorem clears_dry {m : ℤ → StreamMeta TC} {k b r n : ℕ} {q : List ℤ} (hr : r ≤ b)
    (hdry : q.length < r * k) (hn : r * k ≤ n) :
    (∀ j p, q[j]? = some p → j < q.length + 1 → m p = StreamMeta.zero) ↔
      ∀ j p, q[j]? = some p → j < n →
        m p = StreamMeta.zero ∨ (k = 1 ∧ j = b ∧ (m p).chan = 0) := by
  have hlt : ∀ {j : ℕ} {p : ℤ}, q[j]? = some p → j < q.length :=
    fun hp => (List.getElem?_eq_some_iff.mp hp).1
  constructor
  · intro hall j p hp _
    have := hlt hp
    exact Or.inl (hall j p hp (by omega))
  · intro hall j p hp _
    have := hlt hp
    exact (spent_before hr (by omega)).mp (hall j p hp (by omega))

/-- The bump goes through, and a frame is loaded from what stands behind it. -/
theorem clears_loaded {m : ℤ → StreamMeta TC} {k b : ℕ} {q : List ℤ} (h0 : 0 < k) (h2 : k ≤ 2)
    (hq : q.Nodup) :
    let l := fit (fun p => (m p).chan) k 0 (q.drop (b * k))
    (∀ j p, q[j]? = some p → j < b * k + loadPops k l → metaAfter k l m p = StreamMeta.zero) ↔
      ∀ j p, q[j]? = some p → j < b * k + k →
        m p = StreamMeta.zero ∨ (k = 1 ∧ j = b ∧ (m p).chan = 0) := by
  intro l
  have hload : LoadClears k (q.drop (b * k)) l m ↔ LoadSpent k (q.drop (b * k)) m :=
    load_clears h0 h2 (hq.sublist (List.drop_sublist (b * k) q))
  have hfits : ∀ p ∈ l, p ∈ q.drop (b * k) := fun p hp => (fit_initial _ k 0 _).subset hp
  rw [forall_places_add, forall_places_add]
  refine and_congr ?_ (hload.trans ?_)
  · refine forall_congr' fun j => forall_congr' fun p => forall_congr' fun hp =>
      forall_congr' fun hj => ?_
    rw [spent_before le_rfl hj, metaAfter_before h0 hq hfits hp hj]
  · refine forall_congr' fun i => forall_congr' fun p => forall_congr' fun _ =>
      forall_congr' fun _ => or_congr_right (and_congr_right fun hk1 => ?_)
    have hplace : b * k + i = b ↔ i = 0 := by
      rw [hk1]
      omega
    rw [hplace]

/-- One call leaves zero behind exactly when its pages were spent. -/
theorem cleared_iff_spent_of_lists {c : Card TC} {k : ℕ} {q : List ℤ}
    (hf : c.stream.flags &&& ajaPlayback ≠ 0) (hk : c.stream.chans = k) (h0 : 0 < k) (h2 : k ≤ 2)
    (h : c.stream.pool.Lists q) :
    c.Cleared ↔ c.Spent := by
  have hnone : metaAfter k [] c.stream.pagemeta = c.stream.pagemeta := if_neg h0.ne
  obtain ⟨hlists, hmeta⟩ := streamPlayback_lists hf hk h0 h
  have hone : ((k : ℤ) = 1) ↔ k = 1 := by omega
  rw [cleared_iff_places h hlists, hmeta]
  unfold Card.Spent
  simp only [atPlace_iff h, hk, Int.toNat_natCast, hone]
  unfold playPlan placesTaken
  simp only
  set b := (c.due - 1).toNat
  set r := bumpRounds k c.stream.pool.fifo b
  have hle : r ≤ b := Nat.min_le_left ..
  by_cases hl : c.stream.pool.fifo < k
  · rw [if_pos hl, if_pos (Or.inl hl)]
    exact ⟨fun _ j p _ hj => absurd hj (Nat.not_lt_zero j),
      fun _ j p _ hj => absurd hj (Nat.not_lt_zero j)⟩
  by_cases hd0 : c.due = 0
  · rw [if_neg hl, if_pos hd0, if_pos (Or.inr hd0)]
    exact ⟨fun _ j p _ hj => absurd hj (Nat.not_lt_zero j),
      fun _ j p _ hj => absurd hj (Nat.not_lt_zero j)⟩
  rw [if_neg hl, if_neg hd0, if_neg (not_or.mpr ⟨hl, hd0⟩)]
  by_cases hdry : q.length < r * k
  · have hplaces : r * k ≤ if r < b then r * k else (r + 1) * k := by
      split_ifs
      · exact le_rfl
      · exact Nat.mul_le_mul_right k (Nat.le_succ r)
    rw [if_pos hdry]
    simp only [hnone]
    exact clears_dry hle hdry hplaces
  rw [if_neg hdry]
  by_cases hshort : r < b
  · rw [if_pos hshort, if_pos hshort]
    simp only [hnone]
    exact forall_congr' fun j => forall_congr' fun p => forall_congr' fun _ =>
      forall_congr' fun hj => (spent_before hle hj).symm
  · have hrb : r = b := by omega
    rw [if_neg hshort, if_neg hshort, Nat.succ_mul, hrb]
    exact clears_loaded h0 h2 h.chain.nodup

/-! ### In every run -/

/-- What the interrupt hands to the engines has every invariant of the card. -/
theorem Card.Kept.handed {I : Card TC → Prop} (hI : Card.Kept I) {irq : FrameIrq TC}
    {c d : Card TC} (hc : I c) (h : handed irq c = some d) : I d := by
  unfold AjaDriver.handed at h
  split_ifs at h
  obtain rfl := Option.some.inj h
  exact hI.view (hI.freeup (hI.view hc (view_frameCount irq c)) _) (view_frameAudio _)

/-- At every call of the playback engine in every run of a card: the metadata of
the pages it takes is zero afterwards exactly when the pages were spent. -/
theorem cleared_iff_spent (M : ModParams) (pcitc p2slave : Bool) (ops : List (Op TC))
    (irq : FrameIrq TC) (c : Card TC)
    (hc : handed irq ((Card.new pcitc p2slave : Card TC).run M ops) = some c)
    (hplay : c.stream.flags &&& ajaPlayback ≠ 0) : c.Cleared ↔ c.Spent := by
  have hsound : c.Sound :=
    Card.Sound.kept.handed (Card.Sound.kept.run M ops (Card.Sound.new pcitc p2slave)) hc
  have hmarked : c.Marked :=
    Card.Marked.kept.handed (Card.Marked.kept.run M ops (Card.Marked.new pcitc p2slave)) hc
  have hfiled : c.Filed :=
    Card.Filed.kept.handed (Card.Filed.kept.run M ops (Card.Filed.new pcitc p2slave)) hc
  have hflags : c.stream.flags ≠ 0 := fun h0 => hplay (by rw [h0]; decide)
  have hone : 1 ≤ c.stream.chans := hmarked.chans.resolve_left hflags
  have htwo := hsound.chans
  obtain ⟨q, hq⟩ := exists_lists hsound hfiled hflags
  exact cleared_iff_spent_of_lists (k := c.stream.chans.toNat) hplay (by omega) (by omega)
    (by omega) hq

/-- A single channel that one frame is due for, its page the oldest. -/
theorem spent_one {c : Card TC} {p : ℤ} (hchans : c.stream.chans = 1) (hdue : c.due = 1)
    (hfirst : c.stream.pool.pfirst = some p) (hchan : c.chanOf p = 0) : c.Spent := by
  rintro j a ⟨q, hq, ha⟩ hj
  have hplace : placesTaken c.stream.chans.toNat c.stream.pool.fifo c.due ≤ 1 := by
    rw [hchans, hdue]
    unfold placesTaken bumpRounds
    simp only
    split_ifs <;> simp
  obtain rfl : j = 0 := by omega
  obtain rfl : p = a := by
    rw [← List.head?_eq_getElem?, ← hq.head, hfirst] at ha
    exact Option.some.inj ha
  exact Or.inr ⟨hchans, by rw [hdue]; rfl, hchan⟩

/-- One page with a private value queued for a single channel. -/
theorem cleared_iff_spent_one :
    ∃ c, handed blankFrame ((Card.new false false : Card ℕ).run {}
        [.streamInit 0 ⟨8, ajaPlayback, 1, 0⟩, .pageAlloc,
          .setmeta 0 { StreamMeta.zero with priv := 7 }, .fifoPush 0, .streamStart .frame]) =
        some c ∧
      (c.stream.pagemeta 0).priv = 7 ∧ c.Cleared := by
  refine ⟨_, rfl, rfl, ?_⟩
  refine (cleared_iff_spent {} false false [.streamInit 0 ⟨8, ajaPlayback, 1, 0⟩, .pageAlloc,
    .setmeta 0 { StreamMeta.zero with priv := 7 }, .fifoPush 0, .streamStart .frame]
      blankFrame _ rfl
    (by decide +kernel)).mpr ?_
  exact spent_one (p := 0) rfl (by decide +kernel) (by decide +kernel) rfl

/-- Two channels, a frame for them queued: the page of the second keeps its
metadata. -/
theorem second_channel_kept : ¬ ∀ (M : ModParams) (pcitc p2slave : Bool) (ops : List (Op ℕ))
    (irq : FrameIrq ℕ) (c : Card ℕ),
    handed irq ((Card.new pcitc p2slave : Card ℕ).run M ops) = some c →
    c.stream.flags &&& ajaPlayback ≠ 0 → c.Cleared := by
  intro hall
  have hcleared :=
    hall {} false false [.streamInit 0 ⟨8, ajaPlayback, 2, 0⟩, .pageAlloc, .pageAlloc,
    .setmeta 1 { StreamMeta.zero with chan := 1 }, .fifoPush 0, .fifoPush 1, .streamStart .frame]
      blankFrame _ rfl
    (by decide +kernel)
  have hzero :=
    hcleared 1
      ⟨[0, 1], ⟨by decide +kernel, by decide +kernel, Intrusive.chain_nil.mpr (by decide +kernel)⟩,
        by decide⟩
    (not_queued_of_empty (by decide +kernel) 1)
  exact absurd (congrArg StreamMeta.chan hzero) (by decide +kernel)

end AjaDriver
