/-
# Playback runs

What a playback stream does with its pages over a whole run. A page popped by
a speed bump or by a channel that expects another one is lost: it stays in
use and nobody owns it. Runs whose frames load all they pop lose no page
(`pages_conserved`). The start of a frame frees the displayed pages before
the engine knows whether it has others to show: a displayed page stays in use
exactly when its channel is given a new one (`displayed_inuse`).
-/
import AjaDriver.Level

namespace AjaDriver

open Function Word Pool Card

variable {TC : Type}

/-! ### Conservation -/

/-- The page is reachable from `pfirst` through `next`. -/
def Pool.Queued (P : Pool) (p : ℤ) : Prop :=
  ∃ q, Intrusive.Chain (fun i => (P.pagealloc i).next) P.pfirst q ∧ p ∈ q

theorem queued_iff_of_chain {P : Pool} {q : List ℤ}
    (h : Intrusive.Chain P.links.next P.links.first q) (p : ℤ) :
    P.Queued p ↔ p ∈ q := by
  constructor
  · rintro ⟨r, hr, hp⟩
    rwa [Intrusive.Chain.unique h hr]
  · exact fun hp => ⟨q, h, hp⟩

theorem queued_iff {P : Pool} {q : List ℤ} (h : P.Holds q) (p : ℤ) : P.Queued p ↔ p ∈ q :=
  queued_iff_of_chain h.isQueue.chain p

theorem not_queued_of_empty {P : Pool} (h : P.pfirst = none) (p : ℤ) : ¬ P.Queued p := by
  rintro ⟨q, hq, hp⟩
  rw [h] at hq
  cases q with
  | nil => simp at hp
  | cons a q => simp at hq

/-- Every page in use is held by the client, queued, or waiting to be freed up. -/
def Sys.Conserved (s : Sys TC) : Prop :=
  ∀ p, 0 ≤ p → p < 64 → s.card.stream.pool.inuse p = true →
    p ∈ s.held ∨ s.card.stream.pool.Queued p ∨ p ∈ s.card.lastPages

theorem conserved_iff {s : Sys TC} {q : List ℤ} (h : s.card.stream.pool.Holds q) :
    s.Conserved ↔ ∀ p, 0 ≤ p → p < 64 → s.card.stream.pool.inuse p = true → p ∈ s.owned q := by
  unfold Sys.Conserved Sys.owned
  simp only [queued_iff h, List.mem_append]

variable [Timecode TC]

/-- The new frames of a running stream load every page they pop. -/
def FramesLoadAll (k : ℕ) (s : Sys TC) : Op TC → Prop
  | .frame irq => irq.field = false → s.card.stream.running = true →
      ∀ q, s.card.stream.pool.Holds q → LoadsAll s.card.chanOf k s.card.due q
  | _ => True

/-- Is the operation a `FIFO_POP`? -/
def isPop : Op TC → Bool
  | .fifoPop => true
  | _ => false

/-- A client that never pops. -/
def Feeder (s : Sys TC) (op : Op TC) : Prop := Client s op ∧ isPop op = false

instance (s : Sys TC) (op : Op TC) : Decidable (Feeder s op) := inferInstanceAs (Decidable (_ ∧ _))

omit [Timecode TC] in
/-- A frame that loads all it pops does not run the FIFO dry. -/
theorem LoadsAll.not_runsDry {chanOf : ℤ → ℤ} {k : ℕ} {due : ℤ} {q : List ℤ}
    (h : LoadsAll chanOf k due q) :
    ¬ RunsDry chanOf k due q := by
  rintro ⟨hd, hkq, -, hlt, -⟩
  have h1 := (h hkq hd).1
  rw [show (due - 1).toNat = 0 by omega, Nat.zero_add, Nat.one_mul] at hlt
  omega

omit [Timecode TC] in
theorem noDryPop_of_framesLoadAll {k : ℕ} {s : Sys TC} {op : Op TC} (h : FramesLoadAll k s op)
    (hop : isPop op = false) :
    NoDryPop k s op := by
  cases op with
  | fifoPop => exact absurd hop (by simp [isPop])
  | frame irq => exact fun _ hf hr q hq => (h hf hr q hq).not_runsDry
  | _ => trivial

omit [Timecode TC] in
theorem Quiet.framesLoadAll {k : ℕ} {s : Sys TC} {op : Op TC} (h : Quiet op ∨ op = .pageAlloc) :
    FramesLoadAll k s op := by
  rcases h with h | rfl
  · cases op with
    | frame irq => exact fun hf => by rw [show irq.field = true from h] at hf; simp at hf
    | _ => trivial
  · trivial

/-- What is loaded and what stays is all of the FIFO exactly when the plan
loads all it pops. -/
theorem cover_iff_loadsAll {chanOf : ℤ → ℤ} {k : ℕ} {due : ℤ} {q : List ℤ} (hk : 0 < k)
    (hq : q.Nodup) :
    (∀ p ∈ q, p ∈ (playPlan chanOf k q.length due q).loaded ++
      q.drop (playPlan chanOf k q.length due q).pops) ↔
      LoadsAll chanOf k due q := by
  have hsub := playPlan_sublist chanOf k q.length due q
  constructor
  · intro h
    have hle := (List.subperm_of_subset hq h).length_le
    rw [List.length_append, List.length_drop] at hle
    have hge := hsub.length_le
    rw [List.length_append, List.length_drop] at hge
    by_cases hdry : RunsDry chanOf k due q
    · -- the pages bumped are gone
      rw [playPlan_runsDry hdry] at hle
      simp only [List.length_drop] at hle
      obtain ⟨-, hkq, hfits, hlt, -⟩ := hdry
      rw [Nat.succ_mul] at hlt
      omega
    · have hpops := (playPlan_pops_le hk).mpr hdry
      exact (playPlan_loadsAll hk).mp (by omega)
  · intro h p hp
    have hpops := (playPlan_pops_le hk).mpr h.not_runsDry
    have hall := hsub.eq_of_length (by
      rw [List.length_append, List.length_drop, (playPlan_loadsAll hk).mpr h]
      omega)
    rw [hall]
    exact hp

namespace Sys

omit [Timecode TC] in
/-- A new frame from a conserved state conserves the pages exactly when what it
loads and what it leaves are all the FIFO held. -/
theorem conserved_play {k : ℕ} {s t : Sys TC} {q : List ℤ} (h : s.Inv .playback k q)
    (hc : ∀ p, 0 ≤ p → p < 64 → s.card.stream.pool.inuse p = true → p ∈ s.owned q)
    (hf : PlayFrame s.card t.card q (s.card.playStep k q)) (hheld : t.held = s.held) :
    (∀ p, 0 ≤ p → p < 64 → t.card.stream.pool.inuse p = true →
        p ∈ t.owned (q.drop (s.card.playStep k q).pops)) ↔
      ∀ p ∈ q, p ∈ (s.card.playStep k q).loaded ++ q.drop (s.card.playStep k q).pops := by
  set e := s.card.playStep k q with he
  have hown : ∀ p, p ∈ t.owned (q.drop e.pops) ↔ p ∈ s.held ∨ p ∈ e.loaded ++ q.drop e.pops := by
    intro p
    unfold owned
    rw [hf.lastPages, hheld]
    simp only [List.mem_append]
    tauto
  have hnd := h.nodup
  unfold owned at hnd
  rw [← List.append_assoc] at hnd
  constructor
  · -- a queued page is in use after the frame as before it
    intro hall p hp
    have hpo : p ∈ s.owned q := List.mem_append_right _ (List.mem_append_left _ hp)
    obtain ⟨h0, h64⟩ := h.valid p hpo
    have hlast : p ∉ s.card.lastPages := fun e =>
      (List.nodup_append.mp hnd).2.2 p (List.mem_append_right _ hp) p e rfl
    have huse : t.card.stream.pool.inuse p = true := by rw [hf.inuse, h.inuse p hpo]; simp [hlast]
    rcases (hown p).mp (hall p h0 h64 huse) with hheld' | hp'
    · exact absurd rfl ((List.nodup_append.mp (List.nodup_append.mp hnd).1).2.2 p hheld' p hp)
    · exact hp'
  · intro hall p h0 h64 huse
    rw [hf.inuse, Bool.and_eq_true] at huse
    have hlast : p ∉ s.card.lastPages := by simpa using huse.2
    rw [hown]
    have hpo := hc p h0 h64 huse.1
    unfold owned at hpo
    simp only [List.mem_append] at hpo
    rcases hpo with hp | hp | hp
    · exact Or.inl hp
    · exact Or.inr (hall p hp)
    · exact absurd hp hlast

/-- A step from a conserved state with a right level conserves the pages
exactly when its frames load all they pop. -/
theorem conserved_step {k : ℕ} {s : Sys TC} {q : List ℤ} (h : s.Inv .playback k q)
    (hl : s.card.stream.pool.fifo = q.length) (hc : s.Conserved) {M : ModParams} {op : Op TC}
    (hop : Feeder s op) :
    (s.step M op).Conserved ↔ FramesLoadAll k s op := by
  obtain ⟨r, ht, hm⟩ := h.step M hop.1
  rw [conserved_iff h.holds] at hc
  rw [conserved_iff ht.holds]
  have hlast : ∀ {t : Sys TC}, Calm s.card t.card → t.card.lastPages = s.card.lastPages :=
    fun hcalm => lastPages_congr hcalm.last
  cases hm with
  | quiet hop calm keeps pagemeta held =>
    unfold owned at hc ⊢
    rw [keeps.inuse, held, hlast calm]
    exact ⟨fun _ => Quiet.framesLoadAll hop, fun _ => hc⟩
  | setmeta calm keeps pagemeta held =>
    unfold owned at hc ⊢
    rw [keeps.inuse, held, hlast calm]
    exact ⟨fun _ => trivial, fun _ => hc⟩
  | alloc calm free inuse fifo pagemeta held =>
    refine ⟨fun _ => trivial, fun _ => ?_⟩
    intro p h0 h64 hp
    unfold owned at hc ⊢
    rw [held, hlast calm]
    rw [inuse, update_apply] at hp
    split_ifs at hp with he
    · rw [he]; exact List.mem_cons_self ..
    · exact List.mem_cons_of_mem _ (hc p h0 h64 hp)
  | @free a _ calm mem inuse fifo pagemeta held =>
    refine ⟨fun _ => trivial, fun _ => ?_⟩
    intro p h0 h64 hp
    unfold owned at hc ⊢
    rw [held, hlast calm]
    rw [inuse, update_apply] at hp
    split_ifs at hp with he
    rcases List.mem_append.mp (hc p h0 h64 hp) with hheld | hrest
    · exact List.mem_append_left _ ((List.mem_erase_of_ne he).mpr hheld)
    · exact List.mem_append_right _ hrest
  | @push a _ calm mem inuse fifo pagemeta held =>
    refine ⟨fun _ => trivial, fun _ => ?_⟩
    intro p h0 h64 hp
    unfold owned at hc ⊢
    rw [held, hlast calm]
    rw [inuse] at hp
    have hpo := hc p h0 h64 hp
    simp only [List.mem_append, List.mem_singleton] at hpo ⊢
    by_cases he : p = a
    · exact Or.inr (Or.inl (Or.inr he))
    · rcases hpo with hheld | hq | hla
      · exact Or.inl ((List.mem_erase_of_ne he).mpr hheld)
      · exact Or.inr (Or.inl (Or.inl hq))
      · exact Or.inr (Or.inr hla)
  | popNil => exact absurd hop.2 (by simp [isPop])
  | popCons => exact absurd hop.2 (by simp [isPop])
  | @play irq _ mode field frame held =>
    rw [conserved_play h hc frame held]
    unfold playStep
    by_cases hr : s.card.stream.running = true
    · rw [if_pos hr, hl, cover_iff_loadsAll h.pos h.holds.nodup]
      refine ⟨fun hload _ _ r hr => ?_, fun hload => hload field hr q h.holds⟩
      rw [← h.holds.unique hr]
      exact hload
    · rw [if_neg hr]
      exact ⟨fun _ _ hr' => absurd hr' hr, fun _ p hp => hp⟩
  | arm mode field frame => exact absurd (h.mode.2.mp (mode.2.mpr rfl)) (by decide)

end Sys

/-- In every playback run whose frames load all they pop, no page is lost. -/
theorem pages_conserved {M : ModParams} {c : Card TC} {pid : ℤ} {i : StreamInit}
    (hm : Mode.playback.Of i.flags) {t : Sys TC}
    (hr : Runs.Reach (Sys.step M)
      (fun s op => Feeder s op ∧ FramesLoadAll (clampChans i.chans).toNat s op)
      (Sys.init c pid i) t) : t.Conserved := by
  suffices h : ∃ q, t.Inv .playback (clampChans i.chans).toNat q ∧
    t.card.stream.pool.fifo = q.length ∧ t.Conserved from
    h.choose_spec.2.2
  refine hr.inv (I := fun t : Sys TC => ∃ q, t.Inv .playback _ q ∧
    t.card.stream.pool.fifo = q.length ∧ t.Conserved)
    ?_ ?_
  · have hinit := Sys.init_inv c pid hm
    have hs : (Sys.init c pid i).card.stream = _ := stream_streamInit c pid i
    refine ⟨[], hinit, by rw [hs]; rfl, ?_⟩
    rw [conserved_iff hinit.holds]
    intro p h0 h64 hp
    rw [hs] at hp
    have hfree : c.stream.pool.clear.inuse p = false := inuse_clear _ h0 h64
    rw [show (streamClear c pid).stream.pool = c.stream.pool.clear from rfl, hfree] at hp
    simp at hp
  · rintro s op ⟨q, hi, hl, hc⟩ ⟨hop, hload⟩
    obtain ⟨r, hir, -⟩ := hi.step M hop.1
    have hdry := noDryPop_of_framesLoadAll hload hop.2
    exact ⟨r, hir, (agrees_iff hir.holds).mp ((Sys.agrees_step hi hl hop.1).mpr hdry),
      (Sys.conserved_step hi hl hc hop).mpr hload⟩

omit [Timecode TC] in
/-- A single channel loads the oldest page if it is its own. -/
theorem framesLoadAll_one {s : Sys TC} {p : ℤ} (hfirst : s.card.stream.pool.pfirst = some p)
    (hchan : s.card.chanOf p = 0) (hdue : s.card.due ≤ 1) (irq : FrameIrq TC) :
    FramesLoadAll 1 s (.frame irq) := by
  intro _ _ q hq _ _
  have hhead : some p = q.head? := hfirst.symm.trans hq.isQueue.first_eq
  rw [List.head?_eq_getElem?] at hhead
  refine ⟨hdue, fun j hj => ⟨p, ?_, ?_⟩⟩
  · rw [Nat.lt_one_iff.mp hj]
    exact hhead.symm
  · rw [Nat.lt_one_iff.mp hj]
    exact hchan

/-- One page queued and played. -/
theorem pages_conserved_one :
    ([.pageAlloc, .fifoPush 0, .streamStart .frame, .frame blankFrame].foldl (Sys.step {})
      (Sys.start ajaPlayback 3 1)).Conserved := by
  have hload : FramesLoadAll 1 ([.pageAlloc, .fifoPush 0, .streamStart .frame].foldl (Sys.step {})
      (Sys.start ajaPlayback 3 1)) (.frame blankFrame) :=
    framesLoadAll_one (p := 0) (by decide +kernel) (by decide +kernel) (by decide +kernel) _
  have hrun :
    Runs.Along (Sys.step {}) (fun s op => Feeder s op ∧ FramesLoadAll (clampChans 1).toNat s op)
      (Sys.start ajaPlayback 3 1)
        [.pageAlloc, .fifoPush 0, .streamStart .frame, .frame blankFrame] :=
    ⟨⟨by decide, trivial⟩, ⟨by decide, trivial⟩, ⟨by decide, trivial⟩, ⟨by decide, hload⟩, trivial⟩
  exact pages_conserved (by decide) (Runs.Reach.of_along _ hrun)

/-- At double speed the bump takes a page nobody owns afterwards. -/
theorem bump_loses_page :
    ∃ t : Sys ℕ, Runs.Reach (Sys.step {}) Feeder (Sys.start ajaPlayback 3 1) t ∧ ¬ t.Conserved := by
  have hrun : Runs.Along (Sys.step {}) Feeder (Sys.start ajaPlayback 3 1)
      [.pageAlloc, .fifoPush 0, .pageAlloc, .fifoPush 1, .streamStart .frame, .setspeed 2000000,
        .frame blankFrame] := by decide +kernel
  refine ⟨_, Runs.Reach.of_along _ hrun, fun hc => ?_⟩
  rcases hc 0 le_rfl (by decide) (by decide +kernel) with hheld | hqueued | hlast
  · exact absurd hheld (by decide +kernel)
  · exact absurd hqueued (not_queued_of_empty (by decide +kernel) 0)
  · exact absurd hlast (by decide +kernel)

/-! ### The pages displayed -/

/-- The page last written to a channel's output register is in use. -/
def Sys.DisplayedInUse (s : Sys TC) : Prop :=
  ∀ (n : ℕ) (p : ℤ), lastOn s.card.outputs n = some p → s.card.stream.pool.inuse p = true

/-- At the next new frame every channel that displays a page is given another
one, or its page is in use again with no frame about to free it. -/
def FeedsDisplayed (k : ℕ) (s : Sys TC) : Prop :=
  ∀ (n : ℕ) (p : ℤ), lastOn s.card.outputs n = some p →
    (∃ q, s.card.stream.pool.Holds q ∧ Feeds s.card.chanOf k s.card.stream.pool.fifo
      s.card.due q n) ∨
      (s.card.stream.pool.inuse p = true ∧ p ∉ s.card.lastPages)

omit [Timecode TC] in
/-- The channels that a new frame gives a page are those that the FIFO feeds. -/
theorem Sys.Inv.lt_loaded {s : Sys TC} {k : ℕ} {q : List ℤ} (hi : s.Inv .playback k q)
    (hrun : s.card.stream.running = true) (n : ℕ) :
    n < (s.card.playStep k q).loaded.length ↔
      ∃ q, s.card.stream.pool.Holds q ∧ Feeds s.card.chanOf k s.card.stream.pool.fifo
        s.card.due q n := by
  have he : s.card.playStep k q = playPlan s.card.chanOf k s.card.stream.pool.fifo s.card.due q :=
    if_pos hrun
  rw [he, playPlan_feeds hi.pos]
  refine ⟨fun h => ⟨q, hi.holds, h⟩, ?_⟩
  rintro ⟨r, hr, h⟩
  rwa [hi.holds.unique hr]

/-- After every new frame of a running stream, in every run: the displayed
pages are in use exactly when the frame gave the channels that displayed a page
another one, or their pages were in use again. -/
theorem displayed_inuse {M : ModParams} {c : Card TC} {pid : ℤ} {i : StreamInit}
    (hm : Mode.playback.Of i.flags) {s : Sys TC}
    (hr : Runs.Reach (Sys.step M) Client (Sys.init c pid i) s) {irq : FrameIrq TC}
    (hf : irq.field = false) (hrun : s.card.stream.running = true) :
    (s.step M (.frame irq)).DisplayedInUse ↔ FeedsDisplayed (clampChans i.chans).toNat s := by
  obtain ⟨q, hi⟩ := Sys.reach_inv hm (fun _ _ h => h) hr
  set k := (clampChans i.chans).toNat
  have hi' := (hi.play M hf).1
  have hframe := hi.playFrame M hf
  set t := s.step M (.frame irq)
  have hfeeds := hi.lt_loaded hrun
  set e := s.card.playStep k q
  have hloaded : ∀ p ∈ e.loaded, t.card.stream.pool.inuse p = true := fun p hp => by
    apply hi'.inuse p
    unfold Sys.owned
    rw [hframe.lastPages]
    exact List.mem_append_right _ (List.mem_append_right _ hp)
  -- a channel shows the page it was given by this frame, or what it showed before
  unfold Sys.DisplayedInUse FeedsDisplayed
  rw [hframe.outputs]
  constructor
  · intro h n p hp
    by_cases hn : n < e.loaded.length
    · exact Or.inl ((hfeeds n).mp hn)
    · right
      have huse := h n p ((lastOn_kept _ (not_lt.mp hn)).trans hp)
      rw [hframe.inuse, Bool.and_eq_true] at huse
      exact ⟨huse.1, by simpa using huse.2⟩
  · intro h n p hp
    by_cases hn : n < e.loaded.length
    · rw [lastOn_given _ hn, Option.some.injEq] at hp
      rw [← hp]
      exact hloaded _ (List.get_mem ..)
    · rw [lastOn_kept _ (not_lt.mp hn)] at hp
      rcases h n p hp with hfed | ⟨huse, hlast⟩
      · exact absurd ((hfeeds n).mpr hfed) hn
      · rw [hframe.inuse, huse]
        simp [hlast]

omit [Timecode TC] in
/-- A single channel that shows pages and finds its next one is fed. -/
theorem feedsDisplayed_one {s : Sys TC} {p : ℤ} {q : List ℤ} (hq : s.card.stream.pool.Holds q)
    (hfirst : s.card.stream.pool.pfirst = some p) (hchan : s.card.chanOf p = 0)
    (hdue : s.card.due = 1) (hlevel : 1 ≤ s.card.stream.pool.fifo)
    (hone : ∀ e ∈ s.card.outputs, e.1 = 0) : FeedsDisplayed 1 s := by
  intro n a ha
  have hn : n = 0 := by
    by_contra hne
    have hnone : (s.card.outputs.filter fun e => e.1 = (n : ℤ)) = [] := by
      apply List.filter_eq_nil_iff.mpr
      intro e he
      rw [hone e he, decide_eq_true_iff]
      exact fun h0 => hne (by exact_mod_cast h0.symm)
    unfold lastOn at ha
    rw [hnone] at ha
    simp at ha
  have hhead : some p = q.head? := hfirst.symm.trans hq.isQueue.first_eq
  rw [List.head?_eq_getElem?] at hhead
  refine Or.inl ⟨q, hq, ?_⟩
  rw [hn, hdue]
  refine ⟨by decide, by simpa using hlevel, by decide, by simp; omega, fun j hj => ⟨p, ?_, ?_⟩⟩
  · rw [Nat.le_zero.mp hj]
    exact hhead.symm
  · rw [Nat.le_zero.mp hj]
    exact hchan

/-- Two pages shown one after the other on a single channel. -/
theorem displayed_inuse_two :
    ([.pageAlloc, .fifoPush 0, .pageAlloc, .fifoPush 1, .streamStart .frame, .frame blankFrame,
      .frame blankFrame].foldl (Sys.step {}) (Sys.start ajaPlayback 3 1)).DisplayedInUse := by
  have hrun : Runs.Along (Sys.step {}) Client (Sys.start ajaPlayback 3 1)
      [.pageAlloc, .fifoPush 0, .pageAlloc, .fifoPush 1, .streamStart .frame,
        .frame blankFrame] := by decide +kernel
  have hreach := Runs.Reach.of_along _ hrun
  obtain ⟨q, hi⟩ := Sys.reach_inv (m := .playback) (by decide) (fun _ _ h => h) hreach
  have hfeeds := feedsDisplayed_one (p := 1) hi.holds (by decide +kernel) (by decide +kernel)
    (by decide +kernel)
    (by decide +kernel) (by decide +kernel)
  have hframe : blankFrame.field = false := rfl
  exact (displayed_inuse (by decide) hreach hframe (by decide +kernel)).mpr hfeeds

/-- A second frame with nothing queued frees the page still displayed. -/
theorem underflow_frees_displayed :
    ∃ s : Sys ℕ, Runs.Reach (Sys.step {}) Feeder (Sys.start ajaPlayback 3 1) s ∧
      s.card.stream.running = true ∧ ¬ (s.step {} (.frame blankFrame)).DisplayedInUse := by
  have hrun : Runs.Along (Sys.step {}) Feeder (Sys.start ajaPlayback 3 1)
      [.pageAlloc, .fifoPush 0, .streamStart .frame, .frame blankFrame] := by decide +kernel
  refine ⟨_, Runs.Reach.of_along _ hrun, by decide +kernel, fun h => ?_⟩
  exact absurd (h 0 0 (by decide +kernel)) (by decide +kernel)

end AjaDriver
