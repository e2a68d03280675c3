/-
# What one step does to the pages

`Moves` lists the ways a step of a well-behaved client or of an interrupt can
move pages between the client, the FIFO, the channels and the free ones, with
what it does to the level and the metadata; `Sys.Inv.step` is the inversion:
every step is one of them and keeps the invariant.
-/
import AjaDriver.Client

namespace AjaDriver

open Function Word Pool Card

variable {TC : Type}

/-! ### What a client leaves alone -/

/-- What no operation of a client touches: the channels' pages and registers,
the setting, the drops. -/
structure Calm (c d : Card TC) : Prop where
  last : d.stream.last = c.stream.last
  outputs : d.outputs = c.outputs
  inputs : d.inputs = c.inputs
  flags : d.stream.flags = c.stream.flags
  pagect : d.stream.pagect = c.stream.pagect
  chans : d.stream.chans = c.stream.chans
  drops : d.stream.drop.count = c.stream.drop.count

theorem Calm.of_view {c d : Card TC} (h : d.view = c.view)
    (hd : d.stream.drop.count = c.stream.drop.count) : Calm c d :=
  ⟨last_of_view h, outputs_of_view h, inputs_of_view h, flags_of_view h, pagect_of_view h,
    chans_of_view h, hd⟩

theorem Calm.withPool (c : Card TC) (P : Pool) : Calm c (c.withPool P) :=
  ⟨rfl, rfl, rfl, rfl, rfl, rfl, rfl⟩

theorem drops_ioctlStreamStart (c : Card TC) (w : FrameWait) :
    (ioctlStreamStart c w).2.stream.drop.count = c.stream.drop.count := by
  unfold ioctlStreamStart
  split_ifs
  · rfl
  · cases w
    · exact (steady_streamStart _).drops
    · rfl
    · rfl

theorem drops_ioctlStreamStop (c : Card TC) (w : FrameWait) :
    (ioctlStreamStop c w).2.stream.drop.count = c.stream.drop.count := by
  cases w
  · exact (steady_streamStop c).drops
  · rfl
  · rfl

theorem drops_release (c : Card TC) (pid : ℤ) :
    (release c pid).stream.drop.count = c.stream.drop.count := by
  unfold release
  split_ifs
  · exact (steady_streamStop c).drops
  · rfl

theorem drops_ioctlSettrig (c : Card TC) (v : ℤ) :
    (ioctlSettrig c v).2.stream.drop.count = c.stream.drop.count := by
  unfold ioctlSettrig
  split_ifs <;> rfl

/-- `d` is `c` but for what no page depends on. -/
structure Still (c d : Card TC) : Prop where
  calm : Calm c d
  keeps : c.stream.pool.Keeps d.stream.pool
  pagemeta : d.stream.pagemeta = c.stream.pagemeta

theorem Still.of_view {c d : Card TC} (h : d.view = c.view)
    (hd : d.stream.drop.count = c.stream.drop.count) :
    Still c d :=
  ⟨.of_view h hd, by rw [pool_of_view h]; exact ⟨rfl, rfl, rfl, rfl⟩, pagemeta_of_view h⟩

theorem still_getmeta (c : Card TC) (page : ℤ) : Still c (ioctlGetmeta c page).2 := by
  unfold ioctlGetmeta
  split_ifs
  · exact .of_view rfl rfl
  · exact ⟨Calm.withPool _ _, keeps_touch _ _ _, rfl⟩

theorem still_setmeta (c : Card TC) (page : ℤ) (m : StreamMeta TC) :
    Calm c (ioctlSetmeta c page m).2 ∧ c.stream.pool.Keeps (ioctlSetmeta c page m).2.stream.pool ∧
      ∀ a ≠ page, (ioctlSetmeta c page m).2.stream.pagemeta a = c.stream.pagemeta a := by
  unfold ioctlSetmeta
  split_ifs
  · exact ⟨.of_view rfl rfl, ⟨rfl, rfl, rfl, rfl⟩, fun _ _ => rfl⟩
  · exact ⟨⟨rfl, rfl, rfl, rfl, rfl, rfl, rfl⟩, keeps_touch _ _ _, fun a ha => update_of_ne ha ..⟩

/-! ### The invariant, kept -/

namespace Sys

/-- The invariant after a step that leaves the channels alone. -/
theorem Inv.next {m : Mode} {k : ℕ} {s t : Sys TC} {q r : List ℤ} (h : s.Inv m k q)
    (hc : Calm s.card t.card) (hh : t.card.stream.pool.Holds r)
    (hr : wrap t.card.stream.pool.fifo = t.card.stream.pool.fifo)
    (hn : (t.held ++ (r ++ s.card.lastPages)).Nodup)
    (hi : ∀ p ∈ t.held ++ (r ++ s.card.lastPages), t.card.stream.pool.inuse p = true)
    (hv : ∀ p ∈ t.held ++ (r ++ s.card.lastPages), 0 ≤ p ∧ p < 64) : t.Inv m k r := by
  have ho : t.owned r = t.held ++ (r ++ s.card.lastPages) := by
    unfold owned; rw [lastPages_congr hc.last]
  refine ⟨?_, ?_, h.pos, h.two, ?_, hh, hr, ?_, ho ▸ hn, ho ▸ hi, ho ▸ hv⟩
  · rw [hc.flags]; exact h.mode
  · rw [hc.chans]; exact h.chans
  · rw [hc.pagect]; exact h.pagect
  · intro i h0 h2
    rw [hc.last]
    exact h.typed i h0 h2

/-- A step that only moves owned pages about, with no change of use. -/
theorem Inv.moved {m : Mode} {k : ℕ} {s t : Sys TC} {q r : List ℤ} (h : s.Inv m k q)
    (hc : Calm s.card t.card) (hh : t.card.stream.pool.Holds r)
    (hr : wrap t.card.stream.pool.fifo = t.card.stream.pool.fifo)
    (hu : t.card.stream.pool.inuse = s.card.stream.pool.inuse)
    (hp : (t.held ++ (r ++ s.card.lastPages)).Perm (s.owned q)) : t.Inv m k r :=
  h.next hc hh hr (hp.nodup_iff.mpr h.nodup)
    (fun p e => by rw [hu]; exact h.inuse p (hp.mem_iff.mp e))
    fun p e => h.valid p (hp.mem_iff.mp e)

end Sys

/-! ### Moves -/

variable [Timecode TC]

/-- The operations that move no page. -/
def Quiet : Op TC → Prop
  | .streamInit _ _ => False
  | .setmeta _ _ => False
  | .pageAlloc => False
  | .pageFree _ => False
  | .fifoPush _ => False
  | .fifoPop => False
  | .frame irq => irq.field = true
  | _ => True

/-- The ways a step moves pages: the FIFO held the first list before it and
the second after it. -/
inductive Moves (k : ℕ) (s t : Sys TC) : Op TC → List ℤ → List ℤ → Prop
  /-- No page moves: a quiet operation, or an allocation that found none. -/
  | quiet {op : Op TC} {q : List ℤ} (hop : Quiet op ∨ op = .pageAlloc) (calm : Calm s.card t.card)
      (keeps : s.card.stream.pool.Keeps t.card.stream.pool)
      (pagemeta : t.card.stream.pagemeta = s.card.stream.pagemeta) (held : t.held = s.held)
      (pushed : t.pushed = s.pushed) (popped : t.popped = s.popped) : Moves k s t op q q
  | setmeta {page : ℤ} {m : StreamMeta TC} {q : List ℤ} (calm : Calm s.card t.card)
      (keeps : s.card.stream.pool.Keeps t.card.stream.pool)
      (pagemeta : ∀ a ≠ page, t.card.stream.pagemeta a = s.card.stream.pagemeta a)
      (held : t.held = s.held) (pushed : t.pushed = s.pushed) (popped : t.popped = s.popped) :
      Moves k s t (.setmeta page m) q q
  | alloc {p : ℤ} {q : List ℤ} (calm : Calm s.card t.card)
      (free : s.card.stream.pool.inuse p = false)
      (inuse : t.card.stream.pool.inuse = update s.card.stream.pool.inuse p true)
      (fifo : t.card.stream.pool.fifo = s.card.stream.pool.fifo)
      (pagemeta : t.card.stream.pagemeta = s.card.stream.pagemeta) (held : t.held = p :: s.held)
      (pushed : t.pushed = s.pushed) (popped : t.popped = s.popped) : Moves k s t .pageAlloc q q
  | free {p : ℤ} {q : List ℤ} (calm : Calm s.card t.card) (mem : p ∈ s.held)
      (inuse : t.card.stream.pool.inuse = update s.card.stream.pool.inuse p false)
      (fifo : t.card.stream.pool.fifo = s.card.stream.pool.fifo)
      (pagemeta : t.card.stream.pagemeta = s.card.stream.pagemeta) (held : t.held = s.held.erase p)
      (pushed : t.pushed = s.pushed) (popped : t.popped = s.popped) : Moves k s t (.pageFree p) q q
  | push {p : ℤ} {q : List ℤ} (calm : Calm s.card t.card) (mem : p ∈ s.held)
      (inuse : t.card.stream.pool.inuse = s.card.stream.pool.inuse)
      (fifo : t.card.stream.pool.fifo = wrap (s.card.stream.pool.fifo + 1))
      (pagemeta : t.card.stream.pagemeta = s.card.stream.pagemeta) (held : t.held = s.held.erase p)
      (pushed : t.pushed = s.pushed ++ [p]) (popped : t.popped = s.popped) :
      Moves k s t (.fifoPush p) q (q ++ [p])
  | popNil (calm : Calm s.card t.card) (inuse : t.card.stream.pool.inuse = s.card.stream.pool.inuse)
      (fifo : t.card.stream.pool.fifo = wrap (s.card.stream.pool.fifo - 1))
      (pagemeta : t.card.stream.pagemeta = s.card.stream.pagemeta) (held : t.held = s.held)
      (pushed : t.pushed = s.pushed) (popped : t.popped = s.popped) : Moves k s t .fifoPop [] []
  | popCons {p : ℤ} {q : List ℤ} (calm : Calm s.card t.card)
      (inuse : t.card.stream.pool.inuse = s.card.stream.pool.inuse)
      (fifo : t.card.stream.pool.fifo = wrap (s.card.stream.pool.fifo - 1))
      (pagemeta : t.card.stream.pagemeta = s.card.stream.pagemeta) (held : t.held = p :: s.held)
      (pushed : t.pushed = s.pushed) (popped : t.popped = s.popped ++ [p]) :
      Moves k s t .fifoPop (p :: q) q
  | play {irq : FrameIrq TC} {q : List ℤ} (mode : Mode.playback.Of s.card.stream.flags)
      (field : irq.field = false) (frame : PlayFrame s.card t.card q (s.card.playStep k q))
      (held : t.held = s.held) (pushed : t.pushed = s.pushed) (popped : t.popped = s.popped) :
      Moves k s t (.frame irq) q (q.drop (s.card.playStep k q).pops)
  | arm {irq : FrameIrq TC} {q : List ℤ} (mode : Mode.capture.Of s.card.stream.flags)
      (field : irq.field = false) (frame : ArmFrame s.card t.card q (s.card.armStep k))
      (held : t.held = s.held) (pushed : t.pushed = s.pushed) (popped : t.popped = s.popped) :
      Moves k s t (.frame irq) q (q ++ s.card.lastPages)

/-- A quiet operation moves no page. -/
theorem exec_quiet (M : ModParams) (c : Card TC) {op : Op TC} (h : Quiet op) :
    Still c (exec M c op).2 := by
  cases op with
  | streamStart w => exact .of_view (view_ioctlStreamStart c w) (drops_ioctlStreamStart c w)
  | streamStop w => exact .of_view (view_ioctlStreamStop c w) (drops_ioctlStreamStop c w)
  | release pid => exact .of_view (view_release c pid) (drops_release c pid)
  | getmeta page => exact still_getmeta c page
  | setspeed v => exact .of_view rfl rfl
  | settrig v => exact .of_view (view_ioctlSettrig c v) (drops_ioctlSettrig c v)
  | aframeAdd n => exact .of_view rfl rfl
  | timecodeSetflags f => exact .of_view rfl rfl
  | timecodeClrflags f => exact .of_view rfl rfl
  | timecodeSet tc => exact .of_view rfl rfl
  | frame irq =>
    refine .of_view (view_handleFrame_second h c) ?_
    show (handleFrame irq c).stream.drop.count = _
    rw [stream_handleFrame_second h]
  | streamInit _ _ | setmeta _ _ | pageAlloc | pageFree _ | fifoPush _ | fifoPop =>
    exact absurd h id

theorem books_quiet (M : ModParams) (s : Sys TC) {op : Op TC} (h : Quiet op) :
    (s.step M op).held = s.held ∧ (s.step M op).pushed = s.pushed ∧
      (s.step M op).popped = s.popped := by
  cases op with
  | pageAlloc | pageFree _ | fifoPush _ | fifoPop => exact absurd h id
  | _ => exact ⟨rfl, rfl, rfl⟩

namespace Sys

/-- An allocation takes a page nobody owns, or none. -/
theorem Inv.alloc {m : Mode} {k : ℕ} {s : Sys TC} {q : List ℤ} (h : s.Inv m k q) (M : ModParams) :
    (s.step M .pageAlloc).Inv m k q ∧ Moves k s (s.step M .pageAlloc) .pageAlloc q q := by
  set t := s.step M .pageAlloc with ht
  have hcard :
      t.card = s.card.withPool (s.card.stream.pool.streamPageAlloc s.card.stream.pagect).2 := rfl
  have hheld : t.held = if 0 ≤ (s.card.stream.pool.streamPageAlloc s.card.stream.pagect).1 then
      (s.card.stream.pool.streamPageAlloc s.card.stream.pagect).1 :: s.held else s.held := rfl
  have hcalm : Calm s.card t.card := Calm.withPool _ _
  rcases s.card.stream.pool.alloc_cases s.card.stream.pagect with ⟨p, h0, hlt, -, hr, hk⟩
    | ⟨-, hr, hk⟩
  · have hnot : p ∉ s.owned q := fun e => by
      have := h.inuse p e
      rw [hk.free] at this
      simp at this
    have hpq : p ∉ q := fun e => hnot (List.mem_append_right _ (List.mem_append_left _ e))
    have hh : t.held = p :: s.held := by rw [hheld, hr, if_pos h0]
    have hpool : t.card.stream.pool.inuse = update s.card.stream.pool.inuse p true := hk.inuse
    have hp64 := h.pagect
    have hfifo : t.card.stream.pool.fifo = s.card.stream.pool.fifo := hk.fifo
    refine ⟨h.next hcalm (h.holds.takes hk hpq) (by rw [hfifo]; exact h.ranged) ?_ ?_ ?_,
      .alloc hcalm hk.free hpool hfifo rfl hh rfl rfl⟩
    · rw [hh]
      exact List.nodup_cons.mpr ⟨hnot, h.nodup⟩
    · rw [hh, hpool]
      refine List.forall_mem_cons.mpr ⟨update_self .., fun a ha => ?_⟩
      have hap : a ≠ p := fun e => hnot (e ▸ ha)
      rw [update_of_ne hap]
      exact h.inuse a ha
    · rw [hh]
      exact List.forall_mem_cons.mpr ⟨⟨h0, by omega⟩, h.valid⟩
  · have hh : t.held = s.held := by rw [hheld, hr, if_neg (by decide)]
    have hfifo : t.card.stream.pool.fifo = s.card.stream.pool.fifo := hk.fifo
    exact ⟨h.moved hcalm (h.holds.keeps hk) (by rw [hfifo]; exact h.ranged) hk.inuse
      (by rw [hh]; rfl), .quiet (Or.inr rfl) hcalm hk rfl hh rfl rfl⟩

/-- A held page is freed. -/
theorem Inv.free {m : Mode} {k : ℕ} {s : Sys TC} {q : List ℤ} (h : s.Inv m k q) (M : ModParams)
    {p : ℤ} (hp : p ∈ s.held) :
    (s.step M (.pageFree p)).Inv m k q ∧ Moves k s (s.step M (.pageFree p)) (.pageFree p) q q := by
  set t := s.step M (.pageFree p) with ht
  have hcalm : Calm s.card t.card := Calm.withPool _ _
  obtain ⟨h0, h64⟩ := h.valid p (List.mem_append_left _ hp)
  have hu : t.card.stream.pool.inuse = update s.card.stream.pool.inuse p false :=
    inuse_free _ h0 h64
  have hfifo : t.card.stream.pool.fifo = s.card.stream.pool.fifo := fifo_free _ _
  have hheld : t.held = s.held.erase p := rfl
  have hperm : (s.owned q).Perm (p :: (t.held ++ (q ++ s.card.lastPages))) := by
    rw [hheld]
    exact (List.perm_cons_erase hp).append_right _
  have hnd := hperm.nodup_iff.mp h.nodup
  have hsub : ∀ a ∈ t.held ++ (q ++ s.card.lastPages), a ∈ s.owned q :=
    fun a ha => hperm.mem_iff.mpr (List.mem_cons_of_mem _ ha)
  refine ⟨h.next hcalm (h.holds.free p) (by rw [hfifo]; exact h.ranged) (List.nodup_cons.mp hnd).2
    (fun a ha => ?_)
    fun a ha => h.valid a (hsub a ha), .free hcalm hp hu hfifo rfl hheld rfl rfl⟩
  have hap : a ≠ p := fun e => (List.nodup_cons.mp hnd).1 (e ▸ ha)
  rw [hu, update_of_ne hap]
  exact h.inuse a (hsub a ha)

/-- A held page is queued. -/
theorem Inv.push {m : Mode} {k : ℕ} {s : Sys TC} {q : List ℤ} (h : s.Inv m k q) (M : ModParams)
    {p : ℤ} (hp : p ∈ s.held) :
    (s.step M (.fifoPush p)).Inv m k (q ++ [p]) ∧ Moves k s (s.step M (.fifoPush p))
    (.fifoPush p) q (q ++ [p]) := by
  set t := s.step M (.fifoPush p) with ht
  have hcalm : Calm s.card t.card := Calm.withPool _ _
  obtain ⟨h0, h64⟩ := h.valid p (List.mem_append_left _ hp)
  have hr := s.card.stream.pool.push_ret h0 h64
  have hheld : t.held = s.held.erase p := if_pos hr
  have hpushed : t.pushed = s.pushed ++ [p] := if_pos hr
  have hfifo : t.card.stream.pool.fifo = wrap (s.card.stream.pool.fifo + 1) := fifo_push _ h0 h64
  have hu : t.card.stream.pool.inuse = s.card.stream.pool.inuse := inuse_push _ _
  have hpq : p ∉ q := fun e =>
    (List.nodup_append.mp h.nodup).2.2 p hp p (List.mem_append_left _ e) rfl
  have hperm : (t.held ++ (q ++ [p] ++ s.card.lastPages)).Perm (s.owned q) := by
    rw [hheld]
    calc s.held.erase p ++ (q ++ [p] ++ s.card.lastPages)
      _ = (s.held.erase p ++ q) ++ p :: s.card.lastPages := by simp
      _ |>.Perm (p :: ((s.held.erase p ++ q) ++ s.card.lastPages)) := List.perm_middle
      _ = (p :: s.held.erase p) ++ (q ++ s.card.lastPages) := by simp
      _ |>.Perm (s.held ++ (q ++ s.card.lastPages)) := (List.perm_cons_erase hp).symm.append_right _
  exact ⟨h.moved hcalm (h.holds.push h0 h64 hpq) (by rw [hfifo, wrap_wrap]) hu hperm,
    .push hcalm hp hu hfifo rfl hheld hpushed rfl⟩

/-- The oldest page goes to the client, if there is one. -/
theorem Inv.pop {m : Mode} {k : ℕ} {s : Sys TC} {q : List ℤ} (h : s.Inv m k q) (M : ModParams) :
    (s.step M .fifoPop).Inv m k q.tail ∧ Moves k s (s.step M .fifoPop) .fifoPop q q.tail := by
  set t := s.step M .fifoPop with ht
  have hcalm : Calm s.card t.card := Calm.withPool _ _
  have hu : t.card.stream.pool.inuse = s.card.stream.pool.inuse := inuse_pop _
  have hfifo : t.card.stream.pool.fifo = wrap (s.card.stream.pool.fifo - 1) := fifo_pop _
  cases q with
  | nil =>
    obtain ⟨hr, hh⟩ := h.holds.pop_nil
    have hneg : ¬ 0 ≤ s.card.stream.pool.streamFifoPop.1 := by rw [hr]; decide
    have hheld : t.held = s.held := if_neg hneg
    have hpopped : t.popped = s.popped := if_neg hneg
    exact ⟨h.moved hcalm hh (by rw [hfifo, wrap_wrap]) hu (by rw [hheld]; rfl),
      .popNil hcalm hu hfifo rfl hheld rfl hpopped⟩
  | cons p q =>
    obtain ⟨hr, hh⟩ := h.holds.pop_cons
    have hp0 := (h.holds.valid p (List.mem_cons_self ..)).1
    have hpos : 0 ≤ s.card.stream.pool.streamFifoPop.1 := by rw [hr]; exact hp0
    have hheld : t.held = p :: s.held := (if_pos hpos).trans (congrArg (· :: s.held) hr)
    have hpopped : t.popped = s.popped ++ [p] := (if_pos hpos).trans (congrArg (s.popped ++ [·]) hr)
    have hperm : (t.held ++ (q ++ s.card.lastPages)).Perm (s.owned (p :: q)) := by
      rw [hheld]
      exact List.perm_middle.symm
    exact ⟨h.moved hcalm hh (by rw [hfifo, wrap_wrap]) hu hperm,
      .popCons hcalm hu hfifo rfl hheld rfl hpopped⟩

/-- A new frame of a playback stream carries out the card's next step. -/
theorem Inv.playFrame {k : ℕ} {s : Sys TC} {q : List ℤ} (h : s.Inv .playback k q) (M : ModParams)
    {irq : FrameIrq TC} (hf : irq.field = false) : PlayFrame s.card (s.step M (.frame irq)).card q
      (s.card.playStep k q) :=
  handleFrame_playback hf h.mode h.chans h.pos h.two h.holds h.ranged h.typed fun p hp =>
    h.valid p (List.mem_append_right _ (List.mem_append_right _ hp))

/-- A new frame of a playback stream: last pages become free, and of the pages
the FIFO gives up, those loaded are the last pages now. -/
theorem Inv.play {k : ℕ} {s : Sys TC} {q : List ℤ} (h : s.Inv .playback k q) (M : ModParams)
    {irq : FrameIrq TC} (hf : irq.field = false) :
    (s.step M (.frame irq)).Inv .playback k (q.drop (s.card.playStep k q).pops) ∧
      Moves k s (s.step M (.frame irq)) (.frame irq) q (q.drop (s.card.playStep k q).pops) := by
  set t := s.step M (.frame irq) with ht
  set e := s.card.playStep k q with he
  have hframe : PlayFrame s.card t.card q e := h.playFrame M hf
  have hsub : (e.loaded ++ q.drop e.pops).Sublist q := by
    rw [he]
    unfold playStep
    split_ifs
    · exact playPlan_sublist ..
    · exact List.Sublist.refl q
  have hown : (t.owned (q.drop e.pops)).Perm (s.held ++ (e.loaded ++ q.drop e.pops)) := by
    unfold owned
    rw [hframe.lastPages]
    exact List.perm_append_comm.append_left _
  have hsub' : (s.held ++ (e.loaded ++ q.drop e.pops)).Sublist (s.held ++ q) := hsub.append_left _
  have hheldq : (s.held ++ q ++ s.card.lastPages).Nodup := by rw [List.append_assoc]; exact h.nodup
  have hmem : ∀ p ∈ t.owned (q.drop e.pops), p ∈ s.held ++ q :=
    fun p hp => hsub'.subset (hown.mem_iff.mp hp)
  have hmem' : ∀ p ∈ s.held ++ q, p ∈ s.owned q := fun p hp => by
    unfold owned
    rw [← List.append_assoc]
    exact List.mem_append_left _ hp
  refine ⟨⟨?_, ?_, h.pos, h.two, ?_,
    hframe.holds, by rw [hframe.fifo, wrap_wrap], hframe.typed, ?_, fun p hp => ?_,
    fun p hp => h.valid p (hmem' p (hmem p hp))⟩, .play h.mode hf hframe rfl rfl rfl⟩
  · rw [hframe.flags]; exact h.mode
  · rw [hframe.chans]; exact h.chans
  · rw [hframe.pagect]; exact h.pagect
  · exact hown.nodup_iff.mpr ((List.nodup_append.mp hheldq).1.sublist hsub')
  · have hlast : p ∉ s.card.lastPages :=
      fun e => (List.nodup_append.mp hheldq).2.2 p (hmem p hp) p e rfl
    rw [hframe.inuse, h.inuse p (hmem' p (hmem p hp))]
    simp [hlast]

/-- A new frame of a capture stream carries out the card's next step. -/
theorem Inv.armFrame {k : ℕ} {s : Sys TC} {q : List ℤ} (h : s.Inv .capture k q) (M : ModParams)
    {irq : FrameIrq TC} (hf : irq.field = false) :
    ArmFrame s.card (s.step M (.frame irq)).card q (s.card.armStep k) :=
  handleFrame_capture hf h.mode h.chans h.two h.holds h.ranged h.typed
    (fun p hp => h.valid p (List.mem_append_right _ (List.mem_append_right _ hp)))
    (List.nodup_append.mp h.nodup).2.1 fun p hp => h.inuse p (List.mem_append_right _ hp)

/-- A new frame of a capture stream: the last pages join the FIFO, and free
pages are the last pages now. -/
theorem Inv.arm {k : ℕ} {s : Sys TC} {q : List ℤ} (h : s.Inv .capture k q) (M : ModParams)
    {irq : FrameIrq TC} (hf : irq.field = false) :
    (s.step M (.frame irq)).Inv .capture k (q ++ s.card.lastPages) ∧
      Moves k s (s.step M (.frame irq)) (.frame irq) q (q ++ s.card.lastPages) := by
  set t := s.step M (.frame irq) with ht
  set e := s.card.armStep k with he
  have hframe : ArmFrame s.card t.card q e := h.armFrame M hf
  have harmed : e.armed.Nodup ∧ ∀ p ∈ e.armed,
      (0 ≤ p ∧ p < s.card.stream.pagect) ∧ s.card.stream.pool.inuse p = false := by
    rw [he]
    unfold armStep
    split_ifs
    · exact armPlan_armed ..
    · exact ⟨List.nodup_nil, by simp⟩
  have hown : t.owned (q ++ s.card.lastPages) = s.owned q ++ e.armed := by
    show s.held ++ (q ++ s.card.lastPages ++ t.card.lastPages) = s.held ++
      (q ++ s.card.lastPages) ++ e.armed
    rw [hframe.lastPages, List.append_assoc, List.append_assoc, List.append_assoc]
  have hpagect := h.pagect
  refine ⟨⟨?_, ?_, h.pos, h.two, ?_,
    hframe.holds, by rw [hframe.fifo, wrap_wrap], hframe.typed, ?_, fun p hp => ?_,
    fun p hp => ?_⟩, .arm h.mode hf hframe rfl rfl rfl⟩
  · rw [hframe.flags]; exact h.mode
  · rw [hframe.chans]; exact h.chans
  · rw [hframe.pagect]; exact h.pagect
  · rw [hown, List.nodup_append]
    refine ⟨h.nodup, harmed.1, fun a ha b hb hab => ?_⟩
    have hfree := (harmed.2 b hb).2
    rw [← hab, h.inuse a ha] at hfree
    simp at hfree
  · rw [hframe.inuse]
    rw [hown, List.mem_append] at hp
    rcases hp with hp | hp
    · simp [h.inuse p hp]
    · simp [hp]
  · rw [hown, List.mem_append] at hp
    rcases hp with hp | hp
    · exact h.valid p hp
    · have := (harmed.2 p hp).1
      omega

/-- Every step of a run keeps the invariant, and is one of the moves. -/
theorem Inv.step {m : Mode} {k : ℕ} {s : Sys TC} {q : List ℤ} (h : s.Inv m k q) (M : ModParams)
    {op : Op TC} (hc : Client s op) :
    ∃ r, (s.step M op).Inv m k r ∧ Moves k s (s.step M op) op q r := by
  by_cases hop : Quiet op
  · obtain ⟨hcalm, hk, hm⟩ := exec_quiet M s.card hop
    obtain ⟨h1, h2, h3⟩ := books_quiet M s hop
    have hfifo : (s.step M op).card.stream.pool.fifo = s.card.stream.pool.fifo := hk.fifo
    exact ⟨q, h.moved hcalm (h.holds.keeps hk) (by rw [hfifo]; exact h.ranged) hk.inuse
      (by rw [h1]; rfl), .quiet (Or.inl hop) hcalm hk hm h1 h2 h3⟩
  · cases op with
    | setmeta page mt =>
      obtain ⟨hcalm, hk, hm⟩ := still_setmeta s.card page mt
      have hfifo : (s.step M (.setmeta page mt)).card.stream.pool.fifo = s.card.stream.pool.fifo :=
        hk.fifo
      exact ⟨q, h.moved hcalm (h.holds.keeps hk) (by rw [hfifo]; exact h.ranged) hk.inuse (.refl _),
        .setmeta hcalm hk hm rfl rfl rfl⟩
    | pageAlloc => exact ⟨q, h.alloc M⟩
    | pageFree p => exact ⟨q, h.free M hc⟩
    | fifoPush p => exact ⟨q ++ [p], h.push M hc⟩
    | fifoPop => exact ⟨q.tail, h.pop M⟩
    | frame irq =>
      have hf : irq.field = false := by simpa [Quiet] using hop
      cases m with
      | playback => exact ⟨_, h.play M hf⟩
      | capture => exact ⟨_, h.arm M hf⟩
    | streamInit _ _ => exact absurd hc id
    | _ => exact absurd trivial hop

/-- In every state of a run the invariant holds of some contents of the FIFO. -/
theorem reach_inv {M : ModParams} {c : Card TC} {pid : ℤ} {i : StreamInit} {m : Mode}
    (hm : m.Of i.flags) {ok : Sys TC → Op TC → Prop} (hok : ∀ s op, ok s op → Client s op)
    {t : Sys TC} (hr : Runs.Reach (Sys.step M) ok (Sys.init c pid i) t) :
    ∃ q, t.Inv m (clampChans i.chans).toNat q := by
  refine hr.inv (I := fun t : Sys TC => ∃ q, t.Inv m _ q) ⟨[], Sys.init_inv c pid hm⟩ ?_
  rintro s op ⟨q, hi⟩ hop
  obtain ⟨r, hir, -⟩ := hi.step M (hok s op hop)
  exact ⟨r, hir⟩

end Sys

end AjaDriver
