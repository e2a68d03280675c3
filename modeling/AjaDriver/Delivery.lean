/-
# Delivery at normal speed

A client that pushes its pages in channel order and leaves the speed at 1x:
the channels are given exactly the pages pushed, in order, a frame is dropped
exactly when it finds fewer pages than channels, and a displayed page becomes
free at the next new frame and not before (`exact_delivery`).

The invariant `Delivers` ties the FIFO to the client's record: the pages
pushed are those displayed, a whole number of frames, followed by those
queued, and the page at place `j` of the FIFO is one of channel `j mod k`.
-/
import AjaDriver.Playback

namespace AjaDriver

open Function Word Pool Card

variable {TC : Type}

/-! ### In turn -/

/-- The pages `l` given to `k` channels in turn, each with its channel. -/
def inTurn (k : ℕ) (l : List ℤ) : List (ℤ × ℤ) := l.mapIdx fun j p => (((j % k : ℕ) : ℤ), p)

theorem tag_eq_mapIdx : ∀ (n : ℤ) (l : List ℤ), tag n l = l.mapIdx fun j p => (n + j, p)
  | _, [] => rfl
  | n, p :: l => by
    rw [tag, tag_eq_mapIdx (n + 1) l, List.mapIdx_cons]
    simp only [Nat.cast_zero, add_zero, List.cons.injEq, true_and]
    congr 1
    funext j a
    push_cast
    ring_nf

/-- A frame's pages go on where whole frames stopped. -/
theorem inTurn_append {k : ℕ} {l m : List ℤ} (hl : k ∣ l.length) (hm : m.length ≤ k) :
    inTurn k (l ++ m) = inTurn k l ++ tag 0 m := by
  unfold inTurn
  rw [List.mapIdx_append, tag_eq_mapIdx]
  congr 1
  apply List.ext_getElem (by simp)
  intro j h1 h2
  have hj : j < k := by
    rw [List.length_mapIdx] at h1
    omega
  have hmod : (j + l.length) % k = j := by
    obtain ⟨n, hn⟩ := hl
    rw [hn, Nat.add_mul_mod_self_left, Nat.mod_eq_of_lt hj]
  rw [List.getElem_mapIdx, List.getElem_mapIdx, hmod, zero_add]

/-- The plan of a frame at normal speed whose pages are in order. -/
theorem playPlan_normal {chanOf : ℤ → ℤ} {k : ℕ} (hk : 0 < k) {q : List ℤ}
    (h : k ≤ q.length → InOrder chanOf k q) :
    playPlan chanOf k q.length 1 q = if q.length < k then ⟨0, [], 1⟩ else ⟨k, q.take k, 0⟩ := by
  by_cases hl : q.length < k
  · unfold playPlan
    rw [if_pos (by omega), if_pos hl]
  · have hfull := @playPlan_full chanOf k hk 0 q
    rw [Nat.zero_mul, List.drop_zero, Nat.zero_add] at hfull
    rw [if_neg hl]
    exact hfull (not_lt.mp hl) (h (not_lt.mp hl))

/-! ### The speed -/

/-- The stream runs at normal speed, with nothing in the accumulator. -/
def AtOne (c : Card TC) : Prop := c.stream.speed = ajaSpeedDivisor ∧ c.stream.spdct = 0

/-- At normal speed one frame is due at every frame, and nothing is left over. -/
theorem AtOne.speedcount {c : Card TC} (h : AtOne c) :
    (streamSpeedcount c.stream).1 = 1 ∧ (streamSpeedcount c.stream).2.spdct = 0 := by
  unfold streamSpeedcount
  simp only
  rw [h.1, h.2]
  decide

theorem AtOne.of_stream {c d : Card TC} (h : AtOne c) (hs : d.stream.speed = c.stream.speed)
    (hp : d.stream.spdct = c.stream.spdct) : AtOne d := ⟨hs.trans h.1, hp.trans h.2⟩

theorem AtOne.streamStart {c : Card TC} (h : AtOne c) : AtOne (streamStart c) := by
  unfold AjaDriver.streamStart ltcRun
  simp only
  split_ifs <;> exact h

theorem AtOne.streamStop {c : Card TC} (h : AtOne c) : AtOne (streamStop c) := by
  unfold AjaDriver.streamStop ltcRun
  simp only
  split_ifs <;> exact h

theorem AtOne.ioctlStreamStart {c : Card TC} (h : AtOne c) (w : FrameWait) :
    AtOne (ioctlStreamStart c w).2 := by
  unfold AjaDriver.ioctlStreamStart
  split_ifs
  · exact h
  · have hreset : AtOne { c.prset regclocking 2 with
        stream :=
          { (c.prset regclocking 2).stream with speed := 1 * ajaSpeedDivisor, spdct := 0 } } :=
      ⟨rfl, rfl⟩
    cases w
    · exact hreset.streamStart
    · exact ⟨rfl, rfl⟩
    · exact ⟨rfl, rfl⟩

variable [Timecode TC]

/-- Is the operation a new frame? -/
def NewFrame : Op TC → Prop
  | .frame irq => irq.field = false
  | _ => False

omit [Timecode TC] in
theorem not_newFrame {op : Op TC} (h : Quiet op ∨ op = .pageAlloc) : ¬ NewFrame op := by
  rcases h with h | rfl
  · cases op with
    | frame irq =>
    exact fun hf : irq.field = false =>
      absurd ((show irq.field = true from h).symm.trans hf) (by decide)
    | _ => exact id
  · exact id

/-- The client of a stream at normal speed: it never pops nor changes the
speed, sets metadata only of pages it holds, and pushes in channel order. -/
def NormalClient (k : ℕ) (s : Sys TC) : Op TC → Prop
  | .fifoPop => False
  | .setspeed _ => False
  | .setmeta page _ => page ∈ s.held
  | .fifoPush p => p ∈ s.held ∧ s.card.chanOf p = ((s.pushed.length % k : ℕ) : ℤ)
  | op => Client s op

instance (k : ℕ) (s : Sys TC) : ∀ op, Decidable (NormalClient k s op)
  | .fifoPop | .setspeed _ => instDecidableFalse
  | .setmeta page _ => inferInstanceAs (Decidable (page ∈ s.held))
  | .fifoPush p =>
    inferInstanceAs (Decidable (p ∈ s.held ∧ s.card.chanOf p = ((s.pushed.length % k : ℕ) : ℤ)))
  | .streamInit pid i => inferInstanceAs (Decidable (Client s (.streamInit pid i)))
  | .pageFree p => inferInstanceAs (Decidable (p ∈ s.held))
  | .streamStart _ | .streamStop _ | .release _ | .getmeta _ | .pageAlloc | .settrig _
    | .aframeAdd _
  | .timecodeSetflags _ | .timecodeClrflags _ | .timecodeSet _ | .frame _ => instDecidableTrue

omit [Timecode TC] in
theorem NormalClient.client {k : ℕ} {s : Sys TC} {op : Op TC} (h : NormalClient k s op) :
    Client s op := by
  cases op with
  | fifoPop => trivial
  | setspeed v => trivial
  | setmeta page m => trivial
  | fifoPush p => exact h.1
  | _ => exact h

/-- Between new frames the stream stays at normal speed. -/
theorem AtOne.step {k : ℕ} {s : Sys TC} (h : AtOne s.card) {M : ModParams} {op : Op TC}
    (hop : NormalClient k s op) (hn : ¬ NewFrame op) : AtOne (s.step M op).card := by
  cases op with
  | streamInit pid i => exact absurd hop id
  | streamStart w => exact h.ioctlStreamStart w
  | streamStop w =>
    cases w
    · exact h.streamStop
    · exact h
    · exact h
  | release pid =>
    show AtOne (release s.card pid)
    unfold release
    split_ifs
    · exact h.streamStop
    · exact h
  | getmeta page =>
    show AtOne (ioctlGetmeta s.card page).2
    unfold ioctlGetmeta
    split_ifs <;> exact h
  | setmeta page m =>
    show AtOne (ioctlSetmeta s.card page m).2
    unfold ioctlSetmeta
    split_ifs <;> exact h
  | setspeed v => exact absurd hop id
  | settrig v =>
    show AtOne (ioctlSettrig s.card v).2
    unfold ioctlSettrig
    split_ifs <;> exact h
  | frame irq =>
    have hf : irq.field = true := by simpa [NewFrame] using hn
    have hs : (s.step M (.frame irq)).card.stream = s.card.stream :=
      stream_handleFrame_second hf s.card
    exact h.of_stream (by rw [hs]) (by rw [hs])
  | _ => exact h

/-! ### The invariant -/

/-- Whole frames of the pages pushed are displayed, the others are queued, and
the page at place `j` of the FIFO is one of channel `j mod k`. -/
structure Delivers (k : ℕ) (s : Sys TC) (q : List ℤ) : Prop where
  inv : s.Inv .playback k q
  level : s.card.stream.pool.fifo = q.length
  one : AtOne s.card
  order : ∀ (j : ℕ) (p : ℤ), q[j]? = some p → s.card.chanOf p = ((j % k : ℕ) : ℤ)
  split : ∃ n ≤ s.pushed.length, k ∣ n ∧ q = s.pushed.drop n ∧
    s.card.outputs = inTurn k (s.pushed.take n)

omit [Timecode TC] in
theorem init_delivers (c : Card TC) (pid : ℤ) {i : StreamInit} (hm : Mode.playback.Of i.flags) :
    Delivers (clampChans i.chans).toNat (Sys.init c pid i) [] where
  inv := Sys.init_inv c pid hm
  level := by
    rw [show (Sys.init c pid i).card.stream = _ from stream_streamInit c pid i]
    rfl
  one := by
    unfold AtOne
    rw [show (Sys.init c pid i).card.stream = _ from stream_streamInit c pid i]
    exact ⟨rfl, rfl⟩
  order j p hp := by simp at hp
  split := ⟨0, Nat.zero_le _, dvd_zero _, rfl, rfl⟩

namespace Delivers

omit [Timecode TC] in
/-- The first pages of a long enough FIFO are those of the channels in order. -/
theorem inOrder {k : ℕ} {s : Sys TC} {q : List ℤ} (h : Delivers k s q) (hk : k ≤ q.length) :
    InOrder s.card.chanOf k q := inOrder_of_turn h.order hk

omit [Timecode TC] in
/-- A new frame shows one page on every channel if the FIFO has them, and
counts a drop if not. -/
theorem playStep {k : ℕ} {s : Sys TC} {q : List ℤ} (h : Delivers k s q) :
    s.card.playStep k q =
      if s.card.stream.running then if q.length < k then ⟨0, [], 1⟩ else ⟨k, q.take k, 0⟩
        else ⟨0, [], 0⟩ := by
  unfold Card.playStep Card.due
  rw [h.one.speedcount.1, h.level, playPlan_normal h.inv.pos h.inOrder]

omit [Timecode TC] in
/-- A step that leaves the FIFO, the metadata of its pages and the registers. -/
theorem same {k : ℕ} {s t : Sys TC} {q : List ℤ} (h : Delivers k s q) (hi : t.Inv .playback k q)
    (ho : AtOne t.card) (hf : t.card.stream.pool.fifo = s.card.stream.pool.fifo)
    (hm : ∀ p ∈ q, t.card.stream.pagemeta p = s.card.stream.pagemeta p)
    (hu : t.card.outputs = s.card.outputs) (hp : t.pushed = s.pushed) : Delivers k t q where
  inv := hi
  level := hf.trans h.level
  one := ho
  order j p hj := by
    unfold chanOf
    rw [hm p (List.mem_of_getElem? hj)]
    exact h.order j p hj
  split := by
    rw [hp, hu]
    exact h.split

omit [Timecode TC] in
/-- The page pushed is the next one of its channel. -/
theorem pushed {k : ℕ} {s t : Sys TC} {q : List ℤ} {p : ℤ} (h : Delivers k s q)
    (hi : t.Inv .playback k (q ++ [p])) (ho : AtOne t.card)
    (hf : t.card.stream.pool.fifo = wrap (s.card.stream.pool.fifo + 1))
    (hm : t.card.stream.pagemeta = s.card.stream.pagemeta) (hu : t.card.outputs = s.card.outputs)
    (hp : t.pushed = s.pushed ++ [p]) (hc : s.card.chanOf p = ((s.pushed.length % k : ℕ) : ℤ)) :
    Delivers k t (q ++ [p]) := by
  obtain ⟨n, hn, hkn, hq, hout⟩ := h.split
  have hlen : (s.owned q).length ≤ 64 := h.inv.length_le
  have hlen64 : q.length ≤ 64 := by
    unfold Sys.owned at hlen
    simp only [List.length_append] at hlen
    omega
  refine ⟨hi, ?_, ho, fun j a hj => ?_, n, ?_, hkn, ?_, ?_⟩
  · rw [hf, h.level, wrap_of_range (by omega) (by omega), List.length_append]
    push_cast
    rfl
  · unfold chanOf
    rw [hm]
    by_cases hjq : j < q.length
    · exact h.order j a (by rwa [List.getElem?_append_left hjq] at hj)
    · -- the page pushed: whole frames come before the FIFO's first page
      have hjlen := (List.getElem?_eq_some_iff.mp hj).1
      rw [List.length_append, List.length_singleton] at hjlen
      obtain rfl : j = q.length := by omega
      have hap : a = p := by simpa using hj.symm
      have hmod : q.length % k = s.pushed.length % k := by
        obtain ⟨m, rfl⟩ := hkn
        calc q.length % k
          _ = (q.length + k * m) % k := (Nat.add_mul_mod_self_left ..).symm
          _ = s.pushed.length % k := by rw [hq, List.length_drop, Nat.sub_add_cancel hn]
      rw [hap, hmod]
      exact hc
  · rw [hp, List.length_append]
    omega
  · rw [hp, List.drop_append_of_le_length hn, hq]
  · rw [hp, List.take_append_of_le_length hn, hu, hout]

omit [Timecode TC] in
/-- A new frame: the pages of one frame go on to the registers, or none. -/
theorem frame {k : ℕ} {s t : Sys TC} {q : List ℤ} (h : Delivers k s q)
    (hi : t.Inv .playback k (q.drop (s.card.playStep k q).pops))
    (hf : PlayFrame s.card t.card q (s.card.playStep k q)) (hp : t.pushed = s.pushed) :
    Delivers k t (q.drop (s.card.playStep k q).pops) := by
  have hone : AtOne t.card := by
    refine ⟨hf.speed.trans h.one.1, ?_⟩
    rcases hf.spdct with hs | hs
    · exact hs.trans h.one.2
    · exact hs.trans h.one.speedcount.2
  have hfifo := hf.fifo
  have hmeta := hf.pagemeta
  have hout := hf.outputs
  rw [h.playStep] at hi hfifo hmeta hout ⊢
  split_ifs at hi hfifo hmeta hout ⊢ with hr hl
  · exact h.same hi hone (by rw [hfifo]; simpa using h.inv.ranged) (fun p _ => hmeta p (by simp))
      (hout.trans (List.append_nil _)) hp
  · obtain ⟨n, hn, hkn, hq, hout'⟩ := h.split
    have hlq : q.length = s.pushed.length - n := by rw [hq, List.length_drop]
    have hlen : (s.owned q).length ≤ 64 := h.inv.length_le
    unfold Sys.owned at hlen
    simp only [List.length_append] at hlen
    refine ⟨hi, ?_, hone, fun j p hj => ?_, n + k, ?_, (Nat.dvd_add_right hkn).mpr dvd_rfl, ?_, ?_⟩
    · show t.card.stream.pool.fifo = ((q.drop k).length : ℤ)
      have hfifo' : t.card.stream.pool.fifo = wrap (q.length - k) := by rw [hfifo, h.level]
      rw [hfifo', wrap_of_range (by omega) (by omega), List.length_drop]
      omega
    · -- a page that stays is not one of those loaded
      have hmem : p ∈ q.drop k := List.mem_of_getElem? hj
      have hnot : p ∉ q.take k := fun e =>
        (List.nodup_append.mp ((List.take_append_drop k q).symm ▸ h.inv.holds.nodup)).2.2 p
          e p hmem rfl
      rw [List.getElem?_drop] at hj
      unfold chanOf
      rw [hmeta p hnot, show (s.card.stream.pagemeta p).chan = _ from h.order _ p hj,
        Nat.add_mod_left]
    · rw [hp]
      omega
    · rw [hp, hq, List.drop_drop]
    · have htake : s.pushed.take (n + k) = s.pushed.take n ++ q.take k := by rw [List.take_add, hq]
      rw [hout, hout', hp, htake,
        inTurn_append (by rwa [List.length_take_of_le hn]) (List.length_take_le ..)]
  · exact h.same hi hone (by rw [hfifo]; simpa using h.inv.ranged) (fun p _ => hmeta p (by simp))
      (hout.trans (List.append_nil _)) hp

/-- Every step of the client and every interrupt keeps the invariant. -/
theorem step {k : ℕ} {s : Sys TC} {q : List ℤ} (h : Delivers k s q) (M : ModParams) {op : Op TC}
    (hop : NormalClient k s op) :
    ∃ r, Delivers k (s.step M op) r ∧ Moves k s (s.step M op) op q r := by
  obtain ⟨r, ht, hm⟩ := h.inv.step M hop.client
  refine ⟨r, ?_, hm⟩
  have hone : ¬ NewFrame op → AtOne (s.step M op).card := h.one.step hop
  cases hm with
  | quiet hq calm keeps pagemeta held pushed =>
    exact h.same ht (hone (not_newFrame hq)) keeps.fifo (fun p _ => by rw [pagemeta])
      calm.outputs pushed
  | setmeta calm keeps pagemeta held pushed =>
    refine h.same ht (hone id) keeps.fifo (fun p hp => pagemeta p fun e => ?_) calm.outputs pushed
    exact (List.nodup_append.mp h.inv.nodup).2.2 _ (e ▸ hop) p (List.mem_append_left _ hp) rfl
  | alloc calm free inuse fifo pagemeta held pushed =>
    exact h.same ht (hone id) fifo (fun p _ => by rw [pagemeta]) calm.outputs pushed
  | free calm mem inuse fifo pagemeta held pushed =>
    exact h.same ht (hone id) fifo (fun p _ => by rw [pagemeta]) calm.outputs pushed
  | push calm mem inuse fifo pagemeta held pushed =>
    exact h.pushed ht (hone id) fifo pagemeta calm.outputs pushed hop.2
  | popNil => exact absurd hop id
  | popCons => exact absurd hop id
  | play mode field frame held pushed => exact h.frame ht frame pushed
  | arm mode field frame => exact absurd (h.inv.mode.2.mp (mode.2.mpr rfl)) (by decide)

/-- A run of the client and the interrupts stays in the invariant. -/
theorem reach {k : ℕ} {s t : Sys TC} {M : ModParams} (h : ∃ q, Delivers k s q)
    (hr : Runs.Reach (Sys.step M) (NormalClient k) s t) : ∃ q, Delivers k t q := by
  refine hr.inv (I := fun t : Sys TC => ∃ q, Delivers k t q) h ?_
  rintro s op ⟨q, h⟩ hop
  obtain ⟨r, hr, -⟩ := h.step M hop
  exact ⟨r, hr⟩

/-- Between new frames no page is given to a channel or freed up. -/
theorem lastPages_reach {k : ℕ} {s t : Sys TC} {M : ModParams} (h : ∃ q, Delivers k s q)
    (hr : Runs.Reach (Sys.step M) (fun s op => NormalClient k s op ∧ ¬ NewFrame op) s t) :
    (∃ q, Delivers k t q) ∧ t.card.lastPages = s.card.lastPages := by
  refine hr.inv (I := fun t : Sys TC => (∃ q, Delivers k t q) ∧ t.card.lastPages = s.card.lastPages)
    ⟨h, rfl⟩ ?_
  rintro u op ⟨⟨q, hd⟩, hlast⟩ ⟨hop, hnew⟩
  obtain ⟨r, hr, hm⟩ := hd.step M hop
  refine ⟨⟨r, hr⟩, Eq.trans ?_ hlast⟩
  cases hm with
  | quiet _ calm | setmeta calm | alloc calm | free calm | push calm | popNil calm | popCons calm =>
    exact lastPages_congr calm.last
  | play mode field => exact absurd field hnew
  | arm mode field => exact absurd field hnew

end Delivers

/-! ### Delivery -/

/-- A new frame of the running stream that finds fewer pages queued than
channels. -/
def Starved (k : ℕ) (s : Sys TC) (op : Op TC) : Prop :=
  NewFrame op ∧ s.card.stream.running = true ∧
    ∃ q, Intrusive.Chain (fun i => (s.card.stream.pool.pagealloc i).next) s.card.stream.pool.pfirst
      q ∧ q.length < k

/-- What one operation does to the drops and the registers. -/
theorem Delivers.drops {k : ℕ} {s : Sys TC} {q : List ℤ} (h : Delivers k s q) (M : ModParams)
    {op : Op TC} (hop : NormalClient k s op) :
    (Starved k s op → (s.step M op).card.stream.drop.count = s.card.stream.drop.count + 1) ∧
      (¬ Starved k s op → (s.step M op).card.stream.drop.count = s.card.stream.drop.count) ∧
      (NewFrame op → s.card.stream.running = true → ¬ Starved k s op →
        (s.step M op).card.outputs.length = s.card.outputs.length + k) := by
  have hstarved : Starved k s op ↔ NewFrame op ∧ s.card.stream.running = true ∧ q.length < k := by
    refine and_congr_right fun _ => and_congr_right fun _ =>
      ⟨?_, fun hl => ⟨q, h.inv.holds.isQueue.chain, hl⟩⟩
    rintro ⟨r, hr, hl⟩
    rwa [Intrusive.Chain.unique h.inv.holds.isQueue.chain hr]
  have hcalm : ∀ {t : Sys TC}, Calm s.card t.card → ¬ NewFrame op → (Starved k s op →
      t.card.stream.drop.count = s.card.stream.drop.count + 1) ∧
      (¬ Starved k s op → t.card.stream.drop.count = s.card.stream.drop.count) ∧
      (NewFrame op → s.card.stream.running = true → ¬ Starved k s op →
        t.card.outputs.length = s.card.outputs.length + k) :=
    fun calm hn => ⟨fun hs => absurd hs.1 hn, fun _ => calm.drops, fun hnew => absurd hnew hn⟩
  obtain ⟨r, -, hm⟩ := h.inv.step M hop.client
  cases hm with
  | quiet hq calm => exact hcalm calm (not_newFrame hq)
  | setmeta calm | alloc calm | free calm | push calm | popNil calm | popCons calm =>
    exact hcalm calm id
  | arm mode field frame => exact absurd (h.inv.mode.2.mp (mode.2.mpr rfl)) (by decide)
  | @play irq _ mode field frame =>
    have hdrops := frame.drops
    have hout := congrArg List.length frame.outputs
    rw [List.length_append, tag_length] at hout
    rw [h.playStep] at hdrops hout
    rw [hstarved]
    by_cases hrun : s.card.stream.running = true
    · rw [if_pos hrun] at hdrops hout
      by_cases hl : q.length < k
      · rw [if_pos hl] at hdrops
        exact ⟨fun _ => hdrops, fun hn => absurd ⟨field, hrun, hl⟩ hn,
          fun _ _ hn => absurd ⟨field, hrun, hl⟩ hn⟩
      · rw [if_neg hl] at hdrops hout
        have htake : (q.take k).length = k := List.length_take_of_le (not_lt.mp hl)
        exact ⟨fun hs => absurd hs.2.2 hl, fun _ => hdrops.trans (add_zero _),
          fun _ _ _ => hout.trans (congrArg (_ + ·) htake)⟩
    · rw [if_neg hrun] at hdrops
      exact ⟨fun hs => absurd hs.2.1 hrun, fun _ => hdrops.trans (add_zero _),
        fun _ hr => absurd hr hrun⟩

/-- At normal speed, with the pages pushed in channel order: the registers are
given exactly the pages pushed, in order and each to its channel, and what was
not given yet is queued; a drop is counted at just the frames that find too few
pages, and the other frames of the running stream show a page on every channel;
a page shown stays in use until the next new frame and is free after it. -/
theorem exact_delivery {M : ModParams} {c : Card TC} {pid : ℤ} {i : StreamInit}
    (hm : Mode.playback.Of i.flags) {s : Sys TC}
    (hr : Runs.Reach (Sys.step M) (NormalClient (clampChans i.chans).toNat) (Sys.init c pid i) s) :
    (∃ n ≤ s.pushed.length, s.card.outputs = inTurn (clampChans i.chans).toNat (s.pushed.take n) ∧
        Intrusive.Chain (fun i => (s.card.stream.pool.pagealloc i).next) s.card.stream.pool.pfirst
          (s.pushed.drop n)) ∧
      (∀ op, NormalClient (clampChans i.chans).toNat s op →
        (Starved (clampChans i.chans).toNat s op →
            (s.step M op).card.stream.drop.count = s.card.stream.drop.count + 1) ∧
          (¬ Starved (clampChans i.chans).toNat s op →
            (s.step M op).card.stream.drop.count = s.card.stream.drop.count) ∧
          (NewFrame op → s.card.stream.running = true → ¬ Starved (clampChans i.chans).toNat s op →
            (s.step M op).card.outputs.length =
              s.card.outputs.length + (clampChans i.chans).toNat)) ∧
      ∀ irq : FrameIrq TC, irq.field = false →
        ∀ e ∈ (s.step M (.frame irq)).card.outputs.drop s.card.outputs.length, ∀ u,
          Runs.Reach (Sys.step M)
            (fun s op => NormalClient (clampChans i.chans).toNat s op ∧ ¬ NewFrame op)
            (s.step M (.frame irq)) u →
          u.card.stream.pool.inuse e.2 = true ∧
            ∀ irq' : FrameIrq TC, irq'.field = false →
              (u.step M (.frame irq')).card.stream.pool.inuse e.2 = false := by
  obtain ⟨q, h⟩ := Delivers.reach ⟨[], init_delivers c pid hm⟩ hr
  refine ⟨?_, fun op hop => h.drops M hop, fun irq hf e he u hu => ?_⟩
  · obtain ⟨n, hn, -, hq, hout⟩ := h.split
    exact ⟨n, hn, hout, hq ▸ h.inv.holds.isQueue.chain⟩
  · have hframe := h.inv.playFrame M hf
    -- the pages shown by this frame are the last pages after it
    have hmem : e.2 ∈ (s.step M (.frame irq)).card.lastPages := by
      rw [hframe.outputs, List.drop_left] at he
      rw [hframe.lastPages]
      obtain ⟨j, -, hj⟩ := mem_tag.mp he
      exact List.mem_of_getElem? hj
    have hclient : NormalClient (clampChans i.chans).toNat s (.frame irq) := trivial
    obtain ⟨r, hd, -⟩ := h.step M hclient
    obtain ⟨⟨r', hu'⟩, hlast⟩ := Delivers.lastPages_reach ⟨r, hd⟩ hu
    rw [← hlast] at hmem
    refine ⟨hu'.inv.inuse _ (List.mem_append_right _ (List.mem_append_right _ hmem)),
      fun irq' hf' => ?_⟩
    rw [(hu'.inv.playFrame M hf').inuse]
    simp [hmem]

/-- A pair of pages shown on two channels; the frame after it finds none. -/
theorem exact_delivery_pair :
    (([.pageAlloc, .pageAlloc, .setmeta 1 { (StreamMeta.zero : StreamMeta ℕ) with chan := 1 },
      .fifoPush 0, .fifoPush 1, .streamStart .frame, .frame blankFrame].foldl (Sys.step {})
        (Sys.start ajaPlayback 4 2)).step {} (.frame blankFrame)).card.stream.drop.count = 1 := by
  have hrun : Runs.Along (Sys.step {}) (NormalClient (clampChans 2).toNat)
    (Sys.start ajaPlayback 4 2)
      [.pageAlloc, .pageAlloc, .setmeta 1 { (StreamMeta.zero : StreamMeta ℕ) with chan := 1 },
        .fifoPush 0, .fifoPush 1, .streamStart .frame, .frame blankFrame] := by decide +kernel
  have hreach := Runs.Reach.of_along _ hrun
  have hdelivery := exact_delivery (c := Card.new false false) (i := ⟨4, ajaPlayback, 2, 0⟩)
    (by decide) hreach
  have hdrop := (hdelivery.2.1 (.frame blankFrame) trivial).1
    ⟨rfl, by decide +kernel, [], Intrusive.chain_nil.mpr (by decide +kernel), by decide +kernel⟩
  rw [hdrop]
  decide +kernel

end AjaDriver
