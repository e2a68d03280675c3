/-
# What a playback run airs

With the page of its first channel a frame takes that page's private value and, if
the client set one, its timecode; the card's time and the generator show them until
the next frame. `Reel` keeps the metadata every page was pushed with and what was on
air in every frame that showed a page on each channel: at any speed the frames aired
are some of those pushed, in order, each with its own metadata (`aired_pushed`).
-/
import AjaDriver.Capture.Film
import AjaDriver.Messages
import AjaDriver.Playback

namespace AjaDriver

open Function Word Pool Card

variable {TC : Type} [Timecode TC]

/-! ### The master page -/

/-- The private value and the timecode a card has on air. -/
def Card.onAir (c : Card TC) : ℕ × TC := (c.frame.time.priv, c.tcg.value)

/-- What is on air with a page of metadata `m`, when it was `a` before. -/
def StreamMeta.air (m : StreamMeta TC) (a : ℕ × TC) : ℕ × TC :=
  (m.priv, if Timecode.isValid (m.tc .internal) then m.tc .internal else a.2)

/-- The same with or without a page. -/
def airOf (m : Option (StreamMeta TC)) (a : ℕ × TC) : ℕ × TC := (m.map fun m => m.air a).getD a

/-- The page of channel 0, in a frame that gives each of `k` channels one. -/
def PlayPlan.master (e : PlayPlan) (k : ℕ) : Option ℤ :=
  if e.loaded.length = k then e.loaded.head? else none

omit [Timecode TC] in
theorem Beside.onAir {c d : Card TC} (h : Beside c d) : d.onAir = c.onAir := by
  unfold Card.onAir
  rw [h.frame, h.tcg]

theorem onAir_playbackMeta (p : ℤ) (c : Card TC) :
    (playbackMeta p c).onAir = (c.stream.pagemeta p).air c.onAir := by
  have htouch : (c.touch .pagemeta p).stream.pagemeta = c.stream.pagemeta := rfl
  unfold playbackMeta StreamMeta.air
  simp only [htouch]
  split_ifs
  · refine Prod.ext ?_ rfl
    show (update c.stream.pagemeta p _ p).priv = _
    rw [update_self]
  · rfl

/-- A load that gives every channel a page airs the first one. -/
theorem onAir_playbackLoad {c : Card TC} {k : ℕ} {q : List ℤ} (hk : c.stream.chans = k)
    (h0 : 0 < k) (h2 : k ≤ 2) (h : c.stream.pool.Holds q)
    (hr : wrap c.stream.pool.fifo = c.stream.pool.fifo) (pops : ℕ) (drops : ℤ) :
    (playbackLoad c).onAir =
      airOf (((⟨pops, fit c.chanOf k 0 q, drops⟩ : PlayPlan).master k).map c.stream.pagemeta)
        c.onAir := by
  obtain ⟨-, hret, hmeta⟩ := loadLoop_spec k 0 0 h hr le_rfl (by omega)
  have hair := (beside_loadLoop k 0 0 c).onAir
  have hcases := playbackLoad_cases c
  simp only at hcases
  rw [hk, Int.toNat_natCast] at hcases
  rw [if_pos rfl] at hret
  unfold PlayPlan.master
  simp only
  by_cases hfull : (fit c.chanOf k 0 q).length = k
  · rw [if_pos hfull] at hret ⊢
    obtain ⟨p, hp⟩ : ∃ p, (fit c.chanOf k 0 q).head? = some p := by
      cases hfit : fit c.chanOf k 0 q with
      | nil =>
        rw [hfit, List.length_nil] at hfull
        omega
      | cons p l => exact ⟨p, rfl⟩
    rw [hp] at hret ⊢
    rcases hcases with ⟨hnone, -⟩ | ⟨p', hsome, heq⟩
    · rw [hnone] at hret
      cases hret
    · obtain rfl : p' = p := Option.some.inj (hsome.symm.trans hret)
      rw [heq, onAir_playbackMeta, hmeta, hair]
      rfl
  · rw [if_neg hfull] at hret ⊢
    rcases hcases with ⟨-, heq⟩ | ⟨p', hsome, -⟩
    · rw [heq, hair]
      rfl
    · rw [hsome] at hret
      cases hret

/-- The playback engine airs the master page of its plan. -/
theorem onAir_streamPlayback {c : Card TC} {k : ℕ} {q : List ℤ}
    (hf : c.stream.flags &&& ajaPlayback ≠ 0) (hk : c.stream.chans = k) (h0 : 0 < k) (h2 : k ≤ 2)
    (h : c.stream.pool.Holds q) (hr : wrap c.stream.pool.fifo = c.stream.pool.fifo) :
    (streamPlayback c).onAir =
      airOf (((playPlan c.chanOf k c.stream.pool.fifo (streamSpeedcount c.stream).1 q).master k).map
        c.stream.pagemeta)
        c.onAir := by
  have hnone : ∀ (pops : ℕ) (drops : ℤ), (⟨pops, [], drops⟩ : PlayPlan).master k = none := by
    intro pops drops
    exact if_neg (by simp only [List.length_nil]; omega)
  rw [streamPlayback_eq]
  unfold playPlan
  simp only
  rw [if_neg hf, ← hk]
  by_cases hl : c.stream.pool.fifo < c.stream.chans
  · rw [if_pos hl, if_pos hl, hnone]
    rfl
  rw [if_neg hl, if_neg hl]
  by_cases hd0 : (streamSpeedcount c.stream).1 = 0
  · rw [if_pos hd0, if_pos hd0, hnone]
    rfl
  rw [if_neg hd0, if_neg hd0]
  have hb := bumpLoop_spec h0 ((streamSpeedcount c.stream).1 - 1).toNat h hr
  rw [← hk] at hb
  rcases hloop :
    bumpLoop c.stream.chans ((streamSpeedcount c.stream).1 - 1).toNat c.stream.pool with ⟨e, P⟩
  rw [hloop] at hb
  split_ifs at hb ⊢ with hdry hshort
  · obtain ⟨rfl, -⟩ := hb
    rw [hnone]
    rfl
  · obtain ⟨rfl, -⟩ := hb
    rw [hnone]
    rfl
  · obtain ⟨rfl, hp⟩ := hb
    exact onAir_playbackLoad (c := c.counted.withPool P) hk h0 h2 hp.holds (by
      show wrap P.fifo = P.fifo
      rw [hp.fifo, wrap_wrap]) _ _

/-! ### A frame -/

/-- What the timecode generator comes to by itself in a new frame. -/
def Card.generated (c : Card TC) : TC :=
  if c.tcg.flags &&& ajaTcgRunning ≠ 0 then Timecode.clearField2 (Timecode.inc c.tcg.value)
    else c.tcg.value

theorem onAir_frameCount (irq : FrameIrq TC) (c : Card TC) :
    (frameCount irq c).onAir = (c.frame.time.priv, c.generated) := by
  refine Prod.ext ?_ ?_
  · show (frameCount irq c).frame.time.priv = _
    rw [frame_frameCount]
    rfl
  · show (frameCount irq c).tcg.value = c.generated
    unfold frameCount Card.generated
    simp only
    split_ifs <;> first
      | rfl
      | exact value_streamStart _

theorem priv_handleFrame {irq : FrameIrq TC} (hf : irq.field = false) (c : Card TC) :
    (handleFrame irq c).frame.time.priv =
      (if c.stream.running then frameEngines (streamFreeup irq.freeupIn (frameCount irq c))
      else streamFreeup irq.freeupIn (frameCount irq c)).frame.time.priv := by
  have hcheck : ∀ (b : Bool) (d : Card TC), (aplayCheck b d).frame = d.frame := by
    intro b d
    unfold aplayCheck
    simp only
    split_ifs <;> rfl
  have hout : ∀ (b : Bool) (d : Card TC),
      (frameOutput irq b d).frame.time.priv = d.frame.time.priv := fun b d =>
    frameOutput_keeps (fun c => c.frame.time.priv) (fun _ _ _ => rfl) irq b d
  unfold handleFrame newFrame
  simp only
  rw [hcheck, if_pos (by simp [hf]), hout]

/-- A new frame airs the master page of its step, and otherwise what the generator
comes to. -/
theorem onAir_handleFrame {irq : FrameIrq TC} (hf : irq.field = false) {c : Card TC} {k : ℕ}
    {q : List ℤ} (hm : Mode.playback.Of c.stream.flags) (hk : c.stream.chans = k) (h0 : 0 < k)
    (h2 : k ≤ 2) (h : c.stream.pool.Holds q) (hr : wrap c.stream.pool.fifo = c.stream.pool.fifo)
    (ht : c.Typed .playback) (hv : ∀ p ∈ c.lastPages, 0 ≤ p ∧ p < 64) :
    (handleFrame irq c).onAir =
      airOf (((c.playStep k q).master k).map c.stream.pagemeta)
      (c.frame.time.priv, c.generated) := by
  obtain ⟨hfree, -⟩ := frameStart_playback irq ht hv
  have hfirst : (handleFrame irq c).onAir =
      (if c.stream.running then frameEngines (streamFreeup irq.freeupIn (frameCount irq c))
        else streamFreeup irq.freeupIn (frameCount irq c)).onAir :=
    Prod.ext (priv_handleFrame hf c) (congrArg Tcg.value (tcg_handleFrame_first hf c))
  set b := streamFreeup irq.freeupIn (frameCount irq c)
  have hbair : b.onAir = (c.frame.time.priv, c.generated) :=
    (beside_freeup irq.freeupIn _).onAir.trans (onAir_frameCount irq c)
  rw [hfirst]
  unfold playStep
  by_cases hrun : c.stream.running = true
  · rw [if_pos hrun, if_pos hrun]
    -- `a` is the card the engine finds
    set a := frameAudio b
    have haview : a.view = b.view := view_frameAudio b
    have hasteady : Steady c a := hfree.steady.trans (steady_frameAudio b)
    have hapool : a.stream.pool = b.stream.pool := pool_of_view haview
    have haholds : a.stream.pool.Holds q := by rw [hapool]; exact h.congr hfree.links hfree.pageNo
    have hafifo : a.stream.pool.fifo = c.stream.pool.fifo := by rw [hapool, hfree.fifo]
    have hameta : a.stream.pagemeta = c.stream.pagemeta := by
      rw [pagemeta_of_view haview, hfree.pagemeta]
    have hachan : a.chanOf = c.chanOf := by
      funext p
      unfold chanOf
      rw [hameta]
    have haflags : Mode.playback.Of a.stream.flags := by rw [hasteady.flags]; exact hm
    have hplay := streamPlayback_played (haflags.1.mpr rfl)
      (hasteady.chans.trans hk) h0 h2 haholds (by rw [hafifo]; exact hr)
    have heng : frameEngines b = streamPlayback a :=
      streamCapture_idle (by rw [hplay.flags]; exact haflags)
    rw [heng, onAir_streamPlayback (haflags.1.mpr rfl) (hasteady.chans.trans hk) h0 h2 haholds
      (by rw [hafifo]; exact hr),
      hachan, hafifo, hameta, hasteady.due, (beside_frameAudio b).onAir, hbair]
    rfl
  · rw [if_neg hrun, if_neg hrun, hbair]
    have hnone : (⟨0, [], 0⟩ : PlayPlan).master k = none :=
      if_neg (by simp only [List.length_nil]; omega)
    rw [hnone]
    rfl

omit [Timecode TC] in
/-- A step takes the pages it loads from the FIFO, the first one for channel 0. -/
theorem playStep_takes (c : Card TC) (k : ℕ) (q : List ℤ) :
    ((c.playStep k q).loaded ++ q.drop (c.playStep k q).pops).Sublist q ∧
      ∀ p, (c.playStep k q).loaded.head? = some p → c.chanOf p = 0 := by
  unfold playStep
  split_ifs
  · refine ⟨playPlan_sublist .., fun p hp => ?_⟩
    have hfit : ∀ l, (fit c.chanOf k 0 l).head? = some p → c.chanOf p = 0 := by
      intro l hl
      rw [List.head?_eq_getElem?] at hl
      exact (fit_chan c.chanOf k 0 l 0 hl).trans rfl
    unfold playPlan at hp
    simp only at hp
    split_ifs at hp
    all_goals first
      | exact hfit _ hp
      | cases hp
  · exact ⟨List.Sublist.refl q, nofun⟩

/-! ### The reel -/

/-- What was on air in a frame: the page of channel 0, the private value and the
timecode; `gen` is what the generator came to by itself. -/
structure Airing (TC : Type) where
  id : ℤ
  page : ℤ
  priv : ℕ
  tcg : TC
  gen : TC

/-- What is on air after a new frame of a card that was `c`, if it gave each channel a
page. -/
def Airing.of (c d : Card TC) : List (Airing TC) :=
  if (d.lastPages.length : ℤ) = d.stream.chans then
    d.lastPages.head?.toList.map fun p =>
      ⟨d.frame.id, p, d.frame.time.priv, d.frame.time.tcg, c.generated⟩
  else []

/-- One frame has at most one thing on air, and it is of that frame. -/
theorem Airing.of_new (c d : Card TC) :
    ((Airing.of c d).Pairwise fun a b => a.id < b.id) ∧ ∀ a ∈ Airing.of c d, a.id = d.frame.id := by
  unfold Airing.of
  split_ifs
  · cases d.lastPages.head? with
    | none => exact ⟨.nil, List.forall_mem_nil _⟩
    | some p => exact ⟨List.pairwise_singleton .., List.forall_mem_singleton.mpr rfl⟩
  · exact ⟨.nil, List.forall_mem_nil _⟩

/-- What is on air is what page and metadata `e` say. -/
def Airing.Carries (a : Airing TC) (e : ℤ × StreamMeta TC) : Prop :=
  a.page = e.1 ∧ e.2.chan = 0 ∧ a.priv = e.2.priv ∧
    a.tcg = if Timecode.isValid (e.2.tc .internal) then e.2.tc .internal else a.gen

/-- A card and its client, every page pushed with the metadata it had, and what was
aired. -/
structure Reel (TC : Type) where
  sys : Sys TC
  cut : List (ℤ × StreamMeta TC)
  aired : List (Airing TC)

/-- One operation. -/
def Reel.step (M : ModParams) (r : Reel TC) (op : Op TC) : Reel TC :=
  match op with
  | .frame irq =>
    if irq.field then { r with sys := r.sys.step M op }
    else
      { r with
        sys := r.sys.step M op
        aired := r.aired ++ Airing.of r.sys.card (r.sys.step M op).card }
  | .fifoPush page =>
    { r with
      sys := r.sys.step M op
      cut := if (exec M r.sys.card op).1 = 0 then r.cut ++ [(page, r.sys.card.stream.pagemeta page)]
        else r.cut }
  | _ => { r with sys := r.sys.step M op }

/-- A client that sets the metadata of pages it holds only. -/
def ReelClient (r : Reel TC) : Op TC → Prop
  | .setmeta page _ => page ∈ r.sys.held
  | op => Client r.sys op

instance (r : Reel TC) : ∀ op, Decidable (ReelClient r op)
  | .setmeta page _ => inferInstanceAs (Decidable (page ∈ r.sys.held))
  | .streamInit pid i => inferInstanceAs (Decidable (Client r.sys (.streamInit pid i)))
  | .pageFree p | .fifoPush p => inferInstanceAs (Decidable (p ∈ r.sys.held))
  | .streamStart _ | .streamStop _ | .release _ | .getmeta _ | .pageAlloc | .fifoPop | .setspeed _
    | .settrig _
  | .aframeAdd _ | .timecodeSetflags _ | .timecodeClrflags _ | .timecodeSet _ | .frame _ =>
    instDecidableTrue

omit [Timecode TC] in
theorem ReelClient.client {r : Reel TC} {op : Op TC} (h : ReelClient r op) : Client r.sys op := by
  cases op with
  | setmeta page m => trivial
  | _ => exact h

theorem reel_sys (M : ModParams) (r : Reel TC) (op : Op TC) : (r.step M op).sys = r.sys.step M op := by
  cases op with
  | frame irq =>
    unfold Reel.step
    simp only
    split_ifs <;> rfl
  | _ => rfl

/-- The pages in the FIFO have the metadata they were pushed with, and what was aired
are some of those pushed before them, in order. -/
structure Reeled (k : ℕ) (r : Reel TC) (q : List ℤ) : Prop where
  inv : r.sys.Inv .playback k q
  queued : ∃ gone, r.cut = gone ++ q.map (fun p => (p, r.sys.card.stream.pagemeta p)) ∧
    ∃ l, l.Sublist gone ∧ List.Forall₂ Airing.Carries r.aired l
  ordered : r.aired.Pairwise fun a b => a.id < b.id
  past : ∀ a ∈ r.aired, a.id ≤ r.sys.card.frame.id

namespace Reeled

variable {k : ℕ} {r s : Reel TC} {q : List ℤ}

/-- A step that leaves the FIFO and the metadata of its pages. -/
theorem same (h : Reeled k r q) (hi : s.sys.Inv .playback k q)
    (hmeta : ∀ p ∈ q, s.sys.card.stream.pagemeta p = r.sys.card.stream.pagemeta p)
    (hcut : s.cut = r.cut) (haired : s.aired = r.aired)
    (hid : s.sys.card.frame.id = r.sys.card.frame.id) : Reeled k s q := by
  obtain ⟨gone, hgone, hl⟩ := h.queued
  refine ⟨hi, ⟨gone, ?_, by rw [haired]; exact hl⟩,
    by rw [haired]; exact h.ordered, by rw [haired, hid]; exact h.past⟩
  rw [hcut, hgone]
  exact congrArg _ (List.map_congr_left fun p hp => by rw [hmeta p hp])

/-- The oldest page leaves the FIFO. -/
theorem pop {p : ℤ} (h : Reeled k r (p :: q)) (hi : s.sys.Inv .playback k q)
    (hmeta : s.sys.card.stream.pagemeta = r.sys.card.stream.pagemeta) (hcut : s.cut = r.cut)
    (haired : s.aired = r.aired) (hid : s.sys.card.frame.id = r.sys.card.frame.id) :
    Reeled k s q := by
  obtain ⟨gone, hgone, l, hl, hcarries⟩ := h.queued
  refine ⟨hi, ⟨gone ++ [(p, r.sys.card.stream.pagemeta p)], ?_, l,
    hl.trans (List.sublist_append_left ..), ?_⟩,
    by rw [haired]; exact h.ordered, by rw [haired, hid]; exact h.past⟩
  · rw [hcut, hgone, hmeta, List.append_assoc]
    rfl
  · rw [haired]
    exact hcarries

/-- A page joins the FIFO. -/
theorem push (h : Reeled k r q) (M : ModParams) {p : ℤ}
    (hi : (r.sys.step M (.fifoPush p)).Inv .playback k (q ++ [p]))
    (hmeta : (r.sys.step M (.fifoPush p)).card.stream.pagemeta = r.sys.card.stream.pagemeta)
    (hpushed : (r.sys.step M (.fifoPush p)).pushed = r.sys.pushed ++ [p]) :
    Reeled k (r.step M (.fifoPush p)) (q ++ [p]) := by
  obtain ⟨gone, hgone, hl⟩ := h.queued
  have hret : (exec M r.sys.card (.fifoPush p)).1 = 0 := by
    by_contra hne
    have hsame : (r.sys.step M (.fifoPush p)).pushed = r.sys.pushed := if_neg hne
    rw [hsame] at hpushed
    exact absurd (congrArg List.length hpushed)
      (by rw [List.length_append, List.length_singleton]; omega)
  have hid : (r.sys.step M (.fifoPush p)).card.frame.id = r.sys.card.frame.id :=
    id_exec M r.sys.card (.fifoPush p)
  refine ⟨hi, ⟨gone, ?_, hl⟩, h.ordered, fun a ha => (h.past a ha).trans hid.ge⟩
  show (if (exec M r.sys.card (.fifoPush p)).1 = 0
      then r.cut ++ [(p, r.sys.card.stream.pagemeta p)] else r.cut) =
    gone ++ (q ++ [p]).map fun a => (a, (r.sys.step M (.fifoPush p)).card.stream.pagemeta a)
  rw [if_pos hret, hgone, hmeta, List.map_append, List.append_assoc]
  rfl

/-- A frame that shows a page on each channel airs one of those it takes. -/
theorem airs_one {c d : Card TC} {e : PlayPlan} (irq : FrameIrq TC) (hf : irq.field = false)
    (hk : 0 < k) (hd : d = handleFrame irq c) (hplan : d.lastPages = e.loaded)
    (hchans : d.stream.chans = k)
    (hair : d.onAir = airOf ((e.master k).map c.stream.pagemeta) (c.frame.time.priv, c.generated))
    (hchan : ∀ p, e.loaded.head? = some p → c.chanOf p = 0) :
    ∃ l, l.Sublist (e.loaded.map fun p => (p, c.stream.pagemeta p)) ∧
      List.Forall₂ Airing.Carries (Airing.of c d) l := by
  unfold Airing.of
  rw [hplan, hchans]
  split_ifs with hfull
  · obtain ⟨p, l, hl⟩ : ∃ p l, e.loaded = p :: l := by
      cases hl : e.loaded with
      | nil =>
        rw [hl] at hfull
        simp only [List.length_nil] at hfull
        omega
      | cons p l => exact ⟨p, l, rfl⟩
    have hmaster : e.master k = some p := by
      unfold PlayPlan.master
      rw [if_pos (by exact_mod_cast hfull), hl]
      rfl
    rw [hmaster] at hair
    have hshown : d.frame.time.tcg = d.tcg.value := by
      rw [hd]
      exact (hears_exec {} c (.frame irq)).shown.trans (if_neg (by simp [hf]))
    rw [hl] at hchan ⊢
    refine ⟨[(p, c.stream.pagemeta p)], (List.nil_sublist _).cons_cons _,
      .cons ⟨rfl, hchan p rfl, ?_, ?_⟩ .nil⟩
    · exact congrArg Prod.fst hair
    · show d.frame.time.tcg = _
      rw [hshown]
      exact congrArg Prod.snd hair
  · exact ⟨[], List.nil_sublist _, .nil⟩

/-- What the next new frame airs. -/
theorem onAir (h : Reeled k r q) {irq : FrameIrq TC} (hf : irq.field = false) :
    (handleFrame irq r.sys.card).onAir =
      airOf (((r.sys.card.playStep k q).master k).map r.sys.card.stream.pagemeta)
        (r.sys.card.frame.time.priv, r.sys.card.generated) := by
  have hinv := h.inv
  exact onAir_handleFrame hf hinv.mode hinv.chans hinv.pos hinv.two hinv.holds hinv.ranged
    hinv.typed fun p hp =>
    hinv.valid p (List.mem_append_right _ (List.mem_append_right _ hp))

/-- A new frame. -/
theorem frame (h : Reeled k r q) (M : ModParams) {irq : FrameIrq TC} (hf : irq.field = false)
    (hi : (r.sys.step M (.frame irq)).Inv .playback k (q.drop (r.sys.card.playStep k q).pops)) :
    Reeled k (r.step M (.frame irq)) (q.drop (r.sys.card.playStep k q).pops) := by
  have hinv := h.inv
  have hframe := hinv.playFrame M hf
  have hair := h.onAir hf
  obtain ⟨hsub, hchan⟩ := playStep_takes r.sys.card k q
  set c := r.sys.card
  set e := c.playStep k q
  obtain ⟨l', hl', hcarries'⟩ :=
    airs_one (d := (r.sys.step M (.frame irq)).card) irq hf hinv.pos rfl hframe.lastPages
    (hframe.chans.trans hinv.chans) hair hchan
  obtain ⟨gone, hgone, l, hl, hcarries⟩ := h.queued
  have hstep : r.step M (.frame irq) =
      { r with sys := r.sys.step M (.frame irq), aired := r.aired ++
        Airing.of c (r.sys.step M (.frame irq)).card } :=
    if_neg (by simp [hf])
  have hid : (r.sys.step M (.frame irq)).card.frame.id = c.frame.id + 1 :=
    (id_exec M c (.frame irq)).trans (if_pos (by simp [Op.isNewFrame, hf]))
  obtain ⟨hone, hnew⟩ := Airing.of_new c (r.sys.step M (.frame irq)).card
  rw [hid] at hnew
  rw [hstep]
  refine ⟨hi, ⟨gone ++ (q.take e.pops).map fun p => (p, c.stream.pagemeta p), ?_, l ++
    l', ?_, ?_⟩, ?_, ?_⟩
  · show r.cut = _ ++ (q.drop e.pops).map fun p =>
      (p, (r.sys.step M (.frame irq)).card.stream.pagemeta p)
    have hkept :
      (q.drop e.pops).map (fun p => (p, (r.sys.step M (.frame irq)).card.stream.pagemeta p)) =
        (q.drop e.pops).map fun p => (p, c.stream.pagemeta p) := by
      refine List.map_congr_left fun p hp => ?_
      rw [hframe.pagemeta p fun hload => ?_]
      exact List.disjoint_of_nodup_append (hsub.nodup hinv.holds.nodup) hload hp
    rw [hkept, hgone, List.append_assoc, ← List.map_append, List.take_append_drop]
  · refine hl.append (hl'.trans (List.Sublist.map _ ?_))
    have hsub' : (e.loaded ++ q.drop e.pops).Sublist (q.take e.pops ++ q.drop e.pops) := by
      rw [List.take_append_drop]
      exact hsub
    exact (List.append_sublist_append_right _).mp hsub'
  · exact List.rel_append hcarries hcarries'
  · refine List.pairwise_append.mpr ⟨h.ordered, hone, fun a ha b hb => ?_⟩
    have hle : a.id ≤ c.frame.id := h.past a ha
    rw [hnew b hb]
    omega
  · show ∀ a ∈ r.aired ++ Airing.of c (r.sys.step M (.frame irq)).card, a.id ≤
      (r.sys.step M (.frame irq)).card.frame.id
    rw [hid]
    intro a ha
    rcases List.mem_append.mp ha with ha | ha
    · have hle : a.id ≤ c.frame.id := h.past a ha
      omega
    · exact (hnew a ha).le

/-- Every step keeps the reel. -/
theorem step (h : Reeled k r q) (M : ModParams) {op : Op TC} (hop : ReelClient r op) :
    ∃ q', Reeled k (r.step M op) q' := by
  obtain ⟨q', hi, hm⟩ := h.inv.step M hop.client
  refine ⟨q', ?_⟩
  have hid : ∀ {op : Op TC}, op.isNewFrame = false →
      (r.sys.step M op).card.frame.id = r.sys.card.frame.id := fun hnew =>
    (id_exec M r.sys.card _).trans (if_neg (by simp [hnew]))
  cases hm with
  | quiet hquiet calm keeps pagemeta held pushed popped =>
    have hstill : (r.step M op).cut = r.cut ∧ (r.step M op).aired = r.aired ∧
        op.isNewFrame = false := by
      rcases hquiet with hquiet | rfl
      · cases op with
        | frame irq =>
          have hfield : irq.field = true := hquiet
          unfold Reel.step
          simp [hfield, Op.isNewFrame]
        | fifoPush p => exact absurd hquiet id
        | _ => exact ⟨rfl, rfl, rfl⟩
      · exact ⟨rfl, rfl, rfl⟩
    have hsys := reel_sys M r op
    refine h.same (by rw [hsys]; exact hi) (fun p _ => ?_) hstill.1 hstill.2.1 ?_
    · rw [hsys, pagemeta]
    · rw [hsys]
      exact hid hstill.2.2
  | @setmeta page m q calm keeps pagemeta held pushed popped =>
    refine h.same hi (fun p hp => ?_) rfl rfl (hid rfl)
    -- the client holds the page, so it is not in the FIFO
    exact pagemeta p fun hpage =>
      (List.nodup_append.mp h.inv.nodup).2.2 page hop p (List.mem_append_left _ hp) hpage.symm
  | alloc calm free inuse fifo pagemeta =>
    exact h.same hi (fun p _ => congrFun pagemeta p) rfl rfl (hid rfl)
  | free calm mem inuse fifo pagemeta =>
    exact h.same hi (fun p _ => congrFun pagemeta p) rfl rfl (hid rfl)
  | push calm mem inuse fifo pagemeta held pushed => exact h.push M hi pagemeta pushed
  | popNil calm inuse fifo pagemeta =>
    exact h.same hi (fun p hp => absurd hp List.not_mem_nil) rfl rfl (hid rfl)
  | popCons calm inuse fifo pagemeta => exact h.pop hi pagemeta rfl rfl (hid rfl)
  | play mode field frame => exact h.frame M field hi
  | arm mode field frame => exact absurd (mode.1.mp (h.inv.mode.1.mpr rfl)) (by decide)

end Reeled

/-- A reel begins with `STREAM_INIT`. -/
def Reel.init (c : Card TC) (pid : ℤ) (i : StreamInit) : Reel TC := ⟨Sys.init c pid i, [], []⟩

/-- In every playback run of a client that keeps to the pages it holds, at any speed: the
frames that showed a page on each channel came one after the other, and what was on air
in them is that of some of the pages pushed, in the order of the pushes; each is a page of channel 0, with the private
value it was pushed with, and its timecode if it was pushed with one. Any other new
frame keeps the private value and shows what the generator comes to. -/
theorem aired_pushed {M : ModParams} {c : Card TC} {pid : ℤ} {i : StreamInit}
    (hm : Mode.playback.Of i.flags) {r : Reel TC}
    (hr : Runs.Reach (Reel.step M) ReelClient (Reel.init c pid i) r) :
    r.aired.Pairwise (fun a b => a.id < b.id) ∧
      (∃ l, l.Sublist r.cut ∧ List.Forall₂ Airing.Carries r.aired l) ∧
      ∀ irq : FrameIrq TC, irq.field = false →
        Airing.of r.sys.card (exec M r.sys.card (.frame irq)).2 = [] →
        (exec M r.sys.card (.frame irq)).2.frame.time.priv = r.sys.card.frame.time.priv ∧
          (exec M r.sys.card (.frame irq)).2.frame.time.tcg = r.sys.card.generated := by
  have hinit : Reeled (clampChans i.chans).toNat (Reel.init c pid i) [] :=
    ⟨Sys.init_inv c pid hm, ⟨[], rfl, [], List.nil_sublist _, .nil⟩, .nil,
      fun _ ha => absurd ha List.not_mem_nil⟩
  obtain ⟨q, h⟩ := hr.inv (I := fun r => ∃ q, Reeled (clampChans i.chans).toNat r q) ⟨[], hinit⟩
    fun r op ⟨_, hr⟩ hop => hr.step M hop
  obtain ⟨gone, hgone, l, hl, hcarries⟩ := h.queued
  refine ⟨h.ordered, ⟨l, hl.trans ?_, hcarries⟩, fun irq hf hshort => ?_⟩
  · rw [hgone]
    exact List.sublist_append_left ..
  · have hframe := h.inv.playFrame M hf
    have hair := h.onAir hf
    have hmaster : (r.sys.card.playStep (clampChans i.chans).toNat q).master
        (clampChans i.chans).toNat = none := by
      refine if_neg fun hfull => ?_
      have hlast := hframe.lastPages
      have hlen : ((r.sys.step M (.frame irq)).card.lastPages.length : ℤ) =
          (r.sys.step M (.frame irq)).card.stream.chans := by
        rw [hlast, hframe.chans, h.inv.chans, hfull]
      have hnone : (r.sys.step M (.frame irq)).card.lastPages.head?.toList.map _ = [] :=
        (if_pos hlen).symm.trans hshort
      have hpos := h.inv.pos
      rw [hlast] at hnone
      cases hl : (r.sys.card.playStep (clampChans i.chans).toNat q).loaded with
      | nil =>
        rw [hl, List.length_nil] at hfull
        omega
      | cons p l =>
        rw [hl] at hnone
        exact absurd hnone (List.cons_ne_nil _ _)
    rw [hmaster] at hair
    refine ⟨congrArg Prod.fst hair, ?_⟩
    rw [(hears_exec M r.sys.card (.frame irq)).shown]
    exact (if_neg (by simp [hf])).trans (congrArg Prod.snd hair)

/-- Two frames on two channels, the second with a timecode of its own and at double
speed, which leaves out the one between; then none is left. -/
theorem aired_pushed_two :
    let page (p chan : ℤ) (priv tc : ℕ) : List (Op ℕ) :=
      [.setmeta p { (StreamMeta.zero : StreamMeta ℕ) with
        chan := chan
        priv := priv
        tc := update (StreamMeta.zero : StreamMeta ℕ).tc .internal tc }, .fifoPush p]
    let ops := [.pageAlloc, .pageAlloc, .pageAlloc, .pageAlloc, .pageAlloc, .pageAlloc] ++
      page 0 0 7 0 ++ page 1 1 0 0 ++
      page 2 0 8 60 ++ page 3 1 0 0 ++ page 4 0 9 90 ++ page 5 1 0 0 ++
      [.timecodeSet 50, .streamStart .frame, .frame blankFrame, .setspeed 2000000,
        .frame blankFrame, .frame blankFrame]
    let r := ops.foldl (Reel.step {}) (Reel.init (Card.new false false) 0 ⟨8, ajaPlayback, 2, 0⟩)
    (∃ l, l.Sublist r.cut ∧ List.Forall₂ Airing.Carries r.aired l) ∧
      r.aired.map (fun a => (a.id, a.page, a.priv, a.tcg)) = [(1, 0, 7, 51), (2, 4, 9, 90)] := by
  intro page ops r
  have hr : Runs.Reach (Reel.step {}) ReelClient
    (Reel.init (Card.new false false) 0 ⟨8, ajaPlayback, 2, 0⟩) r :=
    .of_along ops (by decide +kernel)
  exact ⟨(aired_pushed (by decide) hr).2.1, by decide +kernel⟩

end AjaDriver
