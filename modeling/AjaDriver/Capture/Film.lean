/-
# The film of a capture run

`Film` is a card and its client together with what the metadata of the pages should
be, kept frame by frame: `armed` of the pages being captured into, `filmed` of all
the pages published so far. With every page it pops the client is handed the
metadata filmed for it, and the film has the frames in order (`popped_filmed`).
-/
import AjaDriver.Capture
import AjaDriver.Capture.Meta
import AjaDriver.Released

namespace AjaDriver

open Function Word Pool Card

variable {TC : Type} [Timecode TC]

/-! ### The frame count -/

omit [Timecode TC] in
theorem frame_streamStop (c : Card TC) : (streamStop c).frame = c.frame := by
  unfold streamStop
  simp only [frame_prset]
  split_ifs <;> exact frame_ltcRun _ false

/-- A new frame is counted, and nothing else is. -/
theorem id_exec (M : ModParams) (c : Card TC) (op : Op TC) :
    (exec M c op).2.frame.id = if op.isNewFrame then c.frame.id + 1 else c.frame.id := by
  cases op with
  | frame irq =>
    obtain ⟨frames, audio, hnext⟩ := handleFrame_next irq c
    have hid : (handleFrame irq c).frame.id = (c.control.next (cue c (.frame irq))).id :=
      congrArg Control.id hnext
    refine hid.trans ?_
    cases hf : irq.field with
    | true =>
      rw [cue_secondField hf, if_neg (by simp [Op.isNewFrame, hf])]
      rfl
    | false =>
      rw [cue_newFrame hf, if_pos (by simp [Op.isNewFrame, hf])]
      exact Control.id_newFrame _
  | streamInit pid i =>
    show (streamInit c pid i).frame.id = c.frame.id
    unfold streamInit
    simp only [frame_prset]
    split_ifs <;> rfl
  | streamStart w =>
    show (ioctlStreamStart c w).2.frame.id = c.frame.id
    unfold ioctlStreamStart
    split_ifs
    · rfl
    · cases w with
      | frame => exact congrArg FrameInfo.id (frame_streamStart _)
      | timeout => rfl
      | signal => rfl
  | streamStop w =>
    cases w with
    | frame => exact congrArg FrameInfo.id (frame_streamStop c)
    | timeout => rfl
    | signal => rfl
  | release pid =>
    show (AjaDriver.release c pid).frame.id = c.frame.id
    unfold AjaDriver.release
    split_ifs
    · exact congrArg FrameInfo.id (frame_streamStop c)
    · rfl
  | getmeta page =>
    show (ioctlGetmeta c page).2.frame.id = c.frame.id
    unfold ioctlGetmeta
    split_ifs <;> rfl
  | setmeta page m =>
    show (ioctlSetmeta c page m).2.frame.id = c.frame.id
    unfold ioctlSetmeta
    split_ifs <;> rfl
  | settrig trig =>
    show (ioctlSettrig c trig).2.frame.id = c.frame.id
    unfold ioctlSettrig
    split_ifs <;> rfl
  | _ => rfl

/-! ### The film -/

/-- A card and its client, the metadata the pages being captured into were armed
with, and that of the pages published so far, in order. -/
structure Film (TC : Type) where
  sys : Sys TC
  armed : List (StreamMeta TC)
  filmed : List (StreamMeta TC)

/-- One operation. A new frame completes the metadata of the pages captured into
with what it reads, and makes that of the pages it arms. -/
def Film.step (M : ModParams) (f : Film TC) (op : Op TC) : Film TC :=
  match op with
  | .frame irq =>
    if irq.field then { f with sys := f.sys.step M op }
    else
      { sys := f.sys.step M op
        armed := (List.range (f.sys.step M op).card.lastPages.length).map fun n : ℕ =>
          irq.shot f.sys.card n
        filmed := f.filmed ++ f.armed.map irq.freeupIn.mark }
  | _ => { f with sys := f.sys.step M op }

/-- A client that sets the metadata of pages it holds only. -/
def FilmClient (f : Film TC) : Op TC → Prop
  | .setmeta page _ => page ∈ f.sys.held
  | op => CaptureClient f.sys op

instance (f : Film TC) : ∀ op, Decidable (FilmClient f op)
  | .setmeta page _ => inferInstanceAs (Decidable (page ∈ f.sys.held))
  | .pageAlloc | .fifoPush _ => instDecidableFalse
  | .streamInit pid i => inferInstanceAs (Decidable (Client f.sys (.streamInit pid i)))
  | .pageFree p => inferInstanceAs (Decidable (p ∈ f.sys.held))
  | .streamStart _ | .streamStop _ | .release _ | .getmeta _ | .fifoPop | .setspeed _ | .settrig _
    | .aframeAdd _
  | .timecodeSetflags _ | .timecodeClrflags _ | .timecodeSet _ | .frame _ => instDecidableTrue

omit [Timecode TC] in
theorem FilmClient.capture {f : Film TC} {op : Op TC} (h : FilmClient f op) :
    CaptureClient f.sys op := by
  cases op with
  | setmeta page m => trivial
  | _ => exact h

theorem film_sys (M : ModParams) (f : Film TC) (op : Op TC) :
    (f.step M op).sys = f.sys.step M op := by
  cases op with
  | frame irq =>
    unfold Film.step
    simp only
    split_ifs <;> rfl
  | _ => rfl

theorem film_newFrame (M : ModParams) {f : Film TC} {irq : FrameIrq TC} (hf : irq.field = false) :
    f.step M (.frame irq) =
      { sys := f.sys.step M (.frame irq)
        armed := (List.range (f.sys.step M (.frame irq)).card.lastPages.length).map fun n : ℕ =>
          irq.shot f.sys.card n
        filmed := f.filmed ++ f.armed.map irq.freeupIn.mark } :=
  if_neg (by simp [hf])

/-- Metadata of one frame before that of a later one, and in the order of the
channels. -/
def StreamMeta.Before (m m' : StreamMeta TC) : Prop :=
  m.timing.id < m'.timing.id ∨ m.timing.id = m'.timing.id ∧ m.chan < m'.chan

/-- The metadata of the pages in the FIFO and at the channels is what was filmed and
what was armed; all of it is in order, and none is later than the card's frame. -/
structure Filmed (k : ℕ) (f : Film TC) (q : List ℤ) : Prop where
  captures : Captures k f.sys q
  counted : f.filmed.length = f.sys.popped.length + q.length
  queued : q.map f.sys.card.stream.pagemeta = f.filmed.drop f.sys.popped.length
  waiting : f.sys.card.lastPages.map f.sys.card.stream.pagemeta = f.armed
  ordered : (f.filmed ++ f.armed).Pairwise StreamMeta.Before
  past : ∀ m ∈ f.filmed ++ f.armed, m.timing.id ≤ f.sys.card.frame.id

namespace Filmed

variable {k : ℕ} {f g : Film TC} {q : List ℤ}

omit [Timecode TC] in
/-- A step that leaves the metadata of the pages queued and waiting. -/
theorem same (h : Filmed k f q) (hc : Captures k g.sys q)
    (hlast : g.sys.card.lastPages = f.sys.card.lastPages)
    (hmeta : ∀ p ∈ q ++ f.sys.card.lastPages,
      g.sys.card.stream.pagemeta p = f.sys.card.stream.pagemeta p)
    (hpopped : g.sys.popped = f.sys.popped) (harmed : g.armed = f.armed)
    (hfilmed : g.filmed = f.filmed)
    (hid : g.sys.card.frame.id = f.sys.card.frame.id) : Filmed k g q where
  captures := hc
  counted := by rw [hfilmed, hpopped, h.counted]
  queued := by
    rw [hfilmed, hpopped, ← h.queued]
    exact List.map_congr_left fun p hp => hmeta p (List.mem_append_left _ hp)
  waiting := by
    rw [harmed, hlast, ← h.waiting]
    exact List.map_congr_left fun p hp => hmeta p (List.mem_append_right _ hp)
  ordered := by
    rw [hfilmed, harmed]
    exact h.ordered
  past := by
    rw [hfilmed, harmed, hid]
    exact h.past

omit [Timecode TC] in
/-- The metadata a page is completed with keeps its place. -/
theorem before_mark (x : FreeupIn TC) (m m' : StreamMeta TC) :
    m.Before m' → (x.mark m).Before (x.mark m') := id

omit [Timecode TC] in
/-- What was filmed and what a new frame completes is of no later frame. -/
theorem past_mark (h : Filmed k f q) (x : FreeupIn TC) :
    ∀ m ∈ f.filmed ++ f.armed.map x.mark, m.timing.id ≤ f.sys.card.frame.id := by
  intro m hm
  rcases List.mem_append.mp hm with hm | hm
  · exact h.past m (List.mem_append_left _ hm)
  · obtain ⟨m', hm', rfl⟩ := List.mem_map.mp hm
    exact h.past m' (List.mem_append_right _ hm')

/-- Nor is the metadata of the pages the new frame arms. -/
theorem past_shot (h : Filmed k f q) (irq : FrameIrq TC) (n : ℕ) :
    ∀ m ∈ f.filmed ++ f.armed.map irq.freeupIn.mark ++
      (List.range n).map (fun n : ℕ => irq.shot f.sys.card n),
      m.timing.id ≤ f.sys.card.frame.id + 1 := by
  intro m hm
  rcases List.mem_append.mp hm with hm | hm
  · have hle := h.past_mark irq.freeupIn m hm
    omega
  · obtain ⟨n, -, rfl⟩ := List.mem_map.mp hm
    exact le_rfl

/-- What a new frame arms follows what it completes, and that what was filmed. -/
theorem ordered_shot (h : Filmed k f q) (irq : FrameIrq TC) (n : ℕ) :
    (f.filmed ++ f.armed.map irq.freeupIn.mark ++
      (List.range n).map fun n : ℕ => irq.shot f.sys.card n).Pairwise StreamMeta.Before := by
  obtain ⟨hfilmed, harmed, hcross⟩ := List.pairwise_append.mp h.ordered
  refine List.pairwise_append.mpr
    ⟨List.pairwise_append.mpr ⟨hfilmed, harmed.map _ (before_mark _), ?_⟩, ?_, ?_⟩
  · intro m hm m' hm'
    obtain ⟨m'', hm'', rfl⟩ := List.mem_map.mp hm'
    exact hcross m hm m'' hm''
  · refine List.pairwise_lt_range.map _ fun a b hab => .inr ⟨rfl, ?_⟩
    show (a : ℤ) < b
    exact_mod_cast hab
  · intro m hm m' hm'
    obtain ⟨n, -, rfl⟩ := List.mem_map.mp hm'
    left
    have hle := h.past_mark irq.freeupIn m hm
    show m.timing.id < f.sys.card.frame.id + 1
    omega

/-- The pages queued keep their metadata in a new frame, and those it publishes
have theirs completed: the pages armed now are no others' pages. -/
theorem queued_frame (h : Filmed k f q) {d : Card TC} {irq : FrameIrq TC} {armed : List ℤ}
    (hmeta : d.stream.pagemeta = shotPages (irq.shot f.sys.card) 0 armed fun p =>
      if p ∈ f.sys.card.lastPages then irq.freeupIn.mark (f.sys.card.stream.pagemeta p)
      else f.sys.card.stream.pagemeta p)
    (hfresh : ∀ p ∈ q ++ f.sys.card.lastPages, p ∉ armed) :
    (q ++ f.sys.card.lastPages).map d.stream.pagemeta =
      (f.filmed ++ f.armed.map irq.freeupIn.mark).drop f.sys.popped.length := by
  have hq : (q ++ f.sys.card.lastPages).Nodup :=
    (List.nodup_append.mp h.captures.inv.nodup).2.1
  rw [List.drop_append_of_le_length (by rw [h.counted]; omega), ← h.queued, ← h.waiting,
    List.map_append, List.map_map]
  congr 1
  · refine List.map_congr_left fun p hp => ?_
    rw [hmeta, shotPages_of_not_mem _ _ (hfresh p (List.mem_append_left _ hp))]
    exact if_neg fun hlast => (List.nodup_append.mp hq).2.2 p hp p hlast rfl
  · refine List.map_congr_left fun p hp => ?_
    rw [hmeta, shotPages_of_not_mem _ _ (hfresh p (List.mem_append_right _ hp))]
    exact if_pos hp

/-- A new frame. -/
theorem frame (h : Filmed k f q) (M : ModParams) {irq : FrameIrq TC} (hf : irq.field = false)
    (hc : Captures k (f.sys.step M (.frame irq)) (q ++ f.sys.card.lastPages))
    (hframe : ArmFrame f.sys.card (f.sys.step M (.frame irq)).card q (f.sys.card.armStep k))
    (hpopped : (f.sys.step M (.frame irq)).popped = f.sys.popped) :
    Filmed k (f.step M (.frame irq)) (q ++ f.sys.card.lastPages) := by
  have hinv := h.captures.inv
  have hmeta : (f.sys.step M (.frame irq)).card.stream.pagemeta = _ :=
    meta_handleFrame hf hinv.mode hinv.chans hinv.ranged hinv.typed
      (fun p hp => hinv.valid p (List.mem_append_right _ (List.mem_append_right _ hp)))
        hinv.holds (List.nodup_append.mp hinv.nodup).2.1
  have hrest := List.nodup_append.mp (List.nodup_append.mp hc.inv.nodup).2.1
  rw [hframe.lastPages] at hrest
  have hid : (f.sys.step M (.frame irq)).card.frame.id = f.sys.card.frame.id + 1 := by
    refine (id_exec M f.sys.card (.frame irq)).trans (if_pos ?_)
    simp [Op.isNewFrame, hf]
  rw [film_newFrame M hf]
  refine ⟨hc, ?_, ?_, ?_, h.ordered_shot irq _, ?_⟩
  · show (f.filmed ++ f.armed.map irq.freeupIn.mark).length =
      (f.sys.step M (.frame irq)).popped.length + _
    rw [hpopped, List.length_append, List.length_map, ← h.waiting, List.length_map, h.counted,
      List.length_append]
    omega
  · show (q ++ f.sys.card.lastPages).map (f.sys.step M (.frame irq)).card.stream.pagemeta =
      (f.filmed ++ f.armed.map irq.freeupIn.mark).drop (f.sys.step M (.frame irq)).popped.length
    rw [hpopped]
    exact h.queued_frame hmeta fun p hp harm => hrest.2.2 p hp p harm rfl
  · show (f.sys.step M (.frame irq)).card.lastPages.map _ =
      List.map _ (List.range (f.sys.step M (.frame irq)).card.lastPages.length)
    rw [hframe.lastPages, hmeta]
    apply List.ext_getElem
    · simp
    · intro j hj hj'
      rw [List.getElem_map, List.getElem_map, List.getElem_range]
      rw [List.length_map] at hj
      rw [shotPages_get _ hrest.2.1 (List.getElem?_eq_getElem hj), zero_add]
  · show ∀ m ∈ f.filmed ++ f.armed.map irq.freeupIn.mark ++ List.map _ _, m.timing.id ≤
      (f.sys.step M (.frame irq)).card.frame.id
    rw [hid]
    exact h.past_shot irq _

/-- Every step keeps the film. -/
theorem step (h : Filmed k f q) (M : ModParams) {op : Op TC} (hop : FilmClient f op) :
    ∃ r, Filmed k (f.step M op) r := by
  obtain ⟨r, ht, hm⟩ := h.captures.inv.step M hop.capture.client
  obtain ⟨r', hc⟩ := h.captures.step M hop.capture
  obtain rfl : r' = r := hc.inv.holds.unique ht.holds
  refine ⟨r', ?_⟩
  have hid : ∀ {op : Op TC}, op.isNewFrame = false →
      (f.sys.step M op).card.frame.id = f.sys.card.frame.id := fun hnew =>
    (id_exec M f.sys.card _).trans (if_neg (by simp [hnew]))
  have hsys := film_sys M f op
  cases hm with
  | quiet hquiet calm keeps pagemeta held pushed popped =>
    have hstill : (f.step M op).armed = f.armed ∧ (f.step M op).filmed = f.filmed ∧
        op.isNewFrame = false := by
      rcases hquiet with hquiet | rfl
      · cases op with
        | frame irq =>
          have hfield : irq.field = true := hquiet
          unfold Film.step
          simp [hfield, Op.isNewFrame]
        | _ => exact ⟨rfl, rfl, rfl⟩
      · exact absurd hop id
    refine h.same (by rw [hsys]; exact hc) ?_ (fun p _ => ?_) ?_ hstill.1 hstill.2.1 ?_
    · rw [hsys]; exact lastPages_congr calm.last
    · rw [hsys, pagemeta]
    · rw [hsys, popped]
    · rw [hsys]; exact hid hstill.2.2
  | @setmeta page m q calm keeps pagemeta held pushed popped =>
    refine h.same hc (lastPages_congr calm.last) (fun p hp => ?_) popped rfl rfl (hid rfl)
    -- the client holds the page, so it is not in the FIFO nor at a channel
    exact pagemeta p fun hpage =>
      (List.nodup_append.mp h.captures.inv.nodup).2.2 page hop p hp hpage.symm
  | alloc => exact absurd hop id
  | push => exact absurd hop id
  | free calm mem inuse fifo pagemeta held pushed popped =>
    exact h.same hc (lastPages_congr calm.last)
      (fun p _ => congrFun pagemeta p) popped rfl rfl (hid rfl)
  | popNil calm inuse fifo pagemeta held pushed popped =>
    exact h.same hc (lastPages_congr calm.last)
      (fun p _ => congrFun pagemeta p) popped rfl rfl (hid rfl)
  | @popCons a rest calm inuse fifo pagemeta held pushed popped =>
    have hlast := lastPages_congr calm.last
    have hqueued := h.queued
    refine ⟨hc, ?_, ?_, ?_, h.ordered, ?_⟩
    · show f.filmed.length = (f.sys.step M .fifoPop).popped.length + _
      rw [popped, h.counted, List.length_append, List.length_cons, List.length_singleton]
      omega
    · show r'.map (f.sys.step M .fifoPop).card.stream.pagemeta =
        f.filmed.drop (f.sys.step M .fifoPop).popped.length
      rw [pagemeta, popped, List.length_append, List.length_singleton, ← List.drop_drop, ← hqueued]
      rfl
    · show (f.sys.step M .fifoPop).card.lastPages.map (f.sys.step M .fifoPop).card.stream.pagemeta =
        f.armed
      rw [hlast, pagemeta]
      exact h.waiting
    · show ∀ m ∈ f.filmed ++ f.armed, m.timing.id ≤ (f.sys.step M .fifoPop).card.frame.id
      rw [hid rfl]
      exact h.past
  | play mode field frame => exact absurd (h.captures.inv.mode.1.mp (mode.1.mpr rfl)) (by decide)
  | arm mode field frame held pushed popped => exact h.frame M field hc frame popped

end Filmed

/-- A film begins with `STREAM_INIT`. -/
def Film.init (c : Card TC) (pid : ℤ) (i : StreamInit) : Film TC := ⟨Sys.init c pid i, [], []⟩

omit [Timecode TC] in
theorem init_filmed (c : Card TC) (pid : ℤ) {i : StreamInit} (hm : Mode.capture.Of i.flags) :
    Filmed (clampChans i.chans).toNat (Film.init c pid i) [] := by
  have hlast : (Film.init c pid i).sys.card.lastPages = [] := by
    have horder := (init_captures c pid hm).order
    exact (List.append_eq_nil_iff.mp (List.append_eq_nil_iff.mp horder).2).2
  refine ⟨init_captures c pid hm, rfl, rfl, ?_, .nil, fun _ hm => absurd hm List.not_mem_nil⟩
  rw [hlast]
  rfl

/-- In every capture run: what was filmed is in the order of the frames, and within a
frame of the channels; `FIFO_POP` finds a page exactly when a filmed one is still to
be popped; and `GETMETA` then gives, with the `n`-th page popped, the metadata of the
`n`-th page filmed. -/
theorem popped_filmed {M : ModParams} {c : Card TC} {pid : ℤ} {i : StreamInit}
    (hm : Mode.capture.Of i.flags) {f : Film TC}
    (hr : Runs.Reach (Film.step M) FilmClient (Film.init c pid i) f) :
    let pop := exec M f.sys.card .fifoPop
    f.filmed.Pairwise StreamMeta.Before ∧ (0 ≤ pop.1 ↔ f.sys.popped.length < f.filmed.length) ∧
      (0 ≤ pop.1 → ∃ m, f.filmed[f.sys.popped.length]? = some m ∧
        (ioctlGetmeta pop.2 pop.1).1 = (0, some m)) := by
  intro pop
  obtain ⟨q, h⟩ :=
    hr.inv (I := fun f => ∃ q, Filmed (clampChans i.chans).toNat f q) ⟨[], init_filmed c pid hm⟩
    fun f op ⟨_, hf⟩ hop => hf.step M hop
  have hinv := h.captures.inv
  refine ⟨(List.pairwise_append.mp h.ordered).1, ?_⟩
  cases q with
  | nil =>
    have hempty : pop.1 = -EAGAIN := hinv.holds.pop_nil.1
    have hcounted := h.counted
    have hneg : ¬ 0 ≤ pop.1 := by rw [hempty]; decide
    exact ⟨⟨fun h0 => absurd h0 hneg, fun hlt => by rw [hcounted, List.length_nil] at hlt; omega⟩,
      fun h0 => absurd h0 hneg⟩
  | cons p q =>
    have hpop : pop.1 = p := hinv.holds.pop_cons.1
    obtain ⟨h0, h64⟩ := hinv.valid p (List.mem_append_right _ (List.mem_cons_self ..))
    have hcounted := h.counted
    rw [List.length_cons] at hcounted
    rw [hpop]
    refine ⟨⟨fun _ => by omega, fun _ => h0⟩, fun _ => ⟨f.sys.card.stream.pagemeta p, ?_, ?_⟩⟩
    · have hhead := congrArg List.head? h.queued
      rw [List.head?_drop] at hhead
      exact hhead.symm
    · have hmeta : (ioctlGetmeta pop.2 p).1 = (0, some (pop.2.stream.pagemeta p)) := by
        unfold ioctlGetmeta
        rw [(isValidPage_iff p).mpr ⟨h0, h64⟩, if_neg (by simp)]
      exact hmeta

/-- A page armed in frame 2, with the generator at 51, and published in frame 3, when
the audio pointer is 700 and the first input shows 9. -/
theorem popped_filmed_one :
    let frame (acaplast sdi1 : ℕ) : Op ℕ :=
  .frame ⟨false, 3, 4, 5, acaplast, (sdi1, 0), (0, 0), 0, 0, none⟩
    let ops := [.frame blankFrame, .timecodeSet 50, .streamStart .frame, frame 600 8, frame 700 9]
    let f := ops.foldl (Film.step {}) (Film.init (Card.new false false) 0 ⟨4, ajaCapture, 1, 0⟩)
    ∃ m, (ioctlGetmeta (exec {} f.sys.card .fifoPop).2 (exec {} f.sys.card .fifoPop).1).1 =
      (0, some m) ∧
      m.timing.id = 2 ∧ m.tc .internal = 51 ∧ m.audioptr = 700 ∧ m.tc .sdi1 = 9 := by
  intro frame ops f
  have hr : Runs.Reach (Film.step {}) FilmClient
    (Film.init (Card.new false false) 0 ⟨4, ajaCapture, 1, 0⟩) f :=
    .of_along ops (by decide +kernel)
  obtain ⟨-, -, hget⟩ := popped_filmed (M := {}) (by decide) hr
  obtain ⟨m, hm, hmeta⟩ := hget (by decide +kernel)
  have hfilmed : f.filmed[f.sys.popped.length]?.map
    (fun m => (m.timing.id, m.tc .internal, m.audioptr, m.tc .sdi1)) =
      some (2, 51, 700, 9) := by decide +kernel
  rw [hm] at hfilmed
  simp only [Option.map_some, Option.some.injEq, Prod.mk.injEq] at hfilmed
  exact ⟨m, hmeta, hfilmed⟩

end AjaDriver
