/-
# The trigger of a stream

A client sets the frame its stream is to start with; the frame interrupt starts
it. `Watched` is a card with a record of its triggers: how many were accepted,
the last one if no start, stop or init has cancelled it since, those that
started the stream, and the frames handed to the engines. On the record as on
the control a step is its cue (`cued_step`), and a trigger that is set is the
one in the record and in the future: `Cued.Inv`. From there on
`trigger_discipline`.
-/
import AjaDriver.Client
import AjaDriver.Control

namespace AjaDriver

open Function Card Runs

variable {TC : Type}

/-! ### Starts, cancellations and the engines -/

/-- From `c` to `d` the stream was started: it runs now, or its trigger is used
up. -/
def Started (c d : Card TC) : Prop :=
  (c.stream.running = false ∧ d.stream.running = true) ∨
    (c.stream.trigger ≠ 0 ∧ d.stream.trigger = 0)

instance decidableStarted (c d : Card TC) : Decidable (Started c d) :=
  inferInstanceAs (Decidable (_ ∨ _))

variable [Timecode TC]

/-- The card the interrupt hands to the playback and the capture engine, if it
comes to them. -/
def handed (irq : FrameIrq TC) (c : Card TC) : Option (Card TC) :=
  if ¬ irq.field ∧ c.stream.running then some
    (frameAudio (streamFreeup irq.freeupIn (frameCount irq c))) else none

/-- What the interrupt does around the engines, and where they are. -/
theorem handleFrame_handed (irq : FrameIrq TC) (c : Card TC) :
    handleFrame irq c = aplayCheck irq.field
      (match handed irq c with
        | some d => frameOutput irq true (streamCapture (streamPlayback d))
        | none =>
          if irq.field then secondField c
            else frameOutput irq false (streamFreeup irq.freeupIn (frameCount irq c))) := by
  unfold handleFrame newFrame handed frameEngines
  cases irq.field <;> cases c.stream.running <;> rfl

/-- An operation that starts the stream. -/
def Starts (M : ModParams) (c : Card TC) : Op TC → Prop
  | .streamStart w => (exec M c (.streamStart w)).1 = 0
  | .frame irq => Started c (handleFrame irq c)
  | _ => False

/-- A completed stop or init. -/
def Halts (M : ModParams) (c : Card TC) : Op TC → Prop
  | .streamInit _ _ => True
  | .streamStop w => (exec M c (.streamStop w)).1 = 0
  | .release pid => c.stream.running ∧ pid = c.stream.pid
  | _ => False

/-! ### The record -/

/-- What happened to the triggers of a card. -/
structure Record where
  accepted : ℕ
  pending : Option (ℕ × ℤ)
  started : List ℕ
  handed : List ℤ

/-- A card with the record of its triggers. -/
structure Watched (TC : Type) where
  card : Card TC
  log : Record

/-- The record begins with `STREAM_INIT`, whatever the card was doing before. -/
def Watched.init (c : Card TC) (pid : ℤ) (i : StreamInit) : Watched TC where
  card := streamInit c pid i
  log := ⟨0, none, [], []⟩

/-- The triggers accepted: each has its number. -/
def acceptedAfter (accepted : ℕ) (r : ℤ) : Op TC → ℕ
  | .settrig _ => if r = 0 then accepted + 1 else accepted
  | _ => accepted

/-- The last trigger accepted, unless a start, a stop or an init came since. -/
def pendingAfter (c : Card TC) (h : Record) (r : ℤ) : Op TC → Option (ℕ × ℤ)
  | .settrig trig => if r = 0 then some (h.accepted, trig) else h.pending
  | .streamStart _ => if r = 0 then none else h.pending
  | .streamStop _ => if r = 0 then none else h.pending
  | .release pid => if c.stream.running ∧ pid = c.stream.pid then none else h.pending
  | .streamInit _ _ => none
  | _ => h.pending

/-- The numbers of the triggers with which an interrupt started the stream. -/
def startedAfter (c : Card TC) (h : Record) : Op TC → List ℕ
  | .frame irq =>
    if Started c (handleFrame irq c) then h.started ++ (h.pending.map Prod.fst).toList
      else h.started
  | _ => h.started

/-- The frames handed to the engines. -/
def handedAfter (c : Card TC) (l : List ℤ) : Op TC → List ℤ
  | .frame irq => l ++ ((handed irq c).map fun d => d.frame.id).toList
  | _ => l

/-- One operation. -/
def Watched.step (M : ModParams) (w : Watched TC) (op : Op TC) : Watched TC where
  card := (exec M w.card op).2
  log :=
    { accepted := acceptedAfter w.log.accepted (exec M w.card op).1 op
      pending := pendingAfter w.card w.log (exec M w.card op).1 op
      started := startedAfter w.card w.log op
      handed := handedAfter w.card w.log.handed op }

/-- The operations of a run: a stream plays or captures, not both, and no audio
frames wait to be played. -/
def Permitted : Op TC → Prop
  | .streamInit _ i => ∃ m : Mode, m.Of i.flags
  | .aframeAdd _ => False
  | _ => True

/-! ### The record and the cues -/

/-- The control of a card with the record of its triggers. -/
structure Cued where
  control : Control
  log : Record

/-- One cue. -/
def Cued.next (w : Cued) (q : Cue) : Cued where
  control := w.control.next q
  log :=
    match q with
    | .newFrame =>
      { w.log with
        started := if w.control.Due then w.log.started ++ (w.log.pending.map Prod.fst).toList
          else w.log.started
        handed := if w.control.running then w.log.handed ++ [w.control.id + 1] else w.log.handed }
    | .settrig trig =>
      { w.log with accepted := w.log.accepted + 1, pending := some (w.log.accepted, trig) }
    | .start | .stop | .init _ => { w.log with pending := none }
    | .pass => w.log

omit [Timecode TC] in
def Watched.cued (w : Watched TC) : Cued := ⟨w.card.control, w.log⟩

namespace Control

/-- A new frame starts the stream exactly when its trigger is due. -/
theorem newFrame_starts (k : Control) :
    (k.running = false ∧ k.newFrame.running = true) ∨ (k.trigger ≠ 0 ∧ k.newFrame.trigger = 0) ↔
      k.Due := by
  rw [running_newFrame, trigger_newFrame]
  by_cases h : k.Due
  · rw [if_pos h, if_pos h]
    exact iff_of_true (.inr ⟨h.1, rfl⟩) h
  · rw [if_neg h, if_neg h]
    refine iff_of_false ?_ h
    rintro (⟨h0, h1⟩ | ⟨h0, h1⟩)
    · exact absurd (h0.symm.trans h1) Bool.false_ne_true
    · exact h0 h1

end Control

/-- The second field starts nothing, the first does when the trigger is due. -/
theorem started_iff {c : Card TC} (h : c.aplay.frames = 0) (irq : FrameIrq TC) :
    Started c (handleFrame irq c) ↔ irq.field = false ∧ c.control.Due := by
  have hk := control_handleFrame h irq
  have hr : (handleFrame irq c).stream.running = (c.control.next (cue c (.frame irq))).running :=
    congrArg Control.running hk
  have ht : (handleFrame irq c).stream.trigger = (c.control.next (cue c (.frame irq))).trigger :=
    congrArg Control.trigger hk
  unfold Started
  rw [hr, ht]
  cases hf : irq.field with
  | true =>
    rw [cue_secondField hf]
    refine iff_of_false ?_ (fun hd => absurd hd.1 (by decide))
    rintro (⟨h0, h1⟩ | ⟨h0, h1⟩)
    · exact absurd (h0.symm.trans h1) Bool.false_ne_true
    · exact h0 h1
  | false =>
    rw [cue_newFrame hf]
    exact c.control.newFrame_starts.trans ⟨fun hd => ⟨rfl, hd⟩, fun hd => hd.2⟩

/-- The engines get the new frame. -/
theorem handed_id (irq : FrameIrq TC) (c : Card TC) :
    (handed irq c).map (fun d => d.frame.id) =
      if irq.field = false ∧ c.stream.running then some (c.frame.id + 1) else none := by
  have hid :
      (frameAudio (streamFreeup irq.freeupIn (frameCount irq c))).frame.id = c.frame.id + 1 := by
    have hk : Card.control (frameAudio (streamFreeup irq.freeupIn (frameCount irq c))) =
        c.control.count.startAudio := by
      rw [control_frameAudio, control_streamFreeup, control_frameCount]
    refine (congrArg Control.id hk).trans ?_
    unfold Control.startAudio Control.count
    split_ifs <;> rfl
  unfold handed
  cases hf : irq.field <;> cases hr : c.stream.running <;> simp [hid]

/-- A frame interrupt's part of the record. -/
theorem log_frame {w : Watched TC} (h : w.card.aplay.frames = 0) (M : ModParams)
    (irq : FrameIrq TC) :
    (w.step M (.frame irq)).log = (w.cued.next (cue w.card (.frame irq))).log := by
  have hstart := started_iff h irq
  have hid := handed_id irq w.card
  show Record.mk w.log.accepted w.log.pending (startedAfter w.card w.log (.frame irq))
    (handedAfter w.card w.log.handed (.frame irq)) = _
  unfold startedAfter handedAfter
  simp only
  rw [hid]
  cases hf : irq.field with
  | true =>
    rw [if_neg fun hs => absurd ((hstart.mp hs).1.symm.trans hf) Bool.false_ne_true,
      if_neg fun hs => absurd hs.1 (by decide),
      cue_secondField hf]
    simp [Cued.next, Watched.cued]
  | false =>
    have hdue : Started w.card (handleFrame irq w.card) ↔ w.card.control.Due :=
      hstart.trans (and_iff_right hf)
    rw [cue_newFrame hf]
    unfold Cued.next Watched.cued
    simp only
    congr 1
    · by_cases hd : w.card.control.Due
      · rw [if_pos (hdue.mpr hd), if_pos hd]
      · rw [if_neg (mt hdue.mp hd), if_neg hd]
    · cases hr : w.card.stream.running with
      | true =>
        rw [if_pos ⟨trivial, rfl⟩, if_pos (show w.card.control.running = true from hr)]
        rfl
      | false =>
        rw [if_neg fun hs => Bool.false_ne_true hs.2,
          if_neg (show ¬ w.card.control.running = true from ne_true_of_eq_false hr)]
        exact List.append_nil _

/-- An operation moves the control and the record as its cue does. -/
theorem cued_step {w : Watched TC} (h : w.card.aplay.frames = 0) (M : ModParams) {op : Op TC}
    (hop : Permitted op) :
    (w.step M op).cued = w.cued.next (cue w.card op) := by
  have hframes : ∀ frames, op ≠ .aframeAdd frames := by
    rintro frames rfl
    exact hop
  refine congrArg₂ Cued.mk (control_exec M h hframes) ?_
  cases op with
  | frame irq => exact log_frame h M irq
  | settrig trig =>
    show Record.mk (acceptedAfter w.log.accepted (ioctlSettrig w.card trig).1 (.settrig trig))
      (pendingAfter w.card w.log (ioctlSettrig w.card trig).1 (.settrig trig)) w.log.started
        w.log.handed = _
    simp only [cue, ioctlSettrig]
    split_ifs <;> rfl
  | streamStart v =>
    show Record.mk w.log.accepted (pendingAfter w.card w.log (ioctlStreamStart w.card v).1
      (.streamStart v))
      w.log.started w.log.handed = _
    simp only [ioctlStreamStart]
    cases v <;> simp only [cue] <;> split_ifs <;> rfl
  | streamStop v =>
    show Record.mk w.log.accepted (pendingAfter w.card w.log (ioctlStreamStop w.card v).1
      (.streamStop v))
      w.log.started w.log.handed = _
    cases v <;> rfl
  | release pid =>
    show Record.mk w.log.accepted (pendingAfter w.card w.log 0 (.release pid)) w.log.started
      w.log.handed = _
    simp only [cue, pendingAfter]
    split_ifs <;> rfl
  | aframeAdd frames => exact hop.elim
  | _ => rfl

omit [Timecode TC] in
theorem permitted_frame (irq : FrameIrq TC) : Permitted (.frame irq) := trivial

theorem cued_step_newFrame {w : Watched TC} (h : w.card.aplay.frames = 0) (M : ModParams)
    {irq : FrameIrq TC} (hfield : irq.field = false) :
    (w.step M (.frame irq)).cued = w.cued.next .newFrame := by
  rw [cued_step h M (permitted_frame irq), cue_newFrame hfield]

/-! ### What holds of every run -/

/-- The cues of a run: only a trigger in the future is accepted. -/
def Cued.Ok (w : Cued) : Cue → Prop
  | .settrig trig => w.control.id < trig
  | .init flags => ∃ m : Mode, m.Of flags
  | _ => True

/-- A trigger that is set is in the future, is the one last accepted and not
cancelled, and has started nothing yet. -/
structure Cued.Inv (w : Cued) : Prop where
  armed : w.control.trigger = 0 ∨ w.control.id < w.control.trigger
  queued : w.control.trigger ≠ 0 → ∃ k, w.log.pending = some (k, w.control.trigger) ∧
    k ∉ w.log.started
  numbered : ∀ x, w.log.pending = some x → x.1 < w.log.accepted
  used : ∀ k ∈ w.log.started, k < w.log.accepted
  once : w.log.started.Nodup
  mode : ∃ m : Mode, m.Of w.control.flags
  silent : w.control.frames = 0

theorem Cued.Inv.mode_newFrame {w : Cued} (h : w.Inv) :
    ∃ m : Mode, m.Of w.control.newFrame.flags := by
  rw [Control.flags_newFrame]
  exact h.mode

/-- The trigger fires at a new frame: it is the one in the record, and is used up. -/
theorem Cued.Inv.fires {w : Cued} (h : w.Inv) (hd : w.control.Due) : (w.next .newFrame).Inv := by
  obtain ⟨k, hpend, hfresh⟩ := h.queued hd.1
  have hlt : k < w.log.accepted := h.numbered _ hpend
  have htrig : w.control.newFrame.trigger = 0 := by rw [Control.trigger_newFrame, if_pos hd]
  have hstarted : (w.next .newFrame).log.started = w.log.started ++ [k] := by
    unfold Cued.next
    simp only
    rw [if_pos hd, hpend]
    rfl
  refine ⟨.inl htrig, fun hne => absurd htrig hne, h.numbered, ?_, ?_, h.mode_newFrame, ?_⟩
  · rw [hstarted]
    intro j hj
    rcases List.mem_append.mp hj with hj | hj
    · exact h.used j hj
    · rw [List.mem_singleton.mp hj]
      exact hlt
  · rw [hstarted]
    exact List.nodup_append.mpr ⟨h.once, List.nodup_singleton k, fun a ha b hb hab =>
      hfresh (List.mem_singleton.mp hb ▸ hab ▸ ha)⟩
  · exact (Control.frames_newFrame _).trans h.silent

/-- A new frame at which no trigger is due leaves the trigger and the record. -/
theorem Cued.Inv.waits {w : Cued} (h : w.Inv) (hd : ¬ w.control.Due) : (w.next .newFrame).Inv := by
  have htrig : w.control.newFrame.trigger = w.control.trigger := by
    rw [Control.trigger_newFrame, if_neg hd]
  have hstarted : (w.next .newFrame).log.started = w.log.started := by
    unfold Cued.next
    simp only
    rw [if_neg hd]
  refine ⟨?_, fun hne => ?_, h.numbered, ?_, ?_, h.mode_newFrame, ?_⟩
  · show w.control.newFrame.trigger = 0 ∨ w.control.newFrame.id < w.control.newFrame.trigger
    rw [htrig, Control.id_newFrame]
    by_cases h0 : w.control.trigger = 0
    · exact .inl h0
    · have hne : w.control.trigger ≠ w.control.id + 1 := fun heq => hd ⟨h0, heq⟩
      rcases h.armed with h1 | h1
      · exact .inl h1
      · exact .inr (by omega)
  · show ∃ k, w.log.pending = some (k, w.control.newFrame.trigger) ∧
      k ∉ (w.next .newFrame).log.started
    rw [htrig, hstarted]
    exact h.queued (htrig ▸ hne)
  · rw [hstarted]
    exact h.used
  · rw [hstarted]
    exact h.once
  · exact (Control.frames_newFrame _).trans h.silent

theorem Cued.Inv.next {w : Cued} (h : w.Inv) {q : Cue} (hq : w.Ok q) : (w.next q).Inv := by
  cases q with
  | newFrame =>
    by_cases hd : w.control.Due
    · exact h.fires hd
    · exact h.waits hd
  | settrig trig =>
    refine ⟨.inr hq, fun _ => ⟨w.log.accepted, rfl, fun hmem => lt_irrefl _ (h.used _ hmem)⟩, ?_,
      fun k hk => (h.used k hk).trans (Nat.lt_succ_self _), h.once, h.mode, h.silent⟩
    intro x hx
    obtain rfl := Option.some.inj hx
    exact Nat.lt_succ_self _
  | start | stop =>
    exact ⟨.inl rfl, fun hne => absurd rfl hne, (fun x hx => by cases hx), h.used, h.once,
      h.mode, h.silent⟩
  | init flags =>
    exact ⟨.inl rfl, fun hne => absurd rfl hne, (fun x hx => by cases hx), h.used, h.once,
      hq, h.silent⟩
  | pass => exact h

omit [Timecode TC] in
/-- What is permitted is a cue of a run. -/
theorem cue_ok (w : Watched TC) {op : Op TC} (hop : Permitted op) : w.cued.Ok (cue w.card op) := by
  cases op with
  | streamInit pid i => exact hop
  | settrig trig =>
    simp only [cue]
    split_ifs with h
    · trivial
    · exact not_le.mp h
  | streamStart v => cases v <;> simp only [cue] <;> (try split_ifs) <;> trivial
  | streamStop v => cases v <;> trivial
  | release pid => simp only [cue]; split_ifs <;> trivial
  | frame irq => simp only [cue]; split_ifs <;> trivial
  | _ => trivial

omit [Timecode TC] in
theorem Watched.init_inv (c : Card TC) (pid : ℤ) {i : StreamInit} (hi : ∃ m : Mode, m.Of i.flags)
    (hf : c.aplay.frames = 0) : (Watched.init c pid i).cued.Inv := by
  have hk : (Watched.init c pid i).cued = ⟨c.control.next (.init i.flags), ⟨0, none, [], []⟩⟩ :=
    congrArg (Cued.mk · _) (control_streamInit c pid i)
  rw [hk]
  exact ⟨.inl rfl, fun hne => absurd rfl hne, (fun x hx => by cases hx), (fun k hk => by cases hk),
    List.nodup_nil, hi, hf⟩

theorem Cued.Inv.step {w : Watched TC} (h : w.cued.Inv) (M : ModParams) {op : Op TC}
    (hop : Permitted op) :
    (w.step M op).cued.Inv := by
  rw [cued_step h.silent M hop]
  exact h.next (cue_ok w hop)

/-! ### The frames a started stream hands on -/

/-- A new frame's interrupt. -/
def isNewFrame : Op TC → Bool
  | .frame irq => !irq.field
  | _ => false

/-- No stop or init intervenes. -/
def Onward (M : ModParams) (w : Watched TC) (op : Op TC) : Prop :=
  Permitted op ∧ ¬ Halts M w.card op

/-- Nothing starts the stream. -/
def Unstarted (M : ModParams) (w : Watched TC) (op : Op TC) : Prop :=
  Permitted op ∧ ¬ Starts M w.card op

/-- The cues of the first: no stop and no init, and a new frame for each of its
interrupts. -/
theorem cue_onward {M : ModParams} {c : Card TC} {op : Op TC} (h : ¬ Halts M c op) :
    cue c op ≠ .stop ∧ (∀ flags, cue c op ≠ .init flags) ∧
      (cue c op = .newFrame ↔ isNewFrame op = true) := by
  cases op with
  | streamInit pid i => exact absurd trivial h
  | streamStart v => cases v <;> simp only [cue] <;> (try split_ifs) <;> simp [isNewFrame]
  | streamStop v =>
    cases v with
    | frame => exact absurd rfl h
    | timeout => simp [cue, isNewFrame]
    | signal => simp [cue, isNewFrame]
  | release pid => simp [show cue c (.release pid) = .pass from if_neg h, isNewFrame]
  | settrig trig => simp only [cue]; split_ifs <;> simp [isNewFrame]
  | frame irq => cases hf : irq.field <;> simp [cue, isNewFrame, hf]
  | _ => simp [cue, isNewFrame]

/-- The cues of the second: no start, and no new frame when the trigger is due. -/
theorem cue_unstarted {M : ModParams} {c : Card TC} (hf : c.aplay.frames = 0) {op : Op TC}
    (h : ¬ Starts M c op) :
    cue c op ≠ .start ∧ (cue c op = .newFrame → ¬ c.control.Due) := by
  cases op with
  | streamStart v =>
    cases v with
    | frame =>
      have hr : c.stream.running = true := by
        by_contra hr
        refine h (show (ioctlStreamStart c .frame).1 = 0 from ?_)
        unfold ioctlStreamStart
        rw [if_neg hr]
      simp [cue, hr]
    | timeout => simp [cue]
    | signal => simp [cue]
  | streamStop v => cases v <;> simp [cue]
  | release pid => simp only [cue]; split_ifs <;> simp
  | settrig trig => simp only [cue]; split_ifs <;> simp
  | frame irq =>
    have hd : ¬ (irq.field = false ∧ c.control.Due) := fun hd => h ((started_iff hf irq).mpr hd)
    cases hfield : irq.field with
    | true => simp [cue, hfield]
    | false => simp [cue, hfield, show ¬ c.control.Due from fun hdue => hd ⟨hfield, hdue⟩]
  | _ => simp [cue]

/-- A running stream goes on, and every new frame goes to the engines. -/
theorem Cued.next_running {w : Cued} (hr : w.control.running = true) {q : Cue} (hs : q ≠ .stop)
    (hi : ∀ flags, q ≠ .init flags) :
    (w.next q).control.running = true ∧
      (q = .newFrame → (w.next q).control.id = w.control.id + 1 ∧
        (w.next q).log.handed = w.log.handed ++ [w.control.id + 1]) ∧
      (q ≠ .newFrame → (w.next q).control.id = w.control.id ∧
        (w.next q).log.handed = w.log.handed) := by
  cases q with
  | newFrame =>
    refine ⟨?_, fun _ => ⟨Control.id_newFrame _, if_pos hr⟩, fun hne => absurd rfl hne⟩
    show w.control.newFrame.running = true
    rw [Control.running_newFrame, hr, ite_self]
  | settrig trig => exact ⟨hr, fun he => (by cases he), fun _ => ⟨rfl, rfl⟩⟩
  | start => exact ⟨rfl, fun he => (by cases he), fun _ => ⟨rfl, rfl⟩⟩
  | stop => exact absurd rfl hs
  | init flags => exact absurd rfl (hi flags)
  | pass => exact ⟨hr, fun he => (by cases he), fun _ => ⟨rfl, rfl⟩⟩

/-- From a running stream on, with no stop or init, the engines get each new
frame, one after the other. -/
theorem handed_run (M : ModParams) (more : List (Op TC)) {w : Watched TC} (h : w.cued.Inv)
    (hr : w.card.stream.running = true) (halong : Along (Watched.step M) (Onward M) w more) :
    (more.foldl (Watched.step M) w).log.handed = w.log.handed ++
      (List.range (more.countP isNewFrame)).map fun n : ℕ => w.card.frame.id + 1 + n := by
  induction more generalizing w with
  | nil => exact (List.append_nil _).symm
  | cons op more ih =>
    obtain ⟨⟨hop, hhalt⟩, hmore⟩ := halong
    have hstep := cued_step h.silent M hop
    obtain ⟨hs, hi, hnew⟩ := cue_onward hhalt
    obtain ⟨hr', hyes, hno⟩ := Cued.next_running (w := w.cued) hr hs hi
    rw [← hstep] at hr' hyes hno
    rw [List.foldl_cons, ih (h.step M hop) hr' hmore, List.countP_cons]
    by_cases hf : isNewFrame op = true
    · obtain ⟨hid, hhanded⟩ := hyes (hnew.mpr hf)
      rw [show (w.step M op).card.frame.id = w.card.frame.id + 1 from hid,
        show (w.step M op).log.handed = w.log.handed ++
          [w.card.frame.id + 1] from hhanded, if_pos hf,
        List.range_succ_eq_map, List.map_cons, List.map_map, List.append_assoc]
      simp [Function.comp_def, add_comm, add_left_comm]
    · obtain ⟨hid, hhanded⟩ := hno (mt hnew.mp hf)
      rw [show (w.step M op).card.frame.id = w.card.frame.id from hid,
        show (w.step M op).log.handed = w.log.handed from hhanded, if_neg hf, Nat.add_zero]

/-! ### The audio of a started stream -/

/-- A stream plays or captures, so one audio engine is started. -/
theorem audioEngines_eq {m : Mode} {flags : BitVec 32} (h : m.Of flags) :
    Control.audioEngines flags = 1 := by
  unfold Control.audioEngines
  cases m with
  | playback => rw [if_neg (fun hc => absurd (h.2.mp hc) (by decide)), if_pos (h.1.mpr rfl)]
  | capture => rw [if_pos (h.2.mpr rfl), if_neg (fun hp => absurd (h.1.mp hp) (by decide))]

/-- The stream runs and its audio waits for the first frame. -/
structure Control.AudioWaits (k : Control) (audio : ℕ) : Prop where
  running : k.running = true
  triggered : k.flags &&& ajaTriggerAudio ≠ 0
  atrig : k.atrig = k.flags &&& ajaTriggerAudio
  audio : k.audio = audio

/-- The audio has been started. -/
structure Control.AudioStarted (k : Control) (audio : ℕ) : Prop where
  atrig : k.atrig = 0
  audio : k.audio = audio

namespace Control

/-- It waits until the next new frame, a stop or an init. -/
theorem AudioWaits.next {k : Control} {audio : ℕ} (h : k.AudioWaits audio) {q : Cue}
    (hn : q ≠ .newFrame) (hs : q ≠ .stop) (hi : ∀ flags, q ≠ .init flags) :
    (k.next q).AudioWaits audio := by
  cases q with
  | newFrame => exact absurd rfl hn
  | settrig trig => exact ⟨h.running, h.triggered, h.atrig, h.audio⟩
  | start => exact ⟨rfl, h.triggered, rfl, h.audio⟩
  | stop => exact absurd rfl hs
  | init flags => exact absurd rfl (hi flags)
  | pass => exact h

/-- The next new frame starts it. -/
theorem AudioWaits.newFrame {k : Control} {audio : ℕ} (h : k.AudioWaits audio) :
    k.newFrame.AudioStarted (audio + audioEngines k.flags) := by
  have hcount : k.count.atrig = k.flags &&& ajaTriggerAudio ∧ k.count.flags = k.flags ∧
      k.count.audio = audio := by
    unfold count
    split_ifs
    · exact ⟨rfl, rfl, h.audio⟩
    · exact ⟨h.atrig, rfl, h.audio⟩
  unfold Control.newFrame startAudio
  rw [if_pos h.running, if_pos (by rw [hcount.1]; exact h.triggered), hcount.2.1, hcount.2.2]
  exact ⟨rfl, rfl⟩

/-- Nothing but a start makes it wait again. -/
theorem AudioStarted.next {k : Control} {audio : ℕ} (h : k.AudioStarted audio) {q : Cue}
    (hs : q ≠ .start) (hn : q = .newFrame → ¬ k.Due) : (k.next q).AudioStarted audio := by
  cases q with
  | newFrame =>
    have hcount : k.count = { k with id := k.id + 1 } := if_neg (hn rfl)
    show k.newFrame.AudioStarted audio
    unfold Control.newFrame startAudio
    rw [hcount, if_neg (not_not.mpr h.atrig), ite_self]
    exact ⟨h.atrig, h.audio⟩
  | settrig trig => exact ⟨h.atrig, h.audio⟩
  | start => exact absurd rfl hs
  | stop => exact ⟨rfl, h.audio⟩
  | init flags => exact ⟨h.atrig, h.audio⟩
  | pass => exact h

end Control

/-- The audio waits as long as no new frame comes. -/
theorem waits_run (M : ModParams) {audio : ℕ} (quiet : List (Op TC)) {w : Watched TC}
    (h : w.cued.Inv) (ha : w.card.control.AudioWaits audio) (hq : quiet.countP isNewFrame = 0)
    (halong : Along (Watched.step M) (Onward M) w quiet) :
    (quiet.foldl (Watched.step M) w).cued.Inv ∧
      (quiet.foldl (Watched.step M) w).card.control.AudioWaits audio := by
  induction quiet generalizing w with
  | nil => exact ⟨h, ha⟩
  | cons op quiet ih =>
    obtain ⟨⟨hop, hhalt⟩, hmore⟩ := halong
    rw [List.countP_cons] at hq
    obtain ⟨hs, hi, hnew⟩ := cue_onward hhalt
    have hn : cue w.card op ≠ .newFrame := fun hc => by
      rw [if_pos (hnew.mp hc)] at hq
      omega
    have hstep : (w.step M op).card.control = w.card.control.next (cue w.card op) :=
      congrArg Cued.control (cued_step h.silent M hop)
    refine ih (h.step M hop) ?_ (by omega) hmore
    rw [hstep]
    exact ha.next hn hs hi

/-- Once started, the audio is not started again as long as nothing starts the
stream. -/
theorem started_run (M : ModParams) {audio : ℕ} (rest : List (Op TC)) {w : Watched TC}
    (h : w.cued.Inv) (ha : w.card.control.AudioStarted audio)
    (halong : Along (Watched.step M) (Unstarted M) w rest) :
    (rest.foldl (Watched.step M) w).card.control.AudioStarted audio := by
  induction rest generalizing w with
  | nil => exact ha
  | cons op rest ih =>
    obtain ⟨⟨hop, hstart⟩, hmore⟩ := halong
    obtain ⟨hs, hn⟩ := cue_unstarted h.silent hstart
    have hstep : (w.step M op).card.control = w.card.control.next (cue w.card op) :=
      congrArg Cued.control (cued_step h.silent M hop)
    refine ih (h.step M hop) ?_ hmore
    rw [hstep]
    exact ha.next hs hn

/-! ### The discipline -/

/-- What comes after the interrupt `irq` that starts a stream not running in
`w`. Until a stop or an init the engines get the frames after the trigger's, the
first of them the next one. With `AJA_TriggerAudio` the audio is started in that
frame's interrupt, and not again until the stream is started again. -/
structure Follows (M : ModParams) (w : Watched TC) (irq : FrameIrq TC) : Prop where
  handed : ∀ more, Along (Watched.step M) (Onward M) (w.step M (.frame irq)) more →
    (more.foldl (Watched.step M) (w.step M (.frame irq))).log.handed = w.log.handed ++
      (List.range (more.countP isNewFrame)).map fun n : ℕ => w.card.stream.trigger + 1 + n
  audio : w.card.stream.flags &&& ajaTriggerAudio ≠ 0 →
    ∀ quiet, quiet.countP isNewFrame = 0 → Along (Watched.step M) (Onward M)
      (w.step M (.frame irq)) quiet →
    ∀ irq', irq'.field = false → ∀ rest,
    Along (Watched.step M) (Unstarted M)
      ((quiet.foldl (Watched.step M) (w.step M (.frame irq))).step M (.frame irq')) rest →
    let d := quiet.foldl (Watched.step M) (w.step M (.frame irq))
    d.card.audioStarts = w.card.audioStarts ∧
      (d.step M (.frame irq')).card.audioStarts = w.card.audioStarts + 1 ∧
      (rest.foldl (Watched.step M) (d.step M (.frame irq'))).card.audioStarts =
        w.card.audioStarts + 1

theorem Cued.Inv.follows {w : Watched TC} (h : w.cued.Inv) (M : ModParams) {irq : FrameIrq TC}
    (hfires : Started w.card (handleFrame irq w.card)) (hr : w.card.stream.running = false) :
    Follows M w irq := by
  obtain ⟨hfield, hd⟩ := (started_iff h.silent irq).mp hfires
  have hstep := cued_step_newFrame h.silent M hfield
  have hinv := h.step M (permitted_frame irq)
  have hcontrol : (w.step M (.frame irq)).card.control =
      { w.card.control with id := w.card.control.id + 1 }.start := by
    refine (congrArg Cued.control hstep).trans ?_
    show w.card.control.newFrame = _
    unfold Control.newFrame Control.count
    rw [if_neg (show ¬ w.card.control.running = true from ne_true_of_eq_false hr), if_pos hd]
  have hid : (w.step M (.frame irq)).card.frame.id = w.card.stream.trigger :=
    (congrArg Control.id hcontrol).trans hd.2.symm
  have hlog : (w.step M (.frame irq)).log.handed = w.log.handed :=
    (congrArg (fun c : Cued => c.log.handed) hstep).trans
      (if_neg (show ¬ w.card.control.running = true from ne_true_of_eq_false hr))
  constructor
  · intro more hmore
    rw [handed_run M more hinv (congrArg Control.running hcontrol) hmore, hid, hlog]
  · intro htrig quiet hquiet halong irq' hfield' rest hrest d
    have hwaits : (w.step M (.frame irq)).card.control.AudioWaits w.card.audioStarts := by
      rw [hcontrol]
      exact ⟨rfl, htrig, rfl, rfl⟩
    obtain ⟨hdinv, hdwaits⟩ := waits_run M quiet hinv hwaits hquiet halong
    have hdstep : (d.step M (.frame irq')).card.control = d.card.control.newFrame :=
      congrArg Cued.control (cued_step_newFrame hdinv.silent M hfield')
    obtain ⟨m, hm⟩ := hdinv.mode
    have hstarted :
        (d.step M (.frame irq')).card.control.AudioStarted (w.card.audioStarts + 1) := by
      rw [hdstep, ← audioEngines_eq hm]
      exact hdwaits.newFrame
    exact ⟨hdwaits.audio, hstarted.audio,
      (started_run M rest (hdinv.step M (permitted_frame irq')) hstarted hrest).audio⟩

/-- In every run of interrupts, triggers, starts, stops and inits the trigger is
0 or in the future; an interrupt starts the stream only with the trigger's own
frame, and at most once; and a stream started so runs from the next frame on.
What counts as handed to the engines is what the handler calls both of them
with, between the freeing of the pages and the timecode going out. -/
theorem trigger_discipline {M : ModParams} {c : Card TC} {pid : ℤ} {i : StreamInit}
    (hi : ∃ m : Mode, m.Of i.flags) (hf : c.aplay.frames = 0) {w : Watched TC}
    (hr : Reach (Watched.step M) (fun _ op => Permitted op) (Watched.init c pid i) w) :
    (w.card.stream.trigger = 0 ∨ w.card.frame.id < w.card.stream.trigger) ∧ w.log.started.Nodup ∧
      (∀ irq, Started w.card (handleFrame irq w.card) →
        (∃ k, w.log.pending = some (k, (handleFrame irq w.card).frame.id) ∧ k ∉ w.log.started) ∧
          (w.card.stream.running = false → Follows M w irq)) ∧
      ∀ irq, handleFrame irq w.card = aplayCheck irq.field
        (match handed irq w.card with
          | some d => frameOutput irq true (streamCapture (streamPlayback d))
          | none =>
            if irq.field then secondField w.card
            else frameOutput irq false (streamFreeup irq.freeupIn (frameCount irq w.card))) := by
  have h : w.cued.Inv :=
    hr.inv (I := fun w => w.cued.Inv) (Watched.init_inv c pid hi hf) fun _ _ h hop => h.step M hop
  refine ⟨h.armed, h.once, fun irq hfires => ⟨?_, h.follows M hfires⟩,
    fun irq => handleFrame_handed irq w.card⟩
  obtain ⟨hfield, hd⟩ := (started_iff h.silent irq).mp hfires
  have hid : (handleFrame irq w.card).frame.id = w.card.stream.trigger := by
    refine (congrArg (fun c : Cued => c.control.id) (cued_step_newFrame h.silent M hfield)).trans ?_
    exact (Control.id_newFrame _).trans hd.2.symm
  rw [hid]
  exact h.queued hd.1

/-- A stream with audio that is triggered for its second frame, and what its
third frame does. -/
theorem trigger_discipline_two :
    let w : Watched ℕ := [Op.settrig 2, .frame blankFrame].foldl (Watched.step {})
      (Watched.init (Card.new false false) 0 ⟨8, ajaPlayback ||| ajaTriggerAudio, 1, 0⟩)
    let v : Watched ℕ := w.step {} (.frame blankFrame)
    (∃ k, w.log.pending = some (k, 2) ∧ k ∉ w.log.started) ∧ Follows {} w blankFrame ∧
      ∃ d, d.frame.id = 3 ∧
        handleFrame blankFrame v.card = aplayCheck false
          (frameOutput blankFrame true (streamCapture (streamPlayback d))) := by
  intro w v
  have hmode : Mode.playback.Of (ajaPlayback ||| ajaTriggerAudio) := by decide
  have hrun : Reach (Watched.step {}) (fun _ op => Permitted op)
      (Watched.init (Card.new false false) 0 ⟨8, ajaPlayback ||| ajaTriggerAudio, 1, 0⟩) w :=
    .of_along [Op.settrig 2, .frame blankFrame] ⟨trivial, trivial, trivial⟩
  have hrun' : Reach (Watched.step {}) (fun _ op => Permitted op)
      (Watched.init (Card.new false false) 0 ⟨8, ajaPlayback ||| ajaTriggerAudio, 1, 0⟩) v :=
    .of_along [Op.settrig 2, .frame blankFrame, .frame blankFrame]
      ⟨trivial, trivial, trivial, trivial⟩
  have hfires : Started w.card (handleFrame blankFrame w.card) := by decide +kernel
  have hid : (handleFrame blankFrame w.card).frame.id = 2 := by decide +kernel
  have hstopped : w.card.stream.running = false := by decide +kernel
  obtain ⟨hpend, hfollows⟩ :=
    (trigger_discipline ⟨.playback, hmode⟩ rfl hrun).2.2.1 blankFrame hfires
  rw [hid] at hpend
  refine ⟨hpend, hfollows hstopped, frameAudio
    (streamFreeup blankFrame.freeupIn (frameCount blankFrame v.card)),
    by decide +kernel, ?_⟩
  have hengines := (trigger_discipline ⟨.playback, hmode⟩ rfl hrun').2.2.2 blankFrame
  rw [show handed blankFrame v.card = some _ from if_pos (by decide +kernel)] at hengines
  exact hengines

end AjaDriver
