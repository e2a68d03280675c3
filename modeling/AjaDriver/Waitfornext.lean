/-
# Waiting for the next frame

`aja_wait_for_frame` reads the frame count and waits, a quarter of a second at most, for
another one. `AJACTL_FRAME_WAITFORNEXT` does nothing else; the start and the stop of a
stream wait for a frame first. `aja_handle_frame` counts a frame before it does anything
else and wakes the queue when the frame is done. Any number of processes wait, and the
steps of the handler and theirs come in any order: no frame is slept through, as an
interrupt in `aja_ioctl_irqsleep` can be (`frame_waits`), and a process whose frame has
come leaves in a few steps of its own (`frame_wakes`).
-/
import AjaDriver.Capture.Film
import AjaDriver.Ioctls
import AjaDriver.Lib.Runs
import AjaDriver.Lib.Waiting

namespace AjaDriver

open Function Word Runs Waiting

/-! ### A process -/

/-- The ioctls that wait for a frame. -/
inductive FrameCall
  | waitfornext
  | streamStart
  | streamStop
  deriving DecidableEq, Repr

/-- How `aja_wait_for_frame` ended, for its caller: `signal_pending`, and what it returned. -/
def frameWait (w : Waiter ℤ) : FrameWait :=
  if w.pending then .signal else if w.ret = 0 then .timeout else .frame

/-- A process: not in one of these ioctls; in it, before `aja_wait_for_frame` has read the
frame count (a signal is pending or not); in `aja_wait_for_frame`; refused; back, with
what the ioctl returned. -/
inductive FrameTask
  | out
  | called (f : FrameCall) (pending : Bool)
  | waiting (f : FrameCall) (w : Waiter ℤ)
  | refused (r : ℤ)
  | back (f : FrameCall) (w : Waiter ℤ) (r : ℤ)
  deriving DecidableEq, Repr

/-- The process may call another ioctl. -/
def FrameTask.isOut : FrameTask → Bool
  | .out => true
  | .refused _ => true
  | .back _ _ _ => true
  | _ => false

/-- A signal to the process. -/
def FrameTask.signal : FrameTask → FrameTask
  | .called f _ => .called f true
  | .waiting f w => .waiting f w.signal
  | t => t

def FrameTask.tick : FrameTask → FrameTask
  | .waiting f w => .waiting f w.tick
  | t => t

/-- What `wake_up_all(&card->frame.wait)` does to a process. -/
def FrameTask.wake : FrameTask → FrameTask
  | .waiting f w => .waiting f w.wake
  | t => t

section Calls

variable {TC : Type}

/-- What the ioctls do before they wait. -/
def FrameCall.prepare (f : FrameCall) (c : Card TC) : Card TC :=
  match f with
  | .streamStart =>
    let c := c.prset regclocking 2
    { c with stream := { c.stream with speed := 1 * ajaSpeedDivisor, spdct := 0 } }
  | _ => c

def FrameCall.refuses (f : FrameCall) (c : Card TC) : Bool :=
  match f with
  | .streamStart => c.stream.running
  | _ => false

/-- What they do when the wait has ended. -/
def FrameCall.finish (f : FrameCall) (c : Card TC) (w : FrameWait) : ℤ × Card TC :=
  match w with
  | .signal => (-EINTR, c)
  | .timeout => (-ETIMEDOUT, c)
  | .frame =>
    match f with
    | .waitfornext => (0, c)
    | .streamStart => (0, AjaDriver.streamStart c)
    | .streamStop => (0, AjaDriver.streamStop c)

/-- `aja_ioctl_stream_start` with nothing between its parts. -/
theorem ioctlStreamStart_parts (c : Card TC) (w : FrameWait) : ioctlStreamStart c w =
    if FrameCall.streamStart.refuses c then (-EBUSY, c)
    else FrameCall.streamStart.finish (FrameCall.streamStart.prepare c) w := by
  unfold ioctlStreamStart FrameCall.finish FrameCall.refuses
  split_ifs
  · rfl
  · cases w <;> rfl

theorem ioctlStreamStop_parts (c : Card TC) (w : FrameWait) : ioctlStreamStop c w =
    FrameCall.streamStop.finish (FrameCall.streamStop.prepare c) w := by
  cases w <;> rfl

end Calls

/-! ### The card and the processes -/

/-- Where `aja_handle_frame` is in a new frame: not in it, behind the frame count and the
trigger, behind the streams and the timecode, behind `wake_up_all`. -/
inductive HandlerAt (TC : Type)
  | idle
  | counted (irq : FrameIrq TC) (srun : Bool)
  | shown
  | woken

/-- `wake_up_all` is still to come. -/
def HandlerAt.due {TC : Type} : HandlerAt TC → Bool
  | .counted _ _ => true
  | .shown => true
  | _ => false

structure FrameSys (TC ι : Type) where
  card : Card TC
  handler : HandlerAt TC
  task : ι → FrameTask

inductive FrameEvent (TC ι : Type)
  /-- The handler begins a new frame. -/
  | count (irq : FrameIrq TC)
  /-- The handler goes on. -/
  | handle
  /-- An operation that is not a new frame. -/
  | op (o : Op TC)
  | call (i : ι) (f : FrameCall) (pending : Bool)
  /-- A step of a process. -/
  | go (i : ι)
  | signal (i : ι)
  | tick (i : ι)

namespace FrameSys

variable {TC ι : Type} [Timecode TC] [DecidableEq ι]

/-- The streams and the timecode of a frame that is counted. -/
def showFrame (irq : FrameIrq TC) (srun : Bool) (c : Card TC) : Card TC :=
  let c := streamFreeup irq.freeupIn c
  frameOutput irq srun (if srun then frameEngines c else c)

/-- A step of process `i`, with `hz` ticks a second. -/
def go (hz : ℕ) (s : FrameSys TC ι) (i : ι) : FrameSys TC ι :=
  match s.task i with
  | .called f pending =>
    { s with task := update s.task i (.waiting f (Waiter.start s.card.frame.id (hz / 4) pending)) }
  | .waiting f w =>
    if w.pc = .returned then
      let r := f.finish s.card (frameWait w)
      { s with card := r.2, task := update s.task i (.back f w r.1) }
    else { s with task := update s.task i (.waiting f (w.next (s.card.frame.id ≠ w.key))) }
  | _ => s

def call (s : FrameSys TC ι) (i : ι) (f : FrameCall) (pending : Bool) : FrameSys TC ι :=
  if (s.task i).isOut then
    if f.refuses s.card then { s with task := update s.task i (.refused (-EBUSY)) }
    else { s with card := f.prepare s.card, task := update s.task i (.called f pending) }
  else s

def handle (s : FrameSys TC ι) : FrameSys TC ι :=
  match s.handler with
  | .idle => s
  | .counted irq srun => { s with card := showFrame irq srun s.card, handler := .shown }
  | .shown => { s with handler := .woken, task := fun i => (s.task i).wake }
  | .woken => { s with card := aplayCheck false s.card, handler := .idle }

def count (irq : FrameIrq TC) (s : FrameSys TC ι) : FrameSys TC ι :=
  match s.handler with
  | .idle => { s with card := frameCount irq s.card, handler := .counted irq s.card.stream.running }
  | _ => s

def step (M : ModParams) (hz : ℕ) (s : FrameSys TC ι) : FrameEvent TC ι → FrameSys TC ι
  | .count irq => s.count irq
  | .handle => s.handle
  | .op o => { s with card := (exec M s.card o).2 }
  | .call i f pending => s.call i f pending
  | .go i => s.go hz i
  | .signal i => { s with task := update s.task i (s.task i).signal }
  | .tick i => { s with task := update s.task i (s.task i).tick }

/-- New frames come from the handler, one step at a time. -/
def FromHandler (_ : FrameSys TC ι) : FrameEvent TC ι → Prop
  | .op o => o.isNewFrame = false
  | _ => True

instance FromHandler.decidable (s : FrameSys TC ι) (e : FrameEvent TC ι) :
    Decidable (FromHandler s e) :=
  match e with
  | .op o => inferInstanceAs (Decidable (o.isNewFrame = false))
  | .count _ => instDecidableTrue
  | .handle => instDecidableTrue
  | .call _ _ _ => instDecidableTrue
  | .go _ => instDecidableTrue
  | .signal _ => instDecidableTrue
  | .tick _ => instDecidableTrue

/-- The handler's steps, with nothing between them, are `handleFrame`. -/
theorem card_count_handle (M : ModParams) (hz : ℕ) {s : FrameSys TC ι} (h : s.handler = .idle)
    {irq : FrameIrq TC} (hf : irq.field = false) :
    ([.count irq, .handle, .handle, .handle].foldl (step M hz) s) =
      { card := handleFrame irq s.card, handler := .idle, task := fun i => (s.task i).wake } := by
  obtain ⟨card, handler, task⟩ := s
  subst h
  unfold handleFrame
  rw [hf, if_pos Bool.false_ne_true]
  rfl

end FrameSys

/-! ### The frame count -/

section Count

variable {TC : Type}

theorem id_prepare (f : FrameCall) (c : Card TC) : (f.prepare c).frame.id = c.frame.id := by
  cases f <;> rfl

theorem id_finish (f : FrameCall) (c : Card TC) (w : FrameWait) :
    (f.finish c w).2.frame.id = c.frame.id := by
  cases w with
  | signal => rfl
  | timeout => rfl
  | frame =>
    cases f with
    | waitfornext => rfl
    | streamStart => exact congrArg Control.id (control_streamStart c)
    | streamStop => exact congrArg Control.id (control_streamStop c)

theorem id_aplayCheck (b : Bool) (c : Card TC) : (aplayCheck b c).frame.id = c.frame.id := by
  unfold aplayCheck
  simp only
  split_ifs <;> rfl

variable [Timecode TC]

theorem id_showFrame (irq : FrameIrq TC) (srun : Bool) (c : Card TC) :
    (FrameSys.showFrame irq srun c).frame.id = c.frame.id := by
  have haudio : ∀ k : Control, k.startAudio.id = k.id := by
    intro k
    unfold Control.startAudio
    split_ifs <;> rfl
  refine congrArg Control.id (control_frameOutput irq srun _) |>.trans ?_
  cases srun with
  | false => exact congrArg Control.id (control_streamFreeup _ c)
  | true =>
    have heng : (frameEngines (streamFreeup irq.freeupIn c)).control =
        (streamFreeup irq.freeupIn c).control.startAudio := by
      rw [frameEngines, control_streamCapture, control_streamPlayback, control_frameAudio]
    refine (congrArg Control.id heng).trans ((haudio _).trans ?_)
    exact congrArg Control.id (control_streamFreeup _ c)

end Count

/-! ### What is kept of a process -/

/-- What is kept of a process, when `id` frames were counted and a wake-up is `due`. -/
def FrameTask.Inv (id : ℤ) (due : Bool) : FrameTask → Prop
  | .waiting _ w => w.key ≤ id ∧ w.Inv (decide (id ≠ w.key)) due ∧ w.Told (decide (id ≠ w.key))
  | .back _ w r => r = 0 ∧ w.key < id ∨ r = -ETIMEDOUT ∧ w.left = 0 ∨ r = -EINTR ∧ w.pending = true
  | _ => True

namespace FrameTask

variable {id : ℤ} {due : Bool} {t : FrameTask}

theorem Inv.signal (h : t.Inv id due) : t.signal.Inv id due := by
  cases t with
  | waiting f w => exact ⟨h.1, h.2.1.signal, h.2.2.signal⟩
  | _ => exact h

theorem Inv.tick (h : t.Inv id due) : t.tick.Inv id due := by
  cases t with
  | waiting f w =>
    show w.tick.key ≤ id ∧ w.tick.Inv (decide (id ≠ w.tick.key)) due ∧
      w.tick.Told (decide (id ≠ w.tick.key))
    rw [Waiter.tick_key]
    exact ⟨h.1, h.2.1.tick, h.2.2.tick⟩
  | _ => exact h

theorem Inv.wake (h : t.Inv id due) : t.wake.Inv id false := by
  cases t with
  | waiting f w =>
    show w.wake.key ≤ id ∧ w.wake.Inv (decide (id ≠ w.wake.key)) false ∧
      w.wake.Told (decide (id ≠ w.wake.key))
    rw [Waiter.wake_key]
    exact ⟨h.1, h.2.1.wake, h.2.2.wake⟩
  | _ => exact h

/-- A frame is counted, and the wake-up is due. -/
theorem Inv.count (h : t.Inv id due) : t.Inv (id + 1) true := by
  cases t with
  | waiting f w =>
    have hlt : w.key < id + 1 := Int.lt_add_one_iff.mpr h.1
    exact ⟨hlt.le, h.2.1.change _, h.2.2.rise fun _ => decide_eq_true hlt.ne'⟩
  | back f w r => exact h.imp (And.imp_right fun hlt => hlt.trans (Int.lt_succ id)) fun hr => hr
  | _ => trivial

end FrameTask

/-- A wait that is over. -/
theorem FrameTask.inv_back {TC : Type} {id : ℤ} {due : Bool} {w : Waiter ℤ} (hkey : w.key ≤ id)
    (h : w.Told (decide (id ≠ w.key))) (hover : w.pc = .returned) (f : FrameCall) (c : Card TC) :
    (FrameTask.back f w (f.finish c (frameWait w)).1).Inv id due := by
  have hended := h.ended (.inr hover)
  unfold frameWait
  split_ifs with hpending hret
  · exact .inr (.inr ⟨rfl, hpending⟩)
  · refine .inr (.inl ⟨rfl, ?_⟩)
    rcases hended with hend | hend | hend
    · exact hend.2
    · exact absurd hend.2 hpending
    · exact absurd hret hend.1.ne'
  · refine .inl ⟨by cases f <;> rfl, ?_⟩
    rcases hended with hend | hend | hend
    · exact absurd hend.1 hret
    · exact absurd hend.2 hpending
    · exact lt_of_le_of_ne hkey (of_decide_eq_true hend.2).symm

namespace FrameSys

variable {TC ι : Type} [Timecode TC] [DecidableEq ι] {M : ModParams} {hz : ℕ} {s : FrameSys TC ι}

/-- The invariant of all processes. -/
def Inv (s : FrameSys TC ι) : Prop := ∀ i, (s.task i).Inv s.card.frame.id s.handler.due

omit [Timecode TC] in
/-- One process steps, and the card keeps its frame count. -/
theorem Inv.update (h : s.Inv) {c : Card TC} (hid : c.frame.id = s.card.frame.id) {i : ι}
    {t : FrameTask} (ht : t.Inv s.card.frame.id s.handler.due) : Inv
      { s with card := c, task := update s.task i t } := by
  intro j
  show (Function.update s.task i t j).Inv c.frame.id s.handler.due
  rw [hid]
  by_cases hj : j = i
  · subst hj
    rwa [update_self]
  · rw [update_of_ne hj]
    exact h j

omit [Timecode TC] in
theorem Inv.go (hhz : 4 ≤ hz) (h : s.Inv) (i : ι) : (s.go hz i).Inv := by
  have hi := h i
  unfold FrameSys.go
  split
  case h_1 f pending ht =>
    exact h.update rfl ⟨le_rfl, Waiter.inv_start ..,
      Waiter.told_start _ (Nat.div_pos hhz (by decide)) pending _⟩
  case h_2 f w ht =>
    rw [ht] at hi
    split_ifs with hover
    · exact h.update (id_finish f s.card _) (FrameTask.inv_back hi.1 hi.2.2 hover f s.card)
    · refine h.update rfl ?_
      show (w.next _).key ≤ _ ∧ (w.next _).Inv _ _ ∧ (w.next _).Told _
      rw [Waiter.next_key]
      exact ⟨hi.1, hi.2.1.next, hi.2.2.next⟩
  case h_3 => exact h

omit [Timecode TC] in
theorem Inv.call (h : s.Inv) (i : ι) (f : FrameCall) (pending : Bool) :
    (s.call i f pending).Inv := by
  unfold FrameSys.call
  split_ifs
  · exact h.update rfl trivial
  · exact h.update (id_prepare f s.card) trivial
  · exact h

omit [DecidableEq ι] in
theorem Inv.handle (h : s.Inv) : s.handle.Inv := by
  intro i
  have hi := h i
  unfold FrameSys.handle
  cases hh : s.handler with
  | idle =>
    dsimp only
    exact hi
  | counted irq srun =>
    rw [hh] at hi
    dsimp only
    rw [id_showFrame]
    exact hi
  | shown => exact hi.wake
  | woken =>
    rw [hh] at hi
    dsimp only
    rw [id_aplayCheck]
    exact hi

omit [DecidableEq ι] in
theorem Inv.count (h : s.Inv) (irq : FrameIrq TC) : (s.count irq).Inv := by
  unfold FrameSys.count
  split
  · intro i
    show (s.task i).Inv (frameCount irq s.card).frame.id true
    rw [frame_frameCount]
    exact (h i).count
  · exact h

theorem Inv.step (hhz : 4 ≤ hz) (h : s.Inv) (e : FrameEvent TC ι) (ha : FromHandler s e) :
    (s.step M hz e).Inv := by
  cases e with
  | count irq => exact h.count irq
  | handle => exact h.handle
  | op o =>
    intro i
    show (s.task i).Inv (exec M s.card o).2.frame.id s.handler.due
    rw [id_exec, if_neg (by rw [show o.isNewFrame = false from ha]; exact Bool.false_ne_true)]
    exact h i
  | call i f pending => exact h.call i f pending
  | go i => exact h.go hhz i
  | signal i => exact h.update rfl (h i).signal
  | tick i => exact h.update rfl (h i).tick

/-- The card as it is, no new frame being handled, no process in the ioctls. -/
def init (c : Card TC) : FrameSys TC ι := ⟨c, .idle, fun _ => .out⟩

variable {c : Card TC}

omit [Timecode TC] [DecidableEq ι] in
theorem init_frames (c : Card TC) : (init c : FrameSys TC ι).Inv := fun _ => trivial

theorem inv_reach (hhz : 4 ≤ hz) (h : Reach (step M hz) FromHandler (init c) s) : s.Inv :=
  h.inv (init_frames c) fun _ e hs ha => hs.step hhz e ha

end FrameSys

open FrameSys

variable {TC ι : Type} [Timecode TC] [DecidableEq ι] {M : ModParams} {hz : ℕ} {s : FrameSys TC ι}
    {c : Card TC}

/-- No process stays off the processor with another frame counted than the one it found,
but while the handler is still to wake it. An ioctl that returns 0 has seen a frame
counted since it looked, one that timed out has waited the time it had, and one that was
interrupted has a signal pending. -/
theorem frame_waits (hhz : 4 ≤ hz) (h : Reach (step M hz) FromHandler (init c) s) (i : ι) :
    (∀ f w, s.task i = .waiting f w → w.Stopped → s.handler.due = false → w.key = s.card.frame.id) ∧
    ∀ f w r, s.task i = .back f w r →
      r = 0 ∧ w.key < s.card.frame.id ∨ r = -ETIMEDOUT ∧ w.left = 0 ∨
        r = -EINTR ∧ w.pending = true := by
  have hi := inv_reach hhz h i
  refine ⟨fun f w ht hstop hdue => ?_, fun f w r ht => ?_⟩
  · rw [ht] at hi
    by_contra hne
    have hinv := hi.2.1
    rw [hdue, decide_eq_true (Ne.symm hne)] at hinv
    exact hinv.not_stopped hstop
  · rw [ht] at hi
    exact hi

/-- `n` steps of process `i`. -/
def goes (i : Bool) (n : ℕ) : List (FrameEvent ℕ Bool) := List.replicate n (.go i)

/-- Process `false` starts a stream and sleeps for a frame; the frame comes and wakes it. -/
def startWaits : List (FrameEvent ℕ Bool) :=
  .call false .streamStart false :: goes false 5 ++ [.count blankFrame, .handle, .handle, .handle]

/-- Its stream runs, and process `true` sleeps for the frame after. -/
theorem frame_waits_two :
    let s := (startWaits ++ goes false 5 ++ .call true .waitfornext false :: goes true 5).foldl
      (step {} 250) (init (Card.new false false))
    (∃ w, s.task true = .waiting .waitfornext w ∧ w.Stopped ∧ w.key = s.card.frame.id) ∧
      s.card.stream.running = true ∧
      ∃ w, s.task false = .back .streamStart w 0 ∧ w.key < s.card.frame.id := by
  intro s
  have hreach : Reach (step {} 250) FromHandler (init (Card.new false false)) s :=
    .of_along _ (by decide +kernel)
  have hone : s.task true = .waiting .waitfornext ⟨1, .schedule, true, true, false, 62, 0⟩ := by
    decide +kernel
  have hzero : s.task false = .back .streamStart ⟨0, .returned, false, false, false, 62, 62⟩ 0 := by
    decide +kernel
  have hstop : (⟨1, .schedule, true, true, false, 62, 0⟩ : Waiter ℤ).Stopped := by decide
  have hwaits := frame_waits (by decide) hreach
  refine ⟨⟨_, hone, hstop, (hwaits true).1 _ _ hone hstop (by decide +kernel)⟩,
    by decide +kernel, _, hzero, ?_⟩
  rcases (hwaits false).2 _ _ _ hzero with h | h | h
  · exact h.2
  · exact absurd h.1 (by decide)
  · exact absurd h.1 (by decide)

/-! ### A process whose frame has come -/

namespace FrameEvent

omit [Timecode TC]

/-- A step of process `i`. -/
def isGo (i : ι) : FrameEvent TC ι → Bool
  | .go j => j = i
  | _ => false

def isCall (i : ι) : FrameEvent TC ι → Bool
  | .call j _ _ => j = i
  | _ => false

end FrameEvent

namespace FrameSys

variable {f : FrameCall} {key : ℤ} {i : ι} {n : ℕ}

omit [Timecode TC] [DecidableEq ι] in
/-- Process `i`, which found `key` frames counted when it called `f`, is back, or is on its
way out with fewer than `n` steps to take in the wait. -/
def Leaving (f : FrameCall) (key : ℤ) (i : ι) (n : ℕ) (s : FrameSys TC ι) : Prop :=
  key < s.card.frame.id ∧
    ((∃ w r, s.task i = .back f w r ∧ w.key = key) ∨
      ∃ w, s.task i = .waiting f w ∧ w.key = key ∧ w.Awake ∧ w.rank < n)

omit [Timecode TC] [DecidableEq ι] in
/-- What happens elsewhere. -/
theorem Leaving.of_task (h : Leaving f key i n s) {t : FrameSys TC ι}
    (hid : s.card.frame.id ≤ t.card.frame.id) (ht : t.task i = s.task i) : Leaving f key i n t := by
  refine ⟨h.1.trans_le hid, ?_⟩
  rw [ht]
  exact h.2

omit [Timecode TC] [DecidableEq ι] in
/-- The process is awake and stays so, wherever it is. -/
theorem Leaving.wait (h : Leaving f key i n s) {t : FrameSys TC ι}
    (hid : s.card.frame.id ≤ t.card.frame.id) {g : FrameTask → FrameTask}
    (hback : ∀ w r, g (.back f w r) = .back f w r) {g' : Waiter ℤ → Waiter ℤ}
    (hwait : ∀ w, g (.waiting f w) = .waiting f (g' w)) (hkey : ∀ w, (g' w).key = w.key)
    (hpc : ∀ w, (g' w).pc = w.pc) (hawake : ∀ w : Waiter ℤ, w.Awake → (g' w).Awake)
    (ht : t.task i = g (s.task i)) : Leaving f key i n t := by
  refine ⟨h.1.trans_le hid, ?_⟩
  rw [ht]
  rcases h.2 with ⟨w, r, hw, hk⟩ | ⟨w, hw, hk, ha, hr⟩
  · exact .inl ⟨w, r, by rw [hw, hback], hk⟩
  · exact .inr
      ⟨g' w, by rw [hw, hwait], (hkey w).trans hk, hawake w ha, (Waiter.rank_congr (hpc w)).trans_lt hr⟩

omit [Timecode TC] in
/-- A step of the process itself. -/
theorem Leaving.go (h : Leaving f key i (n + 1) s) : Leaving f key i n (s.go hz i) := by
  obtain ⟨hlt, ⟨w, r, hw, hk⟩ | ⟨w, hw, hk, ha, hr⟩⟩ := h
  · have hgo : s.go hz i = s := by
      unfold FrameSys.go
      rw [hw]
    rw [hgo]
    exact ⟨hlt, .inl ⟨w, r, hw, hk⟩⟩
  · unfold FrameSys.go
    rw [hw]
    dsimp only
    split_ifs with hover
    · refine ⟨?_, .inl ⟨w, _, update_self .., hk⟩⟩
      rw [id_finish]
      exact hlt
    · have hholds : decide (s.card.frame.id ≠ w.key) = true := decide_eq_true (hk.trans_lt hlt).ne'
      have hpos : 0 < w.rank := Nat.pos_of_ne_zero fun h0 => hover (Waiter.rank_eq_zero.mp h0)
      refine ⟨hlt, .inr ⟨_, update_self .., ?_, ?_, ?_⟩⟩
      · rw [Waiter.next_key, hk]
      · rw [hholds]
        exact ha.next.1
      · rw [hholds]
        have := ha.next.2
        omega

omit [DecidableEq ι] in
theorem Leaving.count (h : Leaving f key i n s) (irq : FrameIrq TC) :
    Leaving f key i n (s.count irq) := by
  unfold FrameSys.count
  split
  · refine h.of_task ?_ rfl
    show s.card.frame.id ≤ (frameCount irq s.card).frame.id
    rw [frame_frameCount]
    exact (Int.lt_succ _).le
  · exact h

omit [DecidableEq ι] in
theorem Leaving.handle (h : Leaving f key i n s) : Leaving f key i n s.handle := by
  unfold FrameSys.handle
  cases s.handler with
  | idle => exact h
  | counted irq srun => exact h.of_task (id_showFrame ..).ge rfl
  | shown =>
    exact h.wait (g := FrameTask.wake) le_rfl (fun _ _ => rfl) (fun _ => rfl)
      (fun _ => Waiter.wake_key)
      (fun _ => Waiter.wake_pc) (fun _ ha => ha.wake) rfl
  | woken => exact h.of_task (id_aplayCheck ..).ge rfl

/-- A step of anything else. -/
theorem Leaving.step (h : Leaving f key i n s) {e : FrameEvent TC ι} (hgo : e.isGo i = false)
    (hcall : e.isCall i = false) : Leaving f key i n (s.step M hz e) := by
  cases e with
  | count irq => exact h.count irq
  | handle => exact h.handle
  | op o =>
    refine h.of_task ?_ rfl
    show s.card.frame.id ≤ (exec M s.card o).2.frame.id
    rw [id_exec]
    split_ifs <;> omega
  | call j g pending =>
    have hne : i ≠ j := fun hij => by simp [FrameEvent.isCall, hij] at hcall
    show Leaving f key i n (s.call j g pending)
    unfold FrameSys.call
    split_ifs
    · exact h.of_task le_rfl (update_of_ne hne _ _)
    · exact h.of_task (id_prepare g s.card).ge (update_of_ne hne _ _)
    · exact h
  | go j =>
    have hne : i ≠ j := fun hij => by simp [FrameEvent.isGo, hij] at hgo
    show Leaving f key i n (s.go hz j)
    unfold FrameSys.go
    split
    · exact h.of_task le_rfl (update_of_ne hne _ _)
    · split_ifs
      · exact h.of_task (id_finish ..).ge (update_of_ne hne _ _)
      · exact h.of_task le_rfl (update_of_ne hne _ _)
    · exact h
  | signal j =>
    by_cases hij : i = j
    · subst hij
      exact h.wait (g := FrameTask.signal) le_rfl (fun _ _ => rfl) (fun _ => rfl) (fun _ => rfl)
        (fun _ => rfl)
        (fun _ _ => Waiter.Awake.signal) (update_self ..)
    · exact h.of_task le_rfl (update_of_ne hij _ _)
  | tick j =>
    by_cases hij : i = j
    · subst hij
      exact h.wait (g := FrameTask.tick) le_rfl (fun _ _ => rfl) (fun _ => rfl)
        (fun _ => Waiter.tick_key)
        (fun _ => Waiter.tick_pc) (fun _ ha => ha.tick) (update_self ..)
    · exact h.of_task le_rfl (update_of_ne hij _ _)

/-- Every step of the process brings it nearer to its end, and nothing takes it back. -/
theorem Leaving.run :
    ∀ (l : List (FrameEvent TC ι)) {s : FrameSys TC ι}, (∀ e ∈ l, e.isCall i = false) →
    Leaving f key i (n + l.countP (FrameEvent.isGo i)) s →
      Leaving f key i n (l.foldl (FrameSys.step M hz) s)
  | [], _, _, h => h
  | e :: l, s, hcall, h => by
    rw [List.foldl_cons]
    refine Leaving.run l (fun e' he' => hcall e' (List.mem_cons_of_mem _ he')) ?_
    cases hgo : e.isGo i with
    | false =>
      rw [List.countP_cons_of_neg (by simp [hgo])] at h
      exact h.step hgo (hcall e List.mem_cons_self)
    | true =>
      rw [List.countP_cons_of_pos hgo, ← Nat.add_assoc] at h
      cases e with
      | go j =>
        obtain rfl : j = i := of_decide_eq_true hgo
        exact h.go
      | _ => exact absurd hgo Bool.false_ne_true

end FrameSys

/-- A process that waits when the handler is done with a frame it has not seen is back
after a few steps of its own, whatever happens between them: seven at most. -/
theorem frame_wakes (hhz : 4 ≤ hz) (h : Reach (step M hz) FromHandler (init c) s) {i : ι}
    {f : FrameCall} {w : Waiter ℤ} (ht : s.task i = .waiting f w)
    (hframe : w.key ≠ s.card.frame.id) (hdue : s.handler.due = false) (l : List (FrameEvent TC ι))
    (hcall : ∀ e ∈ l, e.isCall i = false) (hl : w.rank < l.countP (FrameEvent.isGo i)) :
    w.rank ≤ 6 ∧ ∃ v r, (l.foldl (step M hz) s).task i = .back f v r ∧ v.key = w.key := by
  have hi := inv_reach hhz h i
  rw [ht, hdue] at hi
  have hlt : w.key < s.card.frame.id := lt_of_le_of_ne hi.1 hframe
  have hawake : w.Awake := by
    have hinv := hi.2.1
    rw [decide_eq_true hlt.ne'] at hinv
    exact hinv.awake_of
  have hstart : Leaving f w.key i (0 + l.countP (FrameEvent.isGo i)) s := by
    rw [Nat.zero_add]
    exact ⟨hlt, .inr ⟨w, ht, rfl, hawake, hl⟩⟩
  have hend : Leaving f w.key i 0 (l.foldl (step M hz) s) := hstart.run l hcall
  obtain ⟨-, ⟨v, r, hv, hk⟩ | ⟨v, -, -, -, hr⟩⟩ := hend
  · exact ⟨w.rank_le, v, r, hv, hk⟩
  · exact absurd hr (Nat.not_lt_zero _)

/-- Process `false` is back after six steps of its own, with another frame counted in between. -/
theorem frame_wakes_two :
    let s := startWaits.foldl (step {} 250) (init (Card.new false false))
    ∃ v r, ((goes false 2 ++ .count blankFrame :: goes false 4).foldl (step {} 250) s).task false =
      .back .streamStart v r ∧ v.key = 0 := by
  intro s
  have hreach : Reach (step {} 250) FromHandler (init (Card.new false false)) s :=
    .of_along _ (by decide +kernel)
  have hzero : s.task false = .waiting .streamStart ⟨0, .schedule, false, false, false, 62, 0⟩ := by
    decide +kernel
  exact (frame_wakes (by decide) hreach hzero (by decide +kernel) (by decide +kernel) _ (by decide)
    (by decide)).2

end AjaDriver
