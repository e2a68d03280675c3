/-
# The LTC board and the P2 slave's timecode

The LTC board is called from starts, stops and new frames. Whatever the order of
these, its sync line goes up and down once at a time, a timecode is written right
before a pulse, and the line is low between two operations (`ltc_protocol`); as long
as nobody sets the generator's flags by hand, the board runs exactly when the
generator does (`ltc_runs_iff`). The P2 slave was last given the timecode of the
card's frame (`p2Tc_run`).
-/
import AjaDriver.Messages

namespace AjaDriver

open Card

variable {TC : Type}

/-! ### The line -/

/-- The board between two calls: the sync line is low, a timecode is written but
not synchronized, or the line is high. -/
inductive LtcLine
  | low
  | written
  | high
  deriving DecidableEq, Repr

/-- The board's state after a call, `none` of a call out of turn. -/
def LtcLine.next : LtcLine → Io TC → Option LtcLine
  | .low, .ltcRun _ => some .low
  | .low, .p2slaveSetTc _ => some .low
  | .low, .ltcWrite _ => some .written
  | .low, .ltcSync true => some .high
  | .written, .ltcSync true => some .high
  | .high, .ltcSync false => some .low
  | _, _ => none

/-- Calls that begin and end with the line low. -/
def InTurn (l : List (Io TC)) : Prop := l.foldlM LtcLine.next .low = some .low

theorem inTurn_nil : InTurn ([] : List (Io TC)) := rfl

theorem InTurn.append {l m : List (Io TC)} (hl : InTurn l) (hm : InTurn m) : InTurn (l ++ m) := by
  unfold InTurn at *
  rw [List.foldlM_append, hl]
  exact hm

theorem inTurn_run (c : Card TC) (val : Bool) : InTurn (c.heardRun val) := by
  unfold heardRun
  split_ifs <;> rfl

/-- Calls only of the devices the card has. -/
def Card.Has (c : Card TC) : Io TC → Prop
  | .prset _ _ => True
  | .ltcRun _ | .ltcWrite _ | .ltcSync _ => c.pcitc = true
  | .p2slaveSetTc _ => c.p2slave = true

theorem has_run (c : Card TC) (val : Bool) : ∀ e ∈ c.heardRun val, c.Has e := by
  unfold heardRun
  split_ifs with hp
  · rw [List.forall_mem_singleton]
    exact hp
  · exact List.forall_mem_nil _

variable [Timecode TC]

theorem inTurn_frame (c : Card TC) (gen : Option TC) (tc : TC) : InTurn (c.heardFrame gen tc) := by
  have hwrite : ∀ t : TC, InTurn (heardLtc gen t ++ [.ltcSync true, .ltcSync false]) := by
    intro t
    unfold heardLtc
    cases gen with
    | none => rfl
    | some g =>
      simp only
      split_ifs <;> rfl
  unfold heardFrame
  refine .append ?_ ?_
  · split_ifs
    · exact hwrite _
    · exact inTurn_nil
  · split_ifs <;> rfl

theorem has_frame (c : Card TC) (gen : Option TC) (tc : TC) :
    ∀ e ∈ c.heardFrame gen tc, c.Has e := by
  have hwrite : ∀ t : TC, c.pcitc = true → ∀ e ∈ heardLtc gen t, c.Has e := by
    intro t hp
    unfold heardLtc
    cases gen with
    | none => exact List.forall_mem_nil _
    | some g =>
      simp only
      split_ifs
      · rw [List.forall_mem_singleton]
        exact hp
      · exact List.forall_mem_nil _
  unfold heardFrame
  rw [List.forall_mem_append]
  constructor
  · split_ifs with hsync
    · rw [List.forall_mem_append]
      refine ⟨hwrite _ hsync.1, ?_⟩
      rw [List.forall_mem_cons, List.forall_mem_singleton]
      exact ⟨hsync.1, hsync.1⟩
    · exact List.forall_mem_nil _
  · split_ifs with hp
    · rw [List.forall_mem_singleton]
      exact hp
    · exact List.forall_mem_nil _

/-- The forms of what an operation says. -/
theorem heard_forms {P : List (Io TC) → Prop} (c : Card TC) (h0 : P [])
    (hrun : ∀ val, P (c.heardRun val)) (hframe : ∀ gen tc, P (c.heardFrame gen tc))
    (happend : ∀ {l m}, P l → P m → P (l ++ m)) (op : Op TC) : P (op.heard c) := by
  cases op with
  | frame irq =>
    rw [Op.heard]
    split_ifs
    · exact h0
    · refine happend ?_ (hframe _ _)
      unfold heardCount
      split_ifs
      · exact hrun true
      · exact h0
  | streamStart w =>
    cases w with
    | frame =>
      rw [Op.heard]
      split_ifs
      · exact h0
      · exact hrun true
    | timeout => exact h0
    | signal => exact h0
  | streamStop w =>
    cases w with
    | frame => exact hrun false
    | timeout => exact h0
    | signal => exact h0
  | release pid =>
    rw [Op.heard]
    split_ifs
    · exact hrun false
    · exact h0
  | _ => exact h0

omit [Timecode TC] in
theorem Card.Has.same {c d : Card TC} {e : Io TC} (h : c.Has e) (hp : d.pcitc = c.pcitc)
    (hs : d.p2slave = c.p2slave) :
    d.Has e := by
  cases e with
  | prset r v => trivial
  | ltcRun v => exact hp.trans h
  | ltcWrite t => exact hp.trans h
  | ltcSync v => exact hp.trans h
  | p2slaveSetTc t => exact hs.trans h

/-- What every operation keeps holds after a run. -/
theorem Card.run_of_exec {I : Card TC → Prop} (M : ModParams)
    (h : ∀ {c : Card TC}, I c → ∀ op, I (AjaDriver.exec M c op).2) :
    ∀ (ops : List (Op TC)) {c : Card TC}, I c → I (c.run M ops)
  | [], _, hc => hc
  | op :: ops, _, hc => Card.run_of_exec M h ops (h hc op)

/-- What is kept about what was said so far. -/
structure Card.Polite (c : Card TC) : Prop where
  inTurn : InTurn c.messages
  has : ∀ e ∈ c.messages, c.Has e

theorem Card.Polite.new (pcitc p2slave : Bool) : (Card.new pcitc p2slave : Card TC).Polite where
  inTurn := inTurn_nil
  has := List.forall_mem_nil _

theorem Card.Polite.exec (M : ModParams) {c : Card TC} (h : c.Polite) (op : Op TC) :
    (exec M c op).2.Polite := by
  obtain ⟨hheard, -, -⟩ := hears_exec M c op
  constructor
  · rw [hheard.messages]
    exact h.inTurn.append (heard_forms c inTurn_nil (inTurn_run c) (inTurn_frame c) .append op)
  · rw [hheard.messages]
    have hforms : ∀ e ∈ op.heard c, c.Has e :=
      heard_forms (P := fun l => ∀ e ∈ l, c.Has e) c (List.forall_mem_nil _) (has_run c)
        (has_frame c)
        (fun hl hm => List.forall_mem_append.mpr ⟨hl, hm⟩) op
    intro e he
    rw [List.mem_append] at he
    exact (he.elim (h.has e) (hforms e)).same hheard.pcitc hheard.p2slave

/-- In every run, operations and interrupts one at a time, the LTC board and the P2 slave
are only called where the card has them; of the board's calls, `run`, `writetc` and `sync`
come in turn, and its line is low after each operation. (On two processors the `run` of a
STREAM_STOP could fall between the two `sync` of a frame.) -/
theorem ltc_protocol (M : ModParams) (pcitc p2slave : Bool) (ops : List (Op TC)) :
    let c := (Card.new pcitc p2slave : Card TC).run M ops
    c.messages.foldlM LtcLine.next .low = some .low ∧ ∀ e ∈ c.messages, c.Has e := by
  intro c
  have hpolite : c.Polite := Card.run_of_exec M (fun hc op => hc.exec M op) ops (.new pcitc p2slave)
  exact ⟨hpolite.inTurn, hpolite.has⟩

/-! ### The board runs with the generator -/

/-- The value of a call of `pcitc.run`. -/
def runVal : Io TC → Option Bool
  | .ltcRun val => some val
  | _ => none

/-- Does the LTC board run? What the last `pcitc.run` said. -/
def Card.ltcRuns (c : Card TC) : Bool := ((c.messages.filterMap runVal).getLast?).getD false

/-- The generator's flags are set and cleared by hand. -/
def Op.isFlags : Op TC → Bool
  | .timecodeSetflags _ | .timecodeClrflags _ => true
  | _ => false

omit [Timecode TC] in
theorem ltcRuns_concat {c d : Card TC} {l : List (Io TC)} (h : Heard c l d) :
    d.ltcRuns = ((l.filterMap runVal).getLast?).getD c.ltcRuns := by
  unfold Card.ltcRuns
  rw [h.messages, List.filterMap_append, List.getLast?_append]
  cases (List.filterMap runVal l).getLast? <;> rfl

theorem runVal_frame (c : Card TC) (gen : Option TC) (tc : TC) :
    (c.heardFrame gen tc).filterMap runVal = [] := by
  unfold heardFrame heardLtc
  cases gen with
  | none => split_ifs <;> rfl
  | some g =>
    simp only
    split_ifs <;> rfl

omit [Timecode TC] in
theorem runVal_run {c : Card TC} (h : c.pcitc = true) (val : Bool) :
    (c.heardRun val).filterMap runVal = [val] := by
  unfold heardRun
  rw [if_pos h]
  rfl

/-- The board and the generator, on a card that has the board. -/
structure Card.InStep (c : Card TC) : Prop where
  pcitc : c.pcitc = true
  runs : c.ltcRuns = decide c.Generating

theorem running_andNot (flags : BitVec 32) :
    (flags &&& ~~~ajaTcgRunning) &&& ajaTcgRunning = 0 := by
  apply BitVec.eq_of_getLsbD_eq
  intro i hi
  rw [BitVec.getLsbD_and, BitVec.getLsbD_and, BitVec.getLsbD_not]
  cases ajaTcgRunning.getLsbD i <;> simp

/-- An operation that starts the generator starts the board. -/
theorem Card.InStep.start {c d : Card TC} (h : c.InStep) {op : Op TC} (hh : Hears c op d)
    (hl : (op.heard c).filterMap runVal = [true])
    (hg : op.genflags c = c.tcg.flags ||| ajaTcgRunning) : d.InStep := by
  refine ⟨hh.heard.pcitc.trans h.pcitc, ?_⟩
  rw [ltcRuns_concat hh.heard, hl, eq_comm]
  refine decide_eq_true ?_
  rw [Generating, hh.flags, hg]
  exact running_or _

/-- One that stops it stops the board. -/
theorem Card.InStep.stop {c d : Card TC} (h : c.InStep) {op : Op TC} (hh : Hears c op d)
    (hl : (op.heard c).filterMap runVal = [false])
    (hg : op.genflags c = c.tcg.flags &&& ~~~ajaTcgRunning) : d.InStep := by
  refine ⟨hh.heard.pcitc.trans h.pcitc, ?_⟩
  rw [ltcRuns_concat hh.heard, hl, eq_comm]
  refine decide_eq_false ?_
  rw [Generating, hh.flags, hg, running_andNot]
  exact fun hne => hne rfl

/-- Any other leaves both as they are. -/
theorem Card.InStep.keep {c d : Card TC} (h : c.InStep) {op : Op TC} (hh : Hears c op d)
    (hl : (op.heard c).filterMap runVal = []) (hg : op.genflags c = c.tcg.flags) : d.InStep := by
  have hgen : d.Generating ↔ c.Generating := by rw [Generating, hh.flags, hg, Generating]
  refine ⟨hh.heard.pcitc.trans h.pcitc, ?_⟩
  rw [ltcRuns_concat hh.heard, hl, decide_eq_decide.mpr hgen]
  exact h.runs

theorem Card.InStep.exec (M : ModParams) {c : Card TC} (h : c.InStep) {op : Op TC}
    (hop : op.isFlags = false) :
    (exec M c op).2.InStep := by
  have hhears := hears_exec M c op
  cases op with
  | frame irq =>
    by_cases hf : irq.field = true
    · exact h.keep hhears (by rw [Op.heard, if_pos hf]; rfl) (if_neg (by simp [hf]))
    · have hfirst : ((Op.frame irq).heard c).filterMap runVal = c.heardCount.filterMap runVal := by
        rw [Op.heard, if_neg hf, List.filterMap_append, runVal_frame, List.append_nil]
      by_cases hdue : c.control.Due
      · exact h.start hhears (by rw [hfirst, heardCount, if_pos hdue, runVal_run h.pcitc])
          (if_pos ⟨hf, hdue⟩)
      · exact h.keep hhears (by rw [hfirst, heardCount, if_neg hdue]; rfl)
          (if_neg fun hand => hdue hand.2)
  | streamStart w =>
    cases w with
    | frame =>
      by_cases hr : c.stream.running = true
      · exact h.keep hhears (by rw [Op.heard, if_pos hr]; rfl) (if_pos hr)
      · exact h.start hhears (by rw [Op.heard, if_neg hr, runVal_run h.pcitc]) (if_neg hr)
    | timeout => exact h.keep hhears rfl rfl
    | signal => exact h.keep hhears rfl rfl
  | streamStop w =>
    cases w with
    | frame => exact h.stop hhears (runVal_run h.pcitc false) rfl
    | timeout => exact h.keep hhears rfl rfl
    | signal => exact h.keep hhears rfl rfl
  | release pid =>
    by_cases hr : c.stream.running ∧ pid = c.stream.pid
    · exact h.stop hhears (by rw [Op.heard, if_pos hr, runVal_run h.pcitc]) (if_pos hr)
    · exact h.keep hhears (by rw [Op.heard, if_neg hr]; rfl) (if_neg hr)
  | timecodeSetflags flags => cases hop
  | timecodeClrflags flags => cases hop
  | _ => exact h.keep hhears rfl rfl

/-- On a card with an LTC board whose generator's flags nobody sets by hand, the board
runs exactly when the generator does, whatever starts, stops and triggers there were. -/
theorem ltc_runs_iff (M : ModParams) (p2slave : Bool) (ops : List (Op TC))
    (hops : ∀ op ∈ ops, op.isFlags = false) :
    let c := (Card.new true p2slave : Card TC).run M ops
    c.ltcRuns = true ↔ c.Generating := by
  intro c
  have hrun : ∀ (l : List (Op TC)) {d : Card TC}, d.InStep → (∀ op ∈ l, op.isFlags = false) →
      (d.run M l).InStep := by
    intro l
    induction l with
    | nil => exact fun hd _ => hd
    | cons op l ih =>
      intro d hd hl
      rw [List.forall_mem_cons] at hl
      exact ih (hd.exec M hl.1) hl.2
  have hstep : c.InStep :=
    hrun ops ⟨rfl, (by decide : false = decide ((0 : BitVec 32) &&& ajaTcgRunning ≠ 0))⟩ hops
  rw [hstep.runs, decide_eq_true_iff]

/-- A triggered start, and a stop. -/
theorem ltc_runs_iff_triggered :
    let irq : FrameIrq ℕ := ⟨false, 0, 0, 0, 0, (0, 0), (0, 0), 0, 0, none⟩
    let c := (Card.new true true : Card ℕ).run {}
      [.streamInit 7 ⟨8, ajaPlayback, 1, 0⟩, .settrig 1, .frame irq]
    c.ltcRuns = true ↔ c.Generating := by
  intro irq
  exact ltc_runs_iff {} true _ (by decide)

/-! ### The P2 slave's timecode -/

/-- The timecode given to the P2 slave. -/
def setTc : Io TC → Option TC
  | .p2slaveSetTc tc => some tc
  | _ => none

/-- The timecode the P2 slave was given last. -/
def Card.p2Tc (c : Card TC) : Option TC := (c.messages.filterMap setTc).getLast?

omit [Timecode TC] in
theorem p2Tc_concat {c d : Card TC} {l : List (Io TC)} (h : Heard c l d) :
    d.p2Tc = ((l.filterMap setTc).getLast?).or c.p2Tc := by
  unfold Card.p2Tc
  rw [h.messages, List.filterMap_append, List.getLast?_append]

omit [Timecode TC] in
theorem setTc_run (c : Card TC) (val : Bool) : (c.heardRun val).filterMap setTc = [] := by
  unfold heardRun
  split_ifs <;> rfl

theorem setTc_frame {c : Card TC} (h : c.p2slave = true) (gen : Option TC) (tc : TC) :
    (c.heardFrame gen tc).filterMap setTc = [Timecode.makevalidwire tc] := by
  have hltc :
      ∀ t : TC, List.filterMap setTc (heardLtc gen t ++ [.ltcSync true, .ltcSync false]) = [] := by
    intro t
    unfold heardLtc
    cases gen with
    | none => rfl
    | some g =>
      simp only
      split_ifs <;> rfl
  unfold heardFrame
  rw [if_pos h, List.filterMap_append]
  split_ifs
  · rw [hltc]
    rfl
  · rfl

theorem setTc_heard (M : ModParams) {c : Card TC} (h : c.p2slave = true) (op : Op TC) :
    (op.heard c).filterMap setTc =
      if op.isNewFrame then [Timecode.makevalidwire (exec M c op).2.frame.time.tcg] else [] := by
  cases op with
  | frame irq =>
    by_cases hf : irq.field = true
    · have hnew : (Op.frame irq : Op TC).isNewFrame = false := by simp [Op.isNewFrame, hf]
      rw [Op.heard, if_pos hf, if_neg (by simp [hnew])]
      rfl
    · have hnew : (Op.frame irq : Op TC).isNewFrame = true := by simp [Op.isNewFrame, hf]
      have hcount : c.heardCount.filterMap setTc = [] := by
        unfold heardCount
        split_ifs
        · exact setTc_run c true
        · rfl
      rw [(hears_exec M c _).shown, if_pos hnew, Op.heard, if_neg hf, List.filterMap_append, hcount,
        setTc_frame h, Op.shown, if_neg hf]
      rfl
  | streamStart w =>
    cases w with
    | frame =>
      show List.filterMap setTc (if c.stream.running then [] else c.heardRun true) = []
      split_ifs
      · rfl
      · exact setTc_run c true
    | timeout => rfl
    | signal => rfl
  | streamStop w =>
    cases w with
    | frame => exact setTc_run c false
    | timeout => rfl
    | signal => rfl
  | release pid =>
    show List.filterMap setTc (if c.stream.running ∧ pid = c.stream.pid then c.heardRun false
      else []) = []
    split_ifs
    · exact setTc_run c false
    · rfl
  | _ => rfl

/-- After every run the P2 slave has the wire timecode of the card's frame, if there
was a frame at all. -/
theorem p2Tc_run (M : ModParams) (pcitc : Bool) (ops : List (Op TC)) :
    let c := (Card.new pcitc true : Card TC).run M ops
    c.p2slave = true ∧ c.p2Tc = if newFrames ops = 0 then none
      else some (Timecode.makevalidwire c.frame.time.tcg) := by
  intro c
  induction ops using List.reverseRecOn with
  | nil => exact ⟨rfl, rfl⟩
  | append_singleton ops op ih =>
    obtain ⟨hp, htc⟩ := ih
    have hc : c = (exec M ((Card.new pcitc true : Card TC).run M ops) op).2 :=
      Card.run_concat M _ ops op
    set d := (Card.new pcitc true : Card TC).run M ops
    obtain ⟨hheard, -, hshown⟩ := hears_exec M d op
    have hcount : newFrames (ops ++ [op]) = newFrames ops + if op.isNewFrame then 1 else 0 := by
      unfold newFrames
      rw [List.countP_append, List.countP_singleton]
    rw [hc, hcount]
    refine ⟨hheard.p2slave.trans hp, ?_⟩
    rw [p2Tc_concat hheard, setTc_heard M hp op]
    cases hnew : op.isNewFrame with
    | true => simp
    | false =>
      have hsame : (exec M d op).2.frame.time.tcg = d.frame.time.tcg := by
        rw [hshown]
        cases op with
        | frame irq => exact if_pos (by simpa [Op.isNewFrame] using hnew)
        | _ => rfl
      rw [hsame]
      simpa using htc

end AjaDriver
