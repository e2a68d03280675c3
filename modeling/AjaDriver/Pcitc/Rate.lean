/-
# The LTC board's frame rate

`pcitc_write` sets the board up when the timecode's frame rate is not the one
the driver remembers, and remembers the new one when all of the setup succeeded.
The setup's first command already changes the board's rate: when the board takes
it and one of the five commands then fails, the driver remembers a rate the
board does not have. In runs where that happens only while no rate is
remembered, the remembered rate is the board's (`cfps_is_rate`).
-/
import AjaDriver.Pcitc
import AjaDriver.Lib.Runs
import Mathlib.Data.List.Basic
import Mathlib.Tactic.Set

namespace AjaDriver

variable (bus : PcitcBus) (takes : ℕ → Bool)

/-! ### What the board has taken -/

/-- The frame rate a mailbox command sets. -/
def rateOf (cmd : BitVec 8) : Option ℤ :=
  if cmd = 0x05 then some 24
  else if cmd = 0x04 then some 25
  else if cmd = 0x03 then some 30
  else none

/-- The rate an access sets, if the board takes what is written in it. -/
def rateTaken : PcitcAccess × ℕ → Option ℤ
  | (.write8 off cmd, n) => if off = 0x2F ∧ takes n = true then rateOf cmd else none
  | _ => none

/-- The rates of the frame-rate commands the board took. -/
def ratesTaken (log : PcitcLog) : List ℤ := log.zipIdx.filterMap (rateTaken takes)

/-- The rate of the last one. -/
def boardRate (log : PcitcLog) : Option ℤ := (ratesTaken takes log).getLast?

/-- Where `pcitc_mailbox_send` writes its command, unless the board is busy. -/
def commandAt (log : PcitcLog) : Option ℕ :=
  let w := pcitcWait bus (fun status => status &&& 0x04 = 0) mboxDelay log
  if w.1 then some w.2.length else none

/-- The board takes the command sent. -/
def took (log : PcitcLog) : Bool := (commandAt bus log).any takes

/-- The board has taken a command for which `pcitc_mailbox_send` returns no
error. -/
def Acknowledges : Prop :=
  ∀ (log : PcitcLog) (cmd : BitVec 8), 0 ≤ (pcitcMailboxSend bus log cmd).1 →
    took bus takes log = true

/-- An access that is no frame-rate command. -/
def Plain (a : PcitcAccess) : Prop := ∀ n, rateTaken takes (a, n) = none

variable {bus takes}

theorem ratesTaken_append {l : PcitcLog} (hl : ∀ a ∈ l, Plain takes a) (log : PcitcLog) :
    ratesTaken takes (log ++ l) = ratesTaken takes log := by
  have hnone : (l.zipIdx (0 + log.length)).filterMap (rateTaken takes) = [] := by
    apply List.filterMap_eq_nil_iff.mpr
    rintro ⟨a, n⟩ ha
    exact hl a (List.fst_mem_of_mem_zipIdx ha) n
  unfold ratesTaken
  rw [List.zipIdx_append, List.filterMap_append, hnone, List.append_nil]

theorem ratesTaken_command (log : PcitcLog) (cmd : BitVec 8) :
    ratesTaken takes (log ++ [.write8 0x2F cmd]) =
      ratesTaken takes log ++ (if takes log.length = true then (rateOf cmd).toList else []) := by
  unfold ratesTaken
  rw [List.zipIdx_append, List.filterMap_append]
  congr 1
  simp only [List.zipIdx_cons, List.zipIdx_nil, zero_add, List.filterMap_cons, List.filterMap_nil,
    rateTaken, true_and]
  split_ifs
  · cases rateOf cmd <;> rfl
  · rfl

/-! ### The mailbox -/

theorem plain_read (off : ℕ) (val : BitVec 8) : Plain takes (.read8 off val) := fun _ => rfl

variable (bus takes) in
/-- A wait only reads. -/
theorem wait_reads (stop : BitVec 8 → Bool) : ∀ (n : ℕ) (log : PcitcLog),
    ∃ l, (pcitcWait bus stop n log).2 = log ++ l ∧ ∀ a ∈ l, Plain takes a
  | 0, log => by
    refine ⟨_, rfl, fun a ha => ?_⟩
    obtain rfl := List.mem_singleton.mp ha
    exact plain_read _ _
  | n + 1, log => by
    unfold pcitcWait
    simp only
    split_ifs
    · refine ⟨_, rfl, fun a ha => ?_⟩
      obtain rfl := List.mem_singleton.mp ha
      exact plain_read _ _
    · obtain ⟨l, hl, hplain⟩ := wait_reads stop n (log ++ [.read8 0xFE (bus.read8 log.length 0xFE)])
      refine ⟨.read8 0xFE (bus.read8 log.length 0xFE) :: l, ?_, fun a ha => ?_⟩
      · rw [hl, List.append_assoc]
        rfl
      · rcases List.mem_cons.mp ha with rfl | ha
        · exact plain_read _ _
        · exact hplain a ha

variable (takes) in
/-- Once the board is not busy the command is written, and nothing else that
sets a rate. -/
theorem send_log {log : PcitcLog} {n : ℕ} (h : commandAt bus log = some n) (cmd : BitVec 8) :
    ∃ l m, (∀ a ∈ l, Plain takes a) ∧ (∀ a ∈ m, Plain takes a) ∧ (log ++ l).length = n ∧
      (pcitcMailboxSend bus log cmd).2 = log ++ l ++ [.write8 0x2F cmd] ++ m := by
  unfold commandAt at h
  simp only at h
  split_ifs at h with hready
  unfold pcitcMailboxSend
  simp only
  rw [if_neg (by rw [hready]; simp)]
  obtain ⟨l, hl, hplain⟩ := wait_reads bus takes (fun status => status &&& 0x04 = 0) mboxDelay log
  rw [hl] at h ⊢
  obtain ⟨m, hm, hplain'⟩ := wait_reads bus takes (fun status => status &&& 0x01 ≠ 0) mboxDelay
    (log ++ l ++ [.write8 0x2F cmd])
  rw [hm]
  set ret := bus.read8 (log ++ l ++ [PcitcAccess.write8 0x2F cmd] ++ m).length 0x0F
  obtain ⟨m', hm', hplain''⟩ := wait_reads bus takes (fun status => status &&& 0x04 = 0) mboxDelay
    (log ++ l ++ [.write8 0x2F cmd] ++ m ++ [.read8 0x0F ret])
  have hrest : ∀ a ∈ m ++ .read8 0x0F ret :: m', Plain takes a := by
    intro a ha
    rcases List.mem_append.mp ha with ha | ha
    · exact hplain' a ha
    rcases List.mem_cons.mp ha with rfl | ha
    · exact plain_read _ _
    · exact hplain'' a ha
  rw [hm']
  split_ifs
  · exact ⟨l, m, hplain, hplain', Option.some.inj h, rfl⟩
  · exact ⟨l, m ++ .read8 0x0F ret :: m', hplain, hrest, Option.some.inj h, by simp⟩
  · refine ⟨l, m ++ .read8 0x0F ret :: m' ++ [.write8 0x2F 0x00], hplain, fun a ha => ?_,
      Option.some.inj h, by simp⟩
    rcases List.mem_append.mp ha with ha | ha
    · exact hrest a ha
    · obtain rfl := List.mem_singleton.mp ha
      exact fun n => ite_self none

variable (takes) in
/-- A command the board is too busy for is not written. -/
theorem send_busy {log : PcitcLog} (h : commandAt bus log = none) (cmd : BitVec 8) :
    ∃ l, (∀ a ∈ l, Plain takes a) ∧ pcitcMailboxSend bus log cmd = (-1, log ++ l) := by
  unfold commandAt at h
  simp only at h
  split_ifs at h with hready
  unfold pcitcMailboxSend
  simp only
  rw [if_pos (by simpa using hready)]
  obtain ⟨l, hl, hplain⟩ := wait_reads bus takes (fun status => status &&& 0x04 = 0) mboxDelay log
  exact ⟨l, hplain, by rw [hl]⟩

/-- A command changes the board's rate if it is a frame-rate command and the
board takes it. -/
theorem boardRate_send (log : PcitcLog) (cmd : BitVec 8) :
    boardRate takes (pcitcMailboxSend bus log cmd).2 =
      if took bus takes log = true ∧ rateOf cmd ≠ none then rateOf cmd
        else boardRate takes log := by
  unfold boardRate took
  cases hat : commandAt bus log with
  | none =>
    obtain ⟨l, hplain, hl⟩ := send_busy takes hat cmd
    rw [hl, ratesTaken_append hplain, if_neg (by simp)]
  | some n =>
    obtain ⟨l, m, hl, hm, hlen, hsend⟩ := send_log takes hat cmd
    rw [hsend, ratesTaken_append hm, ratesTaken_command, ratesTaken_append hl, hlen]
    cases hcmd : rateOf cmd with
    | none => simp
    | some fps =>
      by_cases htakes : takes n = true
      · simp [htakes]
      · simp [htakes]

theorem boardRate_append {l : PcitcLog} (hl : ∀ a ∈ l, Plain takes a) (log : PcitcLog) :
    boardRate takes (log ++ l) = boardRate takes log :=
  congrArg List.getLast? (ratesTaken_append hl log)

/-- Any other command leaves the rate alone. -/
theorem boardRate_other {log : PcitcLog} {cmd : BitVec 8} (h : rateOf cmd = none) :
    boardRate takes (pcitcMailboxSend bus log cmd).2 = boardRate takes log := by
  rw [boardRate_send, if_neg fun h' => h'.2 h]

/-! ### Setup -/

/-- All five commands of the setup, the first of them `cmd`, are sent without an
error. -/
def SetupAnswered (bus : PcitcBus) (log : PcitcLog) (cmd : BitVec 8) : Prop :=
  let r1 := pcitcMailboxSend bus (log ++ setupWrites) cmd
  let r2 := pcitcMailboxSend bus r1.2 0x25
  let r3 := pcitcMailboxSend bus (r2.2 ++ [.write32 0x60 0, .write32 0x64 0]) 0x40
  let r4 := pcitcMailboxSend bus r3.2 0x4B
  let r5 := pcitcMailboxSend bus r4.2 0x4D
  0 ≤ r1.1 ∧ 0 ≤ r2.1 ∧ 0 ≤ r3.1 ∧ 0 ≤ r4.1 ∧ 0 ≤ r5.1

theorem plain_setupWrites : ∀ a ∈ setupWrites, Plain takes a := by
  intro a ha n
  unfold setupWrites at ha
  simp only [List.mem_cons, List.not_mem_nil, or_false] at ha
  rcases ha with rfl | rfl | rfl | rfl <;> rfl

theorem plain_words (off off' : ℕ) (val val' : BitVec 32) :
    ∀ a ∈ [PcitcAccess.write32 off val, .write32 off' val'], Plain takes a := by
  intro a ha n
  simp only [List.mem_cons, List.not_mem_nil, or_false] at ha
  rcases ha with rfl | rfl <;> rfl

theorem rateOf_rateCmd {fps : ℤ} {cmd : BitVec 8} (h : rateCmd fps = some cmd) :
    rateOf cmd = some fps := by
  unfold rateCmd at h
  split_ifs at h with h24 h25 h30
  · obtain rfl := Option.some.inj h
    rw [h24]
    rfl
  · obtain rfl := Option.some.inj h
    rw [h25]
    rfl
  · obtain rfl := Option.some.inj h
    rw [h30]
    rfl

variable (bus takes) in
/-- The setup succeeds when all its commands do, and changes the board's rate
when the board takes the first of them. -/
theorem setup_does (log : PcitcLog) {fps : ℤ} {cmd : BitVec 8} (h : rateCmd fps = some cmd) :
    (0 ≤ (pcitcSetup bus log fps).1 ↔ SetupAnswered bus log cmd) ∧
      boardRate takes (pcitcSetup bus log fps).2 =
        if took bus takes (log ++ setupWrites) = true then some fps else boardRate takes log := by
  have hrate : boardRate takes (pcitcMailboxSend bus (log ++ setupWrites) cmd).2 =
      if took bus takes (log ++ setupWrites) = true then some fps else boardRate takes log := by
    rw [boardRate_send, rateOf_rateCmd h, boardRate_append plain_setupWrites]
    simp
  rw [← hrate]
  unfold pcitcSetup SetupAnswered
  rw [h]
  simp only
  set r1 := pcitcMailboxSend bus (log ++ setupWrites) cmd
  set r2 := pcitcMailboxSend bus r1.2 0x25
  set r3 := pcitcMailboxSend bus (r2.2 ++ [.write32 0x60 0, .write32 0x64 0]) 0x40
  set r4 := pcitcMailboxSend bus r3.2 0x4B
  -- none of the other commands sets a rate
  have h2 : boardRate takes r2.2 = boardRate takes r1.2 := boardRate_other rfl
  have h3 : boardRate takes r3.2 = boardRate takes r1.2 :=
    (boardRate_other rfl).trans ((boardRate_append (plain_words _ _ _ _) _).trans h2)
  have h4 : boardRate takes r4.2 = boardRate takes r1.2 := (boardRate_other rfl).trans h3
  have h5 : boardRate takes (pcitcMailboxSend bus r4.2 0x4D).2 = boardRate takes r1.2 :=
    (boardRate_other rfl).trans h4
  split_ifs with hn1 hn2 hn3 hn4 hn5
  · exact ⟨⟨fun h => by simp at h, fun h => absurd h.1 (not_le.mpr hn1)⟩, rfl⟩
  · exact ⟨⟨fun h => by simp at h, fun h => absurd h.2.1 (not_le.mpr hn2)⟩, h2⟩
  · exact ⟨⟨fun h => by simp at h, fun h => absurd h.2.2.1 (not_le.mpr hn3)⟩, h3⟩
  · exact ⟨⟨fun h => by simp at h, fun h => absurd h.2.2.2.1 (not_le.mpr hn4)⟩, h4⟩
  · exact ⟨⟨fun h => by simp at h, fun h => absurd h.2.2.2.2 (not_le.mpr hn5)⟩, h5⟩
  · exact ⟨⟨fun _ => ⟨not_lt.mp hn1, not_lt.mp hn2, not_lt.mp hn3, not_lt.mp hn4, not_lt.mp hn5⟩,
      fun _ => le_rfl⟩, h5⟩

/-- A frame rate the board does not have leaves everything as it is. -/
theorem setup_unsupported {log : PcitcLog} {fps : ℤ} (h : rateCmd fps = none) :
    pcitcSetup bus log fps = (-1, log ++ setupWrites) := by
  unfold pcitcSetup
  rw [h]

/-! ### Writes -/

variable {TC : Type} [Timecode TC]

/-- The driver knows the board's rate, when it remembers one. -/
def KnowsRate (takes : ℕ → Bool) (card : Pcitc) : Prop :=
  card.cfps ≠ 0 → boardRate takes card.log = some card.cfps

/-- The write leaves no setup half done while a rate is remembered: none is, or
it is the timecode's, or the board does not take the command for the new rate,
or all of the setup's commands are sent without an error. -/
def NotHalfDone (bus : PcitcBus) (takes : ℕ → Bool) (card : Pcitc) (tc : TC) : Prop :=
  card.cfps = 0 ∨ card.cfps = Timecode.fps tc ∨
    ∀ cmd, rateCmd (Timecode.fps tc) = some cmd →
      took bus takes (card.log ++ setupWrites) = false ∨ SetupAnswered bus card.log cmd

variable (bus takes) in
/-- The setup a write makes. -/
theorem write_does (card : Pcitc) (tc : TC) :
    (pcitcWrite bus card tc).2.cfps =
        (if card.cfps ≠ Timecode.fps tc ∧ 0 ≤ (pcitcSetup bus card.log (Timecode.fps tc)).1
          then Timecode.fps tc
        else card.cfps) ∧
      boardRate takes (pcitcWrite bus card tc).2.log =
        if card.cfps ≠ Timecode.fps tc then boardRate takes
          (pcitcSetup bus card.log (Timecode.fps tc)).2
        else boardRate takes card.log := by
  unfold pcitcWrite
  simp only
  rw [boardRate_other rfl, boardRate_append (plain_words _ _ _ _)]
  by_cases hne : card.cfps ≠ Timecode.fps tc
  · rw [if_pos hne, if_pos hne]
    by_cases hneg : (pcitcSetup bus card.log (Timecode.fps tc)).1 < 0
    · rw [if_pos hneg, if_neg fun h => absurd h.2 (not_le.mpr hneg)]
      exact ⟨rfl, rfl⟩
    · rw [if_neg hneg, if_pos ⟨hne, not_lt.mp hneg⟩]
      exact ⟨rfl, rfl⟩
  · rw [if_neg hne, if_neg hne, if_neg fun h => hne h.1]
    exact ⟨rfl, rfl⟩

/-- One write, from a card that knows its board's rate. -/
theorem write_knows_iff (hack : Acknowledges bus takes) {card : Pcitc}
    (hknows : KnowsRate takes card) (tc : TC) :
    KnowsRate takes (pcitcWrite bus card tc).2 ↔ NotHalfDone bus takes card tc := by
  obtain ⟨hcfps, hrate⟩ := write_does bus takes card tc
  unfold KnowsRate NotHalfDone at *
  rw [hcfps, hrate]
  by_cases heq : card.cfps = Timecode.fps tc
  · rw [if_neg fun h => h.1 heq, if_neg (not_not.mpr heq)]
    exact ⟨fun _ => .inr (.inl heq), fun _ => hknows⟩
  rw [if_pos heq]
  cases hcmd : rateCmd (Timecode.fps tc) with
  | none =>
    rw [setup_unsupported hcmd, if_neg fun h => by simp at h, boardRate_append plain_setupWrites]
    exact ⟨fun _ => .inr (.inr fun cmd h => by simp at h), fun _ => hknows⟩
  | some cmd =>
    obtain ⟨hok, hset⟩ := setup_does bus takes card.log hcmd
    rw [hset]
    by_cases hans : SetupAnswered bus card.log cmd
    · -- the board took the first command, so it has the new rate
      rw [if_pos ⟨heq, hok.mpr hans⟩, if_pos (hack _ _ hans.1)]
      refine ⟨fun _ => .inr (.inr fun cmd' h => ?_), fun _ _ => rfl⟩
      obtain rfl := Option.some.inj h
      exact .inr hans
    · rw [if_neg fun h => hans (hok.mp h.2)]
      by_cases htook : took bus takes (card.log ++ setupWrites) = true
      · rw [if_pos htook]
        constructor
        · intro h
          by_contra hnot
          have h0 : card.cfps ≠ 0 := fun h0 => hnot (.inl h0)
          exact heq (Option.some.inj (h h0)).symm
        · rintro (h0 | h | h) hne
          · exact absurd h0 hne
          · exact absurd h heq
          · rcases h cmd rfl with h | h
            · rw [htook] at h
              simp at h
            · exact absurd h hans
      · rw [if_neg htook]
        exact ⟨fun _ => .inr (.inr fun cmd' h => by
          obtain rfl := Option.some.inj h
          exact .inl (by simpa using htook)), fun _ => hknows⟩

/-- In every run of writes that leave no setup half done while a rate is
remembered, the rate remembered is the board's. -/
theorem cfps_is_rate (hack : Acknowledges bus takes) {card₀ card : Pcitc} (h0 : card₀.cfps = 0)
    (h : Runs.Reach (fun card (tc : TC) => (pcitcWrite bus card tc).2)
      (NotHalfDone bus takes) card₀ card) :
    card.cfps ≠ 0 → boardRate takes card.log = some card.cfps :=
  h.inv (I := KnowsRate takes) (fun hne => absurd h0 hne) fun _ tc hknows hok =>
    (write_knows_iff hack hknows tc).mpr hok

/-- A timecode as it goes over the wire is a timecode. -/
instance : Timecode TimecodeSmpte where
  zero := ⟨0, 0, 0⟩
  init _ := ⟨0, 0, 0⟩
  isValid stc := decide (stc.fps ≠ 0)
  inc stc := { stc with timecode := stc.timecode + 1 }
  dec stc := { stc with timecode := stc.timecode - 1 }
  setField2 := id
  clearField2 := id
  makevalidwire := id
  toRp188 stc := (stc.timecode.toNat, stc.userbits.toNat)
  fromRp188 rp := ⟨BitVec.ofNat 32 rp.1, BitVec.ofNat 32 rp.2, 30⟩
  withFps stc n := { stc with fps := n }
  fps stc := stc.fps
  frame stc := stc.timecode.toNat % stc.fps
  compare s t := decide (s.timecode = t.timecode)
  toSmpte := id
  fromSmpte := id

/-- A board that is always ready and acknowledges everything at once. -/
def readyBus : PcitcBus := ⟨fun _ _ => 0x01, fun _ _ => 0⟩

theorem acknowledges_all : Acknowledges bus fun _ => true := by
  intro log cmd h
  unfold took
  cases hat : commandAt bus log with
  | none =>
    obtain ⟨l, -, hl⟩ := send_busy (fun _ => true) hat cmd
    rw [hl] at h
    simp at h
  | some n => rfl

/-- Writes at 30 and at 25 frames to a board that takes every command. -/
theorem cfps_is_rate_ready :
    boardRate (fun _ => true) ([(⟨0x100, 0, 30⟩ : TimecodeSmpte), ⟨0x101, 0, 25⟩].foldl
      (fun card tc => (pcitcWrite readyBus card tc).2) ⟨0, []⟩).log = some 25 := by
  have hanswered :
      SetupAnswered readyBus (pcitcWrite readyBus ⟨0, []⟩ (⟨0x100, 0, 30⟩ : TimecodeSmpte)).2.log
        0x04 := by
    unfold SetupAnswered
    decide +kernel
  have hrun : Runs.Along (fun card (tc : TimecodeSmpte) => (pcitcWrite readyBus card tc).2)
      (NotHalfDone readyBus fun _ => true) ⟨0, []⟩ [⟨0x100, 0, 30⟩, ⟨0x101, 0, 25⟩] := by
    refine ⟨.inl rfl, .inr (.inr fun cmd h => .inr ?_), trivial⟩
    obtain rfl : 0x04 = cmd := Option.some.inj h
    exact hanswered
  have hrate := cfps_is_rate acknowledges_all rfl (.of_along _ hrun)
  have hcfps : ([(⟨0x100, 0, 30⟩ : TimecodeSmpte), ⟨0x101, 0, 25⟩].foldl
      (fun card tc => (pcitcWrite readyBus card tc).2) ⟨0, []⟩).cfps = 25 := by
    decide +kernel
  rw [hrate (by rw [hcfps]; decide), hcfps]

/-- A wait for what never comes. -/
theorem wait_never (stop : BitVec 8 → Bool) : ∀ (n : ℕ) {log : PcitcLog},
    (∀ k, log.length ≤ k → stop (bus.read8 k 0xFE) = false) → (pcitcWait bus stop n log).1 = false
  | 0, log, h => h log.length le_rfl
  | n + 1, log, h => by
    unfold pcitcWait
    simp only
    rw [if_neg (by rw [h log.length le_rfl]; simp)]
    refine wait_never stop n fun k hk => h k ?_
    rw [List.length_append, List.length_singleton] at hk
    omega

variable (bus) in
/-- A command to a board that stays busy. -/
theorem send_never (log : PcitcLog) (h : ∀ k, log.length ≤ k → bus.read8 k 0xFE &&& 0x04 ≠ 0)
    (cmd : BitVec 8) :
    (pcitcMailboxSend bus log cmd).1 = -1 := by
  have hbusy : commandAt bus log = none := by
    unfold commandAt
    simp only
    rw [wait_never _ mboxDelay fun k hk => decide_eq_false (h k hk)]
    rfl
  obtain ⟨l, -, hl⟩ := send_busy (fun _ => true) hbusy cmd
  rw [hl]

/-- A board that is ready for 54 accesses and busy from then on. -/
def stuckBus : PcitcBus := ⟨fun n _ => if n < 54 then 0x01 else 0x04, fun _ _ => 0⟩

/-- Set up at 30 frames, a write at 25 has its frame-rate command taken and the
next one not: the driver goes on with 30, the board with 25. -/
theorem half_setup_forgets :
    ([(⟨0x100, 0, 30⟩ : TimecodeSmpte), ⟨0x101, 0, 25⟩].foldl
      (fun card tc => (pcitcWrite stuckBus card tc).2) ⟨0, []⟩).cfps = 30 ∧
    boardRate (fun _ => true) ([(⟨0x100, 0, 30⟩ : TimecodeSmpte), ⟨0x101, 0, 25⟩].foldl
      (fun card tc => (pcitcWrite stuckBus card tc).2) ⟨0, []⟩).log = some 25 := by
  rw [List.foldl_cons, List.foldl_cons, List.foldl_nil]
  set card := (pcitcWrite stuckBus ⟨0, []⟩ (⟨0x100, 0, 30⟩ : TimecodeSmpte)).2
  have hcfps : card.cfps = 30 := by decide +kernel
  have htook : took stuckBus (fun _ => true) (card.log ++ setupWrites) = true := by decide +kernel
  have hlength : (pcitcMailboxSend stuckBus (card.log ++ setupWrites) 0x04).2.length = 54 := by
    decide +kernel
  have hstuck := send_never stuckBus (pcitcMailboxSend stuckBus (card.log ++ setupWrites) 0x04).2
    (fun k hk => by
      rw [hlength] at hk
      have hread : stuckBus.read8 k 0xFE = 0x04 := if_neg (not_lt.mpr hk)
      rw [hread]
      decide) 0x25
  obtain ⟨hok, hset⟩ := setup_does stuckBus (fun _ => true) card.log
    (show rateCmd 25 = some 0x04 from rfl)
  have hfail : ¬ 0 ≤ (pcitcSetup stuckBus card.log 25).1 := by
    rw [hok]
    rintro ⟨-, h2, -⟩
    rw [hstuck] at h2
    simp at h2
  obtain ⟨hkeep, hrate⟩ := write_does stuckBus (fun _ => true) card (⟨0x101, 0, 25⟩ : TimecodeSmpte)
  constructor
  · rw [hkeep, if_neg fun h => hfail h.2, hcfps]
  · rw [hrate, if_pos (by rw [hcfps]; decide)]
    exact hset.trans (if_pos htook)

end AjaDriver
