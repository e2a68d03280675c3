/-
# The DMA engines among processes

Any number of processes call `aja_dma` at once, a step at a time in any order; each
tries the mutexes of the three engines in turn and takes the first that is free.
What is done with an engine is whole calls one after the other (`dma_serialized`), so
an engine is started with the descriptor of the call that starts it in its registers
(`dma_starts_own`); and as long as there are never more than three calls at once none
of them is refused (`dma_never_busy`).
-/
import AjaDriver.Dma.Release
import AjaDriver.Fields
import AjaDriver.Lib.Locks
import AjaDriver.Lib.Runs
import Mathlib.Data.Finset.Dedup

namespace AjaDriver

open Function Locks

/-- The registers of an engine. -/
def DmaRegs.all (r : DmaRegs) : List Register :=
  [r.hadd, r.cadd, r.count, r.next, r.dmago, r.hadd_high, r.next_high]

/-! ### The processes -/

/-- What a call does once it has the mutex of engine `i`, the `down` included. -/
def dmaProgram (M : ModParams) (dma64 : Bool) (i : Fin 3) (c : DmaCall) : List DmaStep :=
  dmaSteps M dma64 (fun j => decide (j < i)) c

/-- Where a process is in `aja_dma`: not in it, about to try the mutex of an engine, or
on an engine with `todo` still to do; `up` is the last thing a call does. -/
inductive DmaProc
  | out
  | looking (c : DmaCall) (i : ℕ)
  | holding (c : DmaCall) (i : Fin 3) (todo : List DmaStep)

/-- A step of a process, with its call and the engine it was on. -/
structure DmaEntry where
  proc : ℕ
  call : DmaCall
  engine : Fin 3
  step : DmaStep

/-- The processes, the counts of the three mutexes, and what was done with the engines
so far; `inside` are the processes in `aja_dma`, `refused` those it returned `-EBUSY`
to. -/
structure DmaSys where
  proc : ℕ → DmaProc
  mutex : Fin 3 → ℤ
  log : List DmaEntry
  inside : List ℕ
  refused : List ℕ

/-- The mutexes are initialized. -/
def DmaSys.init : DmaSys := ⟨fun _ => .out, fun _ => 1, [], [], []⟩

/-- A process calls `aja_dma`, or goes on by one step. -/
inductive DmaEvent
  | call (p : ℕ) (c : DmaCall)
  | go (p : ℕ)

/-- One step of process `p`. -/
def DmaSys.go (M : ModParams) (dma64 : Bool) (s : DmaSys) (p : ℕ) : DmaSys :=
  match s.proc p with
  | .out => s
  | .looking c i =>
    if h : i < 3 then
      -- `down_trylock`
      if 0 < s.mutex ⟨i, h⟩ then
        { s with
          proc := update s.proc p (.holding c ⟨i, h⟩ (dmaProgram M dma64 ⟨i, h⟩ c).tail)
          mutex := update s.mutex ⟨i, h⟩ (s.mutex ⟨i, h⟩ - 1)
          log := s.log ++ [⟨p, c, ⟨i, h⟩, .down ⟨i, h⟩⟩] }
      else { s with proc := update s.proc p (.looking c (i + 1)) }
    else { s with proc := update s.proc p .out, inside := s.inside.erase p, refused := s.refused ++ [p] }
  | .holding _ _ [] => s
  | .holding c i (a :: todo) =>
    { s with
      proc := update s.proc p (if todo = [] then .out else .holding c i todo)
      mutex := if a = .up i then update s.mutex i (s.mutex i + 1) else s.mutex
      log := s.log ++ [⟨p, c, i, a⟩]
      inside := if todo = [] then s.inside.erase p else s.inside }

def DmaSys.step (M : ModParams) (dma64 : Bool) (s : DmaSys) : DmaEvent → DmaSys
  | .call p c => { s with proc := update s.proc p (.looking c 0), inside := p :: s.inside }
  | .go p => s.go M dma64 p

/-- A process makes a call when it is in none. -/
def DmaOk (s : DmaSys) : DmaEvent → Prop
  | .call p _ => p ∉ s.inside
  | .go _ => True

instance (s : DmaSys) : ∀ e, Decidable (DmaOk s e)
  | .call p _ => inferInstanceAs (Decidable (p ∉ s.inside))
  | .go _ => instDecidableTrue

/-- What was done with engine `i`, with the process and its call. -/
def engineLog (i : Fin 3) (log : List DmaEntry) : List ((ℕ × DmaCall) × DmaStep) :=
  log.filterMap fun e => if e.engine = i then some ((e.proc, e.call), e.step) else none

/-! ### A call's steps -/

theorem dmaEngine_before (i : Fin 3) : dmaEngine (fun j => decide (j < i)) = some i := by
  revert i
  decide

/-- A step between `down` and `up`, none of whose writes is to another engine. -/
def DmaStep.Within (i : Fin 3) : DmaStep → Prop
  | .down _ | .up _ => False
  | .act (.prset r _) => r ∈ (dmaRegs i).all
  | _ => True

/-- Before the transfer a call pins pages and maps the scatterlist. -/
theorem init_kind (M : ModParams) (k : Kernel) (data size : ℕ) :
    ∀ a ∈ dmaInitSteps M k data size, a = .mapSg ∨ ∃ page, a = .pin page := by
  have hpages : ∀ count, ∀ a ∈ getpagesSteps M k data count, a = .mapSg ∨
      ∃ page, a = .pin page := by
    intro count a ha
    unfold getpagesSteps at ha
    split_ifs at ha
    · exact absurd ha List.not_mem_nil
    · obtain ⟨n, -, rfl⟩ := List.mem_map.mp ha
      exact .inr ⟨_, rfl⟩
  have hsg : ∀ pages count, ∀ a ∈ mapsgSteps k pages data size count, a = .mapSg ∨
      ∃ page, a = .pin page := by
    intro pages count a ha
    unfold mapsgSteps at ha
    split_ifs at ha
    · exact absurd ha List.not_mem_nil
    · exact .inl (List.mem_singleton.mp ha)
  intro a ha
  unfold dmaInitSteps at ha
  simp only at ha
  split_ifs at ha
  any_goals exact absurd ha List.not_mem_nil
  rcases List.mem_append.mp ha with ha | ha
  · exact hpages _ a ha
  · split at ha
    · exact absurd ha List.not_mem_nil
    · exact hsg _ _ a ha

/-- After it, it gives the buffer back. -/
theorem cleanup_kind (k : Kernel) (d : Dma) : ∀ a ∈ dmaCleanup k d, a.GivesBack = true := by
  intro a ha
  unfold dmaCleanup at ha
  rcases List.mem_cons.mp ha with rfl | ha
  · rfl
  · obtain ⟨n, -, ha⟩ := List.mem_flatMap.mp ha
    rcases List.mem_append.mp ha with ha | ha
    · split_ifs at ha
      · obtain rfl := List.mem_singleton.mp ha
        rfl
      · exact absurd ha List.not_mem_nil
    · obtain rfl := List.mem_singleton.mp ha
      rfl

/-- The writes of a transfer are to the engine's registers. -/
theorem within_transfer (k : Kernel) (i : Fin 3) (dma64 : Bool) (d : Dma) (l : SgList) (w : ℤ) :
    ∀ a ∈ (dmaTransfer k (dmaRegs i) dma64 d l w).2, DmaStep.Within i (.act a) := by
  have hclean : ∀ a ∈ dmaCleanup k d, DmaStep.Within i (.act a) := by
    intro a ha
    cases a with
    | prset r v => exact absurd (cleanup_kind k d _ ha) nofun
    | _ => trivial
  have hload : ∀ a ∈ dmaLoad (dmaRegs i) dma64 l, DmaStep.Within i (.act a) := by
    unfold dmaLoad
    refine List.forall_mem_append.mpr ⟨by simp [DmaStep.Within, DmaRegs.all], ?_⟩
    cases dma64 <;> simp [DmaStep.Within, DmaRegs.all]
  have hstart : ∀ a ∈ dmaStart (dmaRegs i) dma64 l w, DmaStep.Within i (.act a) :=
    List.forall_mem_append.mpr ⟨hload, by simp [DmaStep.Within, DmaRegs.all]⟩
  intro a ha
  unfold dmaTransfer at ha
  split_ifs at ha
  · rcases List.mem_append.mp ha with ha | ha
    · exact hstart a ha
    · rcases List.mem_cons.mp ha with rfl | ha
      · simp [DmaStep.Within, DmaRegs.all]
      · exact hclean a ha
  · rcases List.mem_append.mp ha with ha | ha
    · exact hstart a ha
    · exact hclean a ha

/-- A call takes its mutex first and gives it back last. -/
theorem dmaProgram_shape (M : ModParams) (dma64 : Bool) (i : Fin 3) (c : DmaCall) :
    ∃ body, dmaProgram M dma64 i c = .down i :: (body ++ [.up i]) ∧ ∀ a ∈ body, a.Within i := by
  unfold dmaProgram dmaSteps
  rw [dmaEngine_before]
  refine ⟨dmaInitSteps M c.k c.info.uadd.toNat c.info.len.toNat ++
    (dma M c.k dma64 _ c.info c.w).2.map .act,
    by rw [List.append_assoc], fun a ha => ?_⟩
  rcases List.mem_append.mp ha with ha | ha
  · rcases init_kind M c.k _ _ a ha with rfl | ⟨page, rfl⟩ <;> trivial
  · obtain ⟨b, hb, rfl⟩ := List.mem_map.mp ha
    obtain ⟨d, hd⟩ := dma_started (dmaEngine_before i) hb
    rw [hd] at hb
    exact within_transfer c.k i dma64 d _ c.w b hb

/-! ### Who is on which engine -/

theorem engineLog_concat (j : Fin 3) (log : List DmaEntry) (e : DmaEntry) :
    engineLog j (log ++ [e]) = engineLog j log ++ if e.engine = j then [((e.proc, e.call), e.step)]
      else [] := by
  unfold engineLog
  rw [List.filterMap_append, List.filterMap_cons]
  split_ifs <;> rfl

/-- The process on an engine, with its call, and what it is still to do. -/
abbrev Holder := Option ((ℕ × DmaCall) × List DmaStep)

/-- A process changes what it does on an engine that nobody else is on. -/
theorem holds_update {proc : ℕ → DmaProc} {holder : Fin 3 → Holder} {p : ℕ} {i : Fin 3}
    {x : DmaProc} {y : Option (DmaCall × List DmaStep)}
    (h : ∀ p c i todo, proc p = .holding c i todo ↔ holder i = some ((p, c), todo))
    (hp : ∀ c j todo, proc p = .holding c j todo → j = i)
    (hi : ∀ q c todo, holder i = some ((q, c), todo) → q = p)
    (hxy : ∀ c j todo, x = .holding c j todo ↔ j = i ∧ y = some (c, todo)) (q : ℕ) (c : DmaCall)
    (j : Fin 3) (todo : List DmaStep) :
    update proc p x q = .holding c j todo ↔
      update holder i (y.map fun e => ((p, e.1), e.2)) j = some ((q, c), todo) := by
  by_cases hq : q = p <;> by_cases hj : j = i
  · subst hq hj
    rw [update_self, update_self, hxy]
    cases y <;> simp [Prod.ext_iff]
  · subst hq
    rw [update_self, update_of_ne hj, hxy, ← h]
    exact iff_of_false (fun he => hj he.1) fun he => hj (hp c j todo he)
  · subst hj
    rw [update_of_ne hq, update_self, h]
    refine iff_of_false (fun he => hq (hi q c todo he)) fun he => hq ?_
    cases y with
    | none => cases he
    | some e =>
      cases he
      rfl
  · rw [update_of_ne hq, update_of_ne hj]
    exact h q c j todo

/-- The place of a process in its scan of the engines. -/
def DmaProc.place : DmaProc → Place
  | out => .out
  | looking _ i => .looking i
  | holding _ i _ => .holding i

theorem DmaProc.place_holding {x : DmaProc} {n : ℕ} (h : x.place = .holding n) :
    ∃ (c : DmaCall) (i : Fin 3) (todo : List DmaStep), x = .holding c i todo ∧ (i : ℕ) = n := by
  cases x with
  | out => cases h
  | looking c i => cases h
  | holding c i todo =>
    cases h
    exact ⟨c, i, todo, rfl, rfl⟩

/-- The places of all processes. -/
def DmaSys.place (s : DmaSys) : ℕ → Place := DmaProc.place ∘ s.proc

/-- Each engine is held by the process that is on it, which does its call's steps, and
its mutex is free if there is none. -/
structure DmaSys.Inv (M : ModParams) (dma64 : Bool) (s : DmaSys)
    (holder : Fin 3 → Holder) : Prop where
  sessions : ∀ i, Sessions (fun t prog => prog = dmaProgram M dma64 i t.2)
    (engineLog i s.log) (holder i)
  mutex : ∀ i, s.mutex i = if (holder i).isSome then 0 else 1
  holds : ∀ p c i todo, s.proc p = .holding c i todo ↔ holder i = some ((p, c), todo)
  ends : ∀ i t todo, holder i = some (t, todo) → ∃ body, todo = body ++ [.up i] ∧
    ∀ a ∈ body, a.Within i
  inside : ∀ p, p ∈ s.inside ↔ s.proc p ≠ .out
  nodup : s.inside.Nodup

namespace DmaSys

variable {M : ModParams} {dma64 : Bool} {s : DmaSys} {holder : Fin 3 → Holder}

theorem init_inv (M : ModParams) (dma64 : Bool) : init.Inv M dma64 fun _ => none where
  sessions _ := .free
  mutex _ := rfl
  holds _ _ _ _ := ⟨nofun, nofun⟩
  ends _ _ _ h := by cases h
  inside _ := ⟨nofun, fun h => absurd rfl h⟩
  nodup := .nil

/-- A process that is on no engine goes somewhere off the engines. -/
theorem Inv.away (h : s.Inv M dma64 holder) {p : ℕ}
    (hp : ∀ c i todo, s.proc p ≠ .holding c i todo) {x : DmaProc}
    (hx : ∀ c i todo, x ≠ .holding c i todo) {inside refused : List ℕ}
    (hinside : ∀ q, q ∈ inside ↔ update s.proc p x q ≠ .out) (hnodup : inside.Nodup) :
    ({ s with proc := update s.proc p x, inside := inside, refused := refused } : DmaSys).Inv M
      dma64 holder where
  sessions := h.sessions
  mutex := h.mutex
  holds q c i todo := by
    show update s.proc p x q = _ ↔ _
    by_cases hq : q = p
    · subst hq
      rw [update_self, ← h.holds]
      exact iff_of_false (hx c i todo) (hp c i todo)
    · rw [update_of_ne hq]
      exact h.holds q c i todo
  ends := h.ends
  inside := hinside
  nodup := hnodup

theorem Inv.call (h : s.Inv M dma64 holder) {p : ℕ} (hp : p ∉ s.inside) (c : DmaCall) :
    (s.step M dma64 (.call p c)).Inv M dma64 holder := by
  have hout : s.proc p = .out := by
    by_contra hne
    exact hp ((h.inside p).mpr hne)
  refine h.away (fun c i todo => ?_) (fun _ _ _ hx => by cases hx) (fun q => ?_)
    (List.nodup_cons.mpr ⟨hp, h.nodup⟩)
  · rw [hout]
    nofun
  · by_cases hq : q = p
    · subst hq
      rw [update_self]
      exact iff_of_true (List.mem_cons_self ..) nofun
    · rw [update_of_ne hq, ← h.inside q, List.mem_cons]
      exact or_iff_right hq

/-- A process takes the mutex of a free engine. -/
theorem Inv.take (h : s.Inv M dma64 holder) {p : ℕ} {c : DmaCall} {n : ℕ}
    (hp : s.proc p = .looking c n) {i : Fin 3} (hfree : holder i = none) :
    ({ s with
      proc := update s.proc p (.holding c i (dmaProgram M dma64 i c).tail)
      mutex := update s.mutex i (s.mutex i - 1)
      log := s.log ++ [⟨p, c, i, .down i⟩] } : DmaSys).Inv M dma64
        (update holder i (some ((p, c), (dmaProgram M dma64 i c).tail))) := by
  obtain ⟨body, hprog, hbody⟩ := dmaProgram_shape M dma64 i c
  refine ⟨fun j => ?_, fun j => ?_, fun q c' j todo => ?_, fun j t todo hj => ?_,
    fun q => ?_, h.nodup⟩
  · show Sessions _ (engineLog j (s.log ++ [⟨p, c, i, .down i⟩])) _
    rw [engineLog_concat]
    by_cases hj : j = i
    · subst hj
      rw [update_self, if_pos rfl]
      have htake := Sessions.take (t := (p, c)) (hfree ▸ h.sessions j) rfl
      rw [hprog] at htake ⊢
      exact htake.go
    · rw [update_of_ne hj, if_neg (Ne.symm hj), List.append_nil]
      exact h.sessions j
  · show update s.mutex i (s.mutex i - 1) j = _
    by_cases hj : j = i
    · subst hj
      rw [update_self, update_self, h.mutex, hfree]
      rfl
    · rw [update_of_ne hj, update_of_ne hj]
      exact h.mutex j
  · refine holds_update (y := some (c, (dmaProgram M dma64 i c).tail)) h.holds ?_ ?_ ?_ q c' j todo
    · rw [hp]
      nofun
    · rw [hfree]
      nofun
    · intro c' j todo
      simp only [DmaProc.holding.injEq, Option.some.injEq, Prod.mk.injEq]
      tauto
  · by_cases hji : j = i
    · subst hji
      rw [update_self] at hj
      cases hj
      rw [hprog]
      exact ⟨body, rfl, hbody⟩
    · rw [update_of_ne hji] at hj
      exact h.ends j t todo hj
  · show q ∈ s.inside ↔ update s.proc p _ q ≠ .out
    by_cases hq : q = p
    · subst hq
      rw [update_self, h.inside, hp]
      exact iff_of_true nofun nofun
    · rw [update_of_ne hq]
      exact h.inside q

/-! A process does its next step on the engine it is on. What becomes of each part of
the invariant: -/

section Work

variable {p : ℕ} {c : DmaCall} {i : Fin 3} {a : DmaStep} {todo : List DmaStep}

/-- The last step is `up`, and no other one is. -/
theorem Inv.last_iff (h : s.Inv M dma64 holder) (hp : s.proc p = .holding c i (a :: todo)) :
    a = .up i ↔ todo = [] := by
  obtain ⟨body, hbody, hin⟩ := h.ends i _ _ ((h.holds p c i (a :: todo)).mp hp)
  cases body with
  | nil =>
    obtain ⟨rfl, rfl⟩ := List.cons.inj hbody
    exact iff_of_true rfl rfl
  | cons b body =>
    obtain ⟨rfl, rfl⟩ := List.cons.inj hbody
    refine iff_of_false (fun ha => ?_) (by simp)
    have hfalse := hin a (List.mem_cons_self ..)
    rw [ha] at hfalse
    exact hfalse

theorem Inv.go_holding (h : s.Inv M dma64 holder) (hp : s.proc p = .holding c i (a :: todo)) :
    s.go M dma64 p =
      { s with
        proc := update s.proc p (if todo = [] then .out else .holding c i todo)
        mutex := if todo = [] then update s.mutex i (s.mutex i + 1) else s.mutex
        log := s.log ++ [⟨p, c, i, a⟩]
        inside := if todo = [] then s.inside.erase p else s.inside } := by
  unfold go
  rw [hp]
  simp only [h.last_iff hp]

/-- The process that is on the engine after the step. -/
def heldAfter (holder : Fin 3 → Holder) (p : ℕ) (c : DmaCall) (i : Fin 3) (todo : List DmaStep) :
    Fin 3 → Holder :=
  update holder i (if todo = [] then none else some ((p, c), todo))

theorem Inv.work_sessions (h : s.Inv M dma64 holder) (hp : s.proc p = .holding c i (a :: todo))
    (j : Fin 3) :
    Sessions (fun t prog => prog = dmaProgram M dma64 j t.2) (engineLog j (s.log ++ [⟨p, c, i, a⟩]))
      (heldAfter holder p c i todo j) := by
  have hgo := ((h.holds p c i (a :: todo)).mp hp ▸ h.sessions i).go
  unfold heldAfter
  rw [engineLog_concat]
  by_cases hj : j = i
  · subst hj
    rw [update_self, if_pos rfl]
    split_ifs with htodo
    · rw [htodo] at hgo
      exact hgo.drop
    · exact hgo
  · rw [update_of_ne hj, if_neg (Ne.symm hj), List.append_nil]
    exact h.sessions j

theorem Inv.work_mutex (h : s.Inv M dma64 holder) (hp : s.proc p = .holding c i (a :: todo))
    (j : Fin 3) :
    (if todo = [] then update s.mutex i (s.mutex i + 1) else s.mutex) j =
      if (heldAfter holder p c i todo j).isSome then 0 else 1 := by
  have htaken : s.mutex i = 0 := by
    rw [h.mutex, (h.holds p c i _).mp hp]
    rfl
  unfold heldAfter
  by_cases hj : j = i
  · subst hj
    rw [update_self]
    split_ifs with htodo hsome hsome
    · cases hsome
    · rw [update_self, htaken]
      rfl
    · exact htaken
    · exact absurd rfl hsome
  · rw [update_of_ne hj, ← h.mutex]
    split_ifs
    · exact update_of_ne hj _ _
    · rfl

theorem Inv.work_holds (h : s.Inv M dma64 holder) (hp : s.proc p = .holding c i (a :: todo))
    (q : ℕ) (c' : DmaCall) (j : Fin 3) (todo' : List DmaStep) :
    update s.proc p (if todo = [] then .out else .holding c i todo) q = .holding c' j todo' ↔
      heldAfter holder p c i todo j = some ((q, c'), todo') := by
  have hheld := (h.holds p c i (a :: todo)).mp hp
  have hmine : ∀ q c' todo', holder i = some ((q, c'), todo') → q = p := by
    intro q c' todo' he
    rw [hheld] at he
    cases he
    rfl
  have hone : ∀ c' j todo', s.proc p = .holding c' j todo' → j = i := by
    intro c' j todo' he
    rw [hp] at he
    cases he
    rfl
  unfold heldAfter
  by_cases htodo : todo = []
  · rw [if_pos htodo, if_pos htodo]
    refine holds_update (y := none) h.holds hone hmine (fun c' j todo' => ?_) ..
    exact iff_of_false nofun fun he => by cases he.2
  · rw [if_neg htodo, if_neg htodo]
    refine holds_update (y := some (c, todo)) h.holds hone hmine (fun c' j todo' => ?_) ..
    simp only [DmaProc.holding.injEq, Option.some.injEq, Prod.mk.injEq]
    tauto

theorem Inv.work_ends (h : s.Inv M dma64 holder) (hp : s.proc p = .holding c i (a :: todo))
    {j : Fin 3} {t : ℕ × DmaCall} {todo' : List DmaStep}
    (hj : heldAfter holder p c i todo j = some (t, todo')) :
    ∃ body, todo' = body ++ [.up j] ∧ ∀ x ∈ body, x.Within j := by
  obtain ⟨body, hbody, hin⟩ := h.ends i _ _ ((h.holds p c i (a :: todo)).mp hp)
  unfold heldAfter at hj
  by_cases hji : j = i
  · subst hji
    rw [update_self] at hj
    split_ifs at hj with htodo
    cases hj
    cases body with
    | nil => exact absurd (List.cons.inj hbody).2 htodo
    | cons b body =>
      exact ⟨body, (List.cons.inj hbody).2, fun x hx => hin x (List.mem_cons_of_mem _ hx)⟩
  · rw [update_of_ne hji] at hj
    exact h.ends j t todo' hj

theorem Inv.work_inside (h : s.Inv M dma64 holder) (hp : s.proc p = .holding c i (a :: todo))
    (q : ℕ) :
    q ∈ (if todo = [] then s.inside.erase p else s.inside) ↔
      update s.proc p (if todo = [] then .out else .holding c i todo) q ≠ .out := by
  by_cases hq : q = p
  · subst hq
    rw [update_self]
    split_ifs
    · exact iff_of_false (fun hmem => (h.nodup.mem_erase_iff.mp hmem).1 rfl) fun he => he rfl
    · rw [h.inside, hp]
      exact iff_of_true nofun nofun
  · rw [update_of_ne hq, ← h.inside]
    split_ifs
    · rw [h.nodup.mem_erase_iff]
      exact and_iff_right hq
    · rfl

theorem Inv.work (h : s.Inv M dma64 holder) (hp : s.proc p = .holding c i (a :: todo)) :
    (s.go M dma64 p).Inv M dma64 (heldAfter holder p c i todo) := by
  rw [h.go_holding hp]
  refine ⟨h.work_sessions hp, h.work_mutex hp, h.work_holds hp, fun _ _ _ hj => h.work_ends hp hj,
    h.work_inside hp, ?_⟩
  show (if todo = [] then s.inside.erase p else s.inside).Nodup
  split_ifs
  · exact h.nodup.erase p
  · exact h.nodup

end Work

/-- What one step does to the places of the processes: nothing, or one process moves,
and it is refused only behind the last engine. -/
def Moved (s t : DmaSys) : Prop :=
  (t.place = s.place ∧ t.refused = s.refused) ∨
    ∃ p x, Move s.place p x ∧ t.place = update s.place p x ∧
      (t.refused = s.refused ∨ ∃ n, 3 ≤ n ∧ s.place p = .looking n)

/-- What one step keeps. -/
structure Goes (M : ModParams) (dma64 : Bool) (s t : DmaSys) : Prop where
  inv : ∃ holder, t.Inv M dma64 holder
  moved : Moved s t
  length_le : t.inside.length ≤ s.inside.length

variable {p : ℕ} {c : DmaCall} {n : ℕ}

/-- The process finds an engine free. -/
theorem Inv.go_take (h : s.Inv M dma64 holder) (hp : s.proc p = .looking c n) (hn : n < 3)
    (hmutex : 0 < s.mutex ⟨n, hn⟩) :
    Goes M dma64 s (s.go M dma64 p) := by
  have hfree : holder ⟨n, hn⟩ = none := by
    cases hh : holder ⟨n, hn⟩ with
    | none => rfl
    | some t =>
      rw [h.mutex, hh] at hmutex
      exact absurd hmutex (lt_irrefl (0 : ℤ))
  have hgo : s.go M dma64 p =
      { s with
        proc := update s.proc p (.holding c ⟨n, hn⟩ (dmaProgram M dma64 ⟨n, hn⟩ c).tail)
        mutex := update s.mutex ⟨n, hn⟩ (s.mutex ⟨n, hn⟩ - 1)
        log := s.log ++ [⟨p, c, ⟨n, hn⟩, .down ⟨n, hn⟩⟩] } := by
    unfold DmaSys.go
    rw [hp]
    simp only [dif_pos hn, if_pos hmutex]
  rw [hgo]
  refine ⟨⟨_, h.take hp hfree⟩,
    .inr ⟨p, .holding n, .take (congrArg DmaProc.place hp) fun q hq => ?_, comp_update ..,
      .inl rfl⟩, le_rfl⟩
  obtain ⟨c', i, todo, hq', rfl⟩ := DmaProc.place_holding hq
  rw [(h.holds q c' i todo).mp hq'] at hfree
  cases hfree

/-- A process that is looking for an engine is on none. -/
theorem not_holding (hp : s.proc p = .looking c n) (c' : DmaCall) (i : Fin 3)
    (todo : List DmaStep) :
    s.proc p ≠ .holding c' i todo := by
  rw [hp]
  nofun

/-- The process finds an engine taken, and goes on to the next. -/
theorem Inv.go_skip (h : s.Inv M dma64 holder) (hp : s.proc p = .looking c n) (hn : n < 3)
    (hmutex : ¬ 0 < s.mutex ⟨n, hn⟩) :
    Goes M dma64 s (s.go M dma64 p) := by
  have hgo : s.go M dma64 p = { s with proc := update s.proc p (.looking c (n + 1)) } := by
    unfold DmaSys.go
    rw [hp]
    simp only [dif_pos hn, if_neg hmutex]
  obtain ⟨⟨⟨q, c'⟩, todo⟩, hq⟩ : ∃ t, holder ⟨n, hn⟩ = some t := by
    cases hh : holder ⟨n, hn⟩ with
    | none =>
      rw [h.mutex, hh] at hmutex
      exact absurd (by decide) hmutex
    | some t => exact ⟨t, rfl⟩
  have hheld : s.place q = .holding n := congrArg DmaProc.place ((h.holds q c' _ todo).mpr hq)
  rw [hgo]
  refine ⟨⟨holder, h.away (not_holding hp) (fun _ _ _ hx => by cases hx) (fun r => ?_) h.nodup⟩,
    .inr ⟨p, .looking (n + 1), .skip (congrArg DmaProc.place hp) hheld, comp_update .., .inl rfl⟩, le_rfl⟩
  by_cases hr : r = p
  · subst hr
    rw [update_self, h.inside, hp]
    exact iff_of_true nofun nofun
  · rw [update_of_ne hr]
    exact h.inside r

/-- The process has found all engines taken. -/
theorem Inv.go_refuse (h : s.Inv M dma64 holder) (hp : s.proc p = .looking c n) (hn : ¬ n < 3) :
    Goes M dma64 s (s.go M dma64 p) := by
  have hgo : s.go M dma64 p =
      { s with proc := update s.proc p .out, inside := s.inside.erase p, refused := s.refused ++ [p] } := by
    unfold DmaSys.go
    rw [hp]
    simp only [dif_neg hn]
  rw [hgo]
  refine ⟨⟨holder, h.away (not_holding hp) (fun _ _ _ hx => by cases hx) (fun r => ?_)
    (h.nodup.erase p)⟩,
    .inr ⟨p, .out, .leave, comp_update .., .inr ⟨n, not_lt.mp hn, congrArg DmaProc.place hp⟩⟩,
    List.length_erase_le⟩
  rw [h.nodup.mem_erase_iff]
  by_cases hr : r = p
  · subst hr
    rw [update_self]
    exact iff_of_false (fun he => he.1 rfl) fun he => he rfl
  · rw [update_of_ne hr, h.inside]
    exact and_iff_right hr

/-- The process does its next step on its engine, and leaves with the last. -/
theorem Inv.go_work (h : s.Inv M dma64 holder) {i : Fin 3} {a : DmaStep} {todo : List DmaStep}
    (hp : s.proc p = .holding c i (a :: todo)) : Goes M dma64 s (s.go M dma64 p) := by
  have hplace :
      (s.go M dma64 p).place = update s.place p (if todo = [] then .out else .holding i) := by
    rw [h.go_holding hp]
    show DmaProc.place ∘ update s.proc p (if todo = [] then .out else .holding c i todo) = _
    rw [comp_update]
    split_ifs <;> rfl
  have hrefused : (s.go M dma64 p).refused = s.refused := by rw [h.go_holding hp]
  refine ⟨⟨_, h.work hp⟩, ?_, ?_⟩
  · by_cases htodo : todo = []
    · rw [if_pos htodo] at hplace
      exact .inr ⟨p, .out, .leave, hplace, .inl hrefused⟩
    · rw [if_neg htodo] at hplace
      refine .inl ⟨?_, hrefused⟩
      rw [hplace]
      exact update_eq_self_iff.mpr (congrArg DmaProc.place hp).symm
  · rw [h.go_holding hp]
    show (if todo = [] then s.inside.erase p else s.inside).length ≤ _
    split_ifs
    · exact List.length_erase_le
    · exact le_rfl

theorem Inv.go (h : s.Inv M dma64 holder) (p : ℕ) : Goes M dma64 s (s.go M dma64 p) := by
  cases hp : s.proc p with
  | out =>
    have hgo : s.go M dma64 p = s := by
      unfold DmaSys.go
      rw [hp]
    rw [hgo]
    exact ⟨⟨holder, h⟩, .inl ⟨rfl, rfl⟩, le_rfl⟩
  | looking c n =>
    by_cases hn : n < 3
    · by_cases hmutex : 0 < s.mutex ⟨n, hn⟩
      · exact h.go_take hp hn hmutex
      · exact h.go_skip hp hn hmutex
    · exact h.go_refuse hp hn
  | holding c i todo =>
    cases todo with
    | nil =>
      obtain ⟨body, hbody, -⟩ := h.ends i _ _ ((h.holds p c i []).mp hp)
      exact absurd hbody (by simp)
    | cons a todo => exact h.go_work hp

theorem Inv.step (h : s.Inv M dma64 holder) {e : DmaEvent} (he : DmaOk s e) :
    ∃ holder', (s.step M dma64 e).Inv M dma64 holder' := by
  cases e with
  | call p c => exact ⟨holder, h.call he c⟩
  | go p => exact (h.go p).inv

/-- In every state of a run some processes hold the engines. -/
theorem reach_inv (hr : Runs.Reach (DmaSys.step M dma64) DmaOk init s) :
    ∃ holder, s.Inv M dma64 holder :=
  hr.inv (I := fun s => ∃ holder, s.Inv M dma64 holder) ⟨_, init_inv M dma64⟩ fun _ _ ⟨_, h⟩
    he => h.step he

end DmaSys

/-! ### Whole calls -/

/-- The steps of a call on an engine. -/
def callSteps (M : ModParams) (dma64 : Bool) (i : Fin 3) (t : ℕ × DmaCall) :
    List ((ℕ × DmaCall) × DmaStep) :=
  steps (t, dmaProgram M dma64 i t.2)

/-- What a process that is on engine `i` now has done of its call, if there is one. -/
def DmaSys.Under (M : ModParams) (dma64 : Bool) (s : DmaSys) (i : Fin 3)
    (l : List ((ℕ × DmaCall) × DmaStep)) : Prop :=
  (l = [] ∧ ∀ p c todo, s.proc p ≠ .holding c i todo) ∨
    ∃ p c part todo, s.proc p = .holding c i todo ∧ part ++ todo = dmaProgram M dma64 i c ∧
      l = steps ((p, c), part)

/-- However the processes take turns: what was done with an engine so far is whole
calls, one after the other, and then what the one process on it has done of its own. -/
theorem dma_serialized {M : ModParams} {dma64 : Bool} {s : DmaSys}
    (hr : Runs.Reach (DmaSys.step M dma64) DmaOk DmaSys.init s) (i : Fin 3) :
    ∃ (calls : List (ℕ × DmaCall)) (l : List ((ℕ × DmaCall) × DmaStep)),
      engineLog i s.log = calls.flatMap (callSteps M dma64 i) ++ l ∧ s.Under M dma64 i l := by
  obtain ⟨holder, h⟩ := DmaSys.reach_inv hr
  obtain ⟨done, hdone, hmade⟩ := (h.sessions i).whole
  have hcalls : (done.map Prod.fst).flatMap (callSteps M dma64 i) = done.flatMap steps := by
    rw [List.flatMap_map]
    refine List.flatMap_congr fun e he => ?_
    show steps (e.1, dmaProgram M dma64 i e.1.2) = steps e
    rw [← hdone e he]
  refine ⟨done.map Prod.fst, ?_⟩
  rw [hcalls]
  cases hholder : holder i with
  | none =>
    rw [hholder] at hmade
    refine ⟨[], by rw [List.append_nil]; exact hmade, .inl ⟨rfl, fun p c todo hp => ?_⟩⟩
    rw [(h.holds p c i todo).mp hp] at hholder
    cases hholder
  | some t =>
    obtain ⟨⟨p, c⟩, todo⟩ := t
    rw [hholder] at hmade
    obtain ⟨part, hpart, hlog⟩ := hmade
    exact ⟨_, hlog, .inr ⟨p, c, part, todo, (h.holds p c i todo).mpr hholder, hpart, rfl⟩⟩

/-- A transfer of 8 bytes to the card's address `cadd`, on a kernel that pins the page and
maps it as it is. -/
def eightBytes (cadd : BitVec 32) : DmaCall :=
  ⟨⟨true, fun n => n, fun l => l.map fun e => ⟨e.page * pageSize + e.off, e.len⟩, 0,
    fun _ => false⟩,
    ⟨cadd, 8, 0, 0x10000⟩, 1⟩

/-- Three processes: two take engines 0 and 1, the second is done and a third is in the
middle of its call on engine 1, while the first waits. -/
def threeCalls : List DmaEvent :=
  [.call 0 (eightBytes 0x100), .call 1 (eightBytes 0x200)] ++ List.replicate 4 (.go 0) ++
    List.replicate 13 (.go 1) ++ [.call 2 (eightBytes 0x300)] ++ List.replicate 8 (.go 2)

theorem dma_serialized_three :
    let s := threeCalls.foldl (DmaSys.step {} false) DmaSys.init
    ∃ (calls : List (ℕ × DmaCall)) (l : List ((ℕ × DmaCall) × DmaStep)),
      engineLog 1 s.log = calls.flatMap (callSteps {} false 1) ++ l ∧ s.Under {} false 1 l :=
  dma_serialized (.of_along threeCalls (by decide +kernel)) 1

/-! ### Its own descriptor -/

/-- What a step writes to a register. -/
def DmaStep.write (r : Register) : DmaStep → Option (BitVec 32)
  | .act (.prset preg value) => if preg = r then some value else none
  | _ => none

/-- What a step does to the card's registers. -/
def DmaStep.store (card : RegSpace) : DmaStep → RegSpace
  | .act (.prset preg value) => (ajaPrset card preg value).2.1
  | _ => card

/-- The card's registers, `card` before the first call, after what was done so far. -/
def DmaSys.regs (card : RegSpace) (s : DmaSys) : RegSpace :=
  (s.log.map DmaEntry.step).foldl DmaStep.store card

/-- What `aja_prget` reads of a register then. -/
def DmaSys.reg (card : RegSpace) (s : DmaSys) (r : Register) : BitVec 32 :=
  (ajaPrget (s.regs card) r).1

/-- The registers of engine `i` show the descriptor `l`. -/
def DmaSys.Shows (dma64 : Bool) (card : RegSpace) (s : DmaSys) (i : Fin 3) (l : SgList) : Prop :=
  let r := dmaRegs i
  s.reg card r.hadd = l.hadd ∧ s.reg card r.cadd = l.cadd ∧ s.reg card r.count = l.count ∧
    s.reg card r.next = l.next ∧
    (dma64 = true → s.reg card r.hadd_high = l.hadd_high ∧ s.reg card r.next_high = l.next_high)

theorem dmaRegs_disjoint : ∀ i j : Fin 3, i ≠ j → ∀ r ∈ (dmaRegs i).all, r ∉ (dmaRegs j).all := by
  decide

/-- A call's steps write registers of its own engine only. -/
theorem write_other {M : ModParams} {dma64 : Bool} {i j : Fin 3} (hij : i ≠ j) {r : Register}
    (hr : r ∈ (dmaRegs i).all) {c : DmaCall} {a : DmaStep} (ha : a ∈ dmaProgram M dma64 j c) :
    a.write r = none := by
  obtain ⟨body, hprog, hbody⟩ := dmaProgram_shape M dma64 j c
  rw [hprog] at ha
  rcases List.mem_cons.mp ha with rfl | ha
  · rfl
  · rcases List.mem_append.mp ha with ha | ha
    · have hin := hbody a ha
      cases a with
      | act a =>
        cases a with
        | prset preg value =>
          refine if_neg fun hpreg => ?_
          rw [hpreg] at hin
          exact dmaRegs_disjoint i j hij r hr hin
        | _ => rfl
      | _ => rfl
    · obtain rfl := List.mem_singleton.mp ha
      rfl

/-- Whatever was done is a step of a call. -/
theorem DmaSys.Inv.entry {M : ModParams} {dma64 : Bool} {s : DmaSys} {holder : Fin 3 → Holder}
    (h : s.Inv M dma64 holder) {e : DmaEntry} (he : e ∈ s.log) :
    e.step ∈ dmaProgram M dma64 e.engine e.call := by
  have hmem : ((e.proc, e.call), e.step) ∈ engineLog e.engine s.log :=
    List.mem_filterMap.mpr ⟨e, he, if_pos rfl⟩
  obtain ⟨done, hdone, hmade⟩ := (h.sessions e.engine).whole
  have hwhole : ∀ {x}, x ∈ done.flatMap steps → x.2 ∈ dmaProgram M dma64 e.engine x.1.2 := by
    intro x hx
    obtain ⟨t, ht, hx⟩ := List.mem_flatMap.mp hx
    obtain ⟨a, ha, rfl⟩ := List.mem_map.mp hx
    show a ∈ dmaProgram M dma64 e.engine t.1.2
    rw [← hdone t ht]
    exact ha
  cases hholder : holder e.engine with
  | none =>
    rw [hholder] at hmade
    rw [show engineLog e.engine s.log = _ from hmade] at hmem
    exact hwhole hmem
  | some t =>
    obtain ⟨t, todo⟩ := t
    rw [hholder] at hmade
    obtain ⟨part, hpart, hlog⟩ := hmade
    rw [hlog] at hmem
    rcases List.mem_append.mp hmem with hmem | hmem
    · exact hwhole hmem
    · obtain ⟨a, ha, he⟩ := List.mem_map.mp hmem
      obtain ⟨rfl, rfl⟩ := Prod.mk.inj he
      show _ ∈ dmaProgram M dma64 e.engine e.call
      rw [← hpart]
      exact List.mem_append_left _ ha

/-- What is written to an engine's register is written on that engine. -/
theorem writes_engine {M : ModParams} {dma64 : Bool} {s : DmaSys} {holder : Fin 3 → Holder}
    (h : s.Inv M dma64 holder) {i : Fin 3} {r : Register} (hr : r ∈ (dmaRegs i).all) :
    (s.log.filterMap fun e => e.step.write r) = (engineLog i s.log).filterMap fun x =>
      x.2.write r := by
  unfold engineLog
  rw [List.filterMap_filterMap]
  refine List.filterMap_congr fun e he => ?_
  by_cases hi : e.engine = i
  · rw [if_pos hi]
    rfl
  · rw [if_neg hi]
    exact write_other (Ne.symm hi) hr (h.entry he)

/-- The registers of the descriptor, which are words of their own. -/
def DmaRegs.words (r : DmaRegs) : List Register :=
  [r.hadd, r.cadd, r.count, r.next, r.hadd_high, r.next_high]

theorem words_all : ∀ i : Fin 3, ∀ r ∈ (dmaRegs i).words, r ∈ (dmaRegs i).all := by decide

/-- A register of a descriptor is a whole word, but for the card address of the first
engine. -/
def wordBits (r : Register) : ℕ := if r = dma1cadd then 30 else 32

theorem words_masks : ∀ i : Fin 3, ∀ r ∈ (dmaRegs i).words,
    shiftBy r.shift = 0 ∧ r.mask = if r = dma1cadd then 0x3FFFFFFF else 0xFFFFFFFF := by decide

theorem wordBits_masks {i : Fin 3} {r : Register} (hr : r ∈ (dmaRegs i).words) :
    Field.Masks r.mask (shiftBy r.shift) (wordBits r) := by
  obtain ⟨hshift, hmask⟩ := words_masks i r hr
  rw [hshift, hmask]
  unfold wordBits Field.Masks
  split_ifs <;> decide

theorem words_first :
    ∀ i : Fin 3, ∀ r ∈ (dmaRegs i).words, r = dma1cadd → r = (dmaRegs i).cadd := by decide

theorem cadd_first : ∀ i : Fin 3, (dmaRegs i).cadd = dma1cadd → i = 0 := by decide

theorem words_low : ∀ i : Fin 3, (dmaRegs i).hadd.add.toNat ≤ 255 ∧
    (dmaRegs i).cadd.add.toNat ≤ 255 ∧
    (dmaRegs i).count.add.toNat ≤ 255 ∧ (dmaRegs i).next.add.toNat ≤ 255 := by decide

theorem words_cadd : ∀ i : Fin 3, (dmaRegs i).hadd ≠ (dmaRegs i).cadd ∧
    (dmaRegs i).count ≠ (dmaRegs i).cadd ∧
    (dmaRegs i).next ≠ (dmaRegs i).cadd ∧ (dmaRegs i).hadd_high ≠ (dmaRegs i).cadd ∧
      (dmaRegs i).next_high ≠ (dmaRegs i).cadd := by decide

theorem words_apart : ∀ i j : Fin 3, ∀ r ∈ (dmaRegs i).words, ∀ preg ∈ (dmaRegs j).all,
    preg.add.toNat = r.add.toNat → preg = r := by decide

/-- A step of a call that writes to the word of such a register writes to the register. -/
theorem write_word {M : ModParams} {dma64 : Bool} {i j : Fin 3} {r : Register}
    (hr : r ∈ (dmaRegs i).words) {c : DmaCall} {preg : Register} {value : BitVec 32}
    (ha : .act (.prset preg value) ∈ dmaProgram M dma64 j c) (hadd : preg.add.toNat = r.add.toNat) :
    preg = r := by
  obtain ⟨body, hprog, hbody⟩ := dmaProgram_shape M dma64 j c
  rw [hprog] at ha
  rcases List.mem_cons.mp ha with ha | ha
  · cases ha
  · rcases List.mem_append.mp ha with ha | ha
    · exact words_apart i j r hr preg (hbody _ ha) hadd
    · cases List.mem_singleton.mp ha

theorem answers_store {card : RegSpace} {r : Register} (h : card.Answers r) (a : DmaStep) :
    (a.store card).Answers r := by
  cases a with
  | act a =>
    cases a with
    | prset preg value =>
      show (ajaPrset card preg value).2.1.Answers r
      unfold ajaPrset
      simp only
      split_ifs <;> exact h
    | _ => exact h
  | _ => exact h

/-- A register with a word of its own reads as it was written last. -/
theorem reg_last {card : RegSpace} {r : Register} {n : ℕ} {v : BitVec 32} (hc : card.Answers r)
    (hmask : Field.Masks r.mask (shiftBy r.shift) n) (hn : shiftBy r.shift + n ≤ 32)
    (hv : v.toNat < 2 ^ n) (l : List DmaStep)
    (hsame : ∀ preg value, .act (.prset preg value) ∈ l → preg.add.toNat = r.add.toNat → preg = r)
    (hlast : (l.filterMap fun a => a.write r).getLast? = some v) :
    (ajaPrget (l.foldl DmaStep.store card) r).1 = v := by
  induction l using List.reverseRecOn with
  | nil => cases hlast
  | append_singleton l a ih =>
    have hanswers : (l.foldl DmaStep.store card).Answers r :=
      List.foldlRecOn (motive := fun c => c.Answers r) l DmaStep.store hc fun _ h a _ =>
        answers_store h a
    have ih' := ih fun preg value ha => hsame preg value (List.mem_append_left _ ha)
    rw [List.foldl_concat]
    rw [List.filterMap_append] at hlast
    cases ha : a.write r with
    | some w =>
      rw [List.filterMap_cons_some ha, List.filterMap_nil, List.getLast?_concat] at hlast
      obtain rfl := Option.some.inj hlast
      match a, ha with
      | .act (.prset preg value), ha =>
        simp only [DmaStep.write, Option.ite_none_right_eq_some] at ha
        obtain ⟨rfl, hvalue⟩ := ha
        obtain rfl := Option.some.inj hvalue
        exact prget_prset hanswers hmask hn hv
    | none =>
      rw [List.filterMap_cons_none ha, List.filterMap_nil, List.append_nil] at hlast
      rw [← ih' hlast]
      match a, ha with
      | .act (.prset preg value), ha =>
        refine prget_prset_other fun hadd => ?_
        rw [DmaStep.write, if_pos (hsame preg value (by simp) hadd)] at ha
        cases ha
      | .act (.wait _), _ | .act .unmapSg, _ | .act (.setPageDirty _), _ | .act (.release _), _ =>
        rfl
      | .down _, _ | .up _, _ | .pin _, _ | .mapSg, _ => rfl

theorem dmaRegs_go : ∀ i : Fin 3, (dmaRegs i).hadd ≠ (dmaRegs i).dmago ∧
    (dmaRegs i).cadd ≠ (dmaRegs i).dmago ∧
    (dmaRegs i).count ≠ (dmaRegs i).dmago ∧ (dmaRegs i).next ≠ (dmaRegs i).dmago ∧
      (dmaRegs i).hadd_high ≠ (dmaRegs i).dmago ∧ (dmaRegs i).next_high ≠ (dmaRegs i).dmago := by
  decide

/-- The write that starts engine `i`. -/
def goStep (i : Fin 3) : DmaStep := .act (.prset (dmaRegs i).dmago 1)

theorem goStep_write (i : Fin 3) : (goStep i).write (dmaRegs i).dmago = some 1 := if_pos rfl

theorem cleanup_write (k : Kernel) (d : Dma) (i : Fin 3) :
    ∀ a ∈ dmaCleanup k d, DmaStep.write (dmaRegs i).dmago (.act a) = none := by
  intro a ha
  cases a with
  | prset r v => exact absurd (cleanup_kind k d _ ha) nofun
  | _ => rfl

theorem load_write (i : Fin 3) (dma64 : Bool) (l : SgList) :
    ∀ a ∈ dmaLoad (dmaRegs i) dma64 l, DmaStep.write (dmaRegs i).dmago (.act a) = none := by
  have hne := dmaRegs_go i
  unfold dmaLoad
  refine List.forall_mem_append.mpr ⟨by simp [DmaStep.write, hne], ?_⟩
  cases dma64 <;> simp [DmaStep.write, hne]

/-- A transfer loads, starts the engine, and does not start it again. -/
theorem transfer_cut (k : Kernel) (i : Fin 3) (dma64 : Bool) (d : Dma) (l : SgList) (w : ℤ) :
    ∃ rest, (dmaTransfer k (dmaRegs i) dma64 d l w).2 =
        dmaLoad (dmaRegs i) dma64 l ++ .prset (dmaRegs i).dmago 1 :: rest ∧
      ∀ a ∈ rest, DmaStep.write (dmaRegs i).dmago (.act a) ≠ some 1 := by
  have hclean : ∀ a ∈ dmaCleanup k d, DmaStep.write (dmaRegs i).dmago (.act a) ≠ some 1 := by
    intro a ha
    rw [cleanup_write k d i a ha]
    nofun
  unfold dmaTransfer dmaStart
  split_ifs
  · refine ⟨.wait w :: .prset (dmaRegs i).dmago 0 :: dmaCleanup k d, by simp, ?_⟩
    refine List.forall_mem_cons.mpr ⟨nofun, List.forall_mem_cons.mpr ⟨?_, hclean⟩⟩
    simp [DmaStep.write]
  · exact ⟨.wait w :: dmaCleanup k d, by simp, List.forall_mem_cons.mpr ⟨nofun, hclean⟩⟩

/-- What a call has done when it is about to start its engine. -/
theorem program_start {M : ModParams} {dma64 : Bool} {i : Fin 3} {c : DmaCall}
    {part todo : List DmaStep} (h : part ++ goStep i :: todo = dmaProgram M dma64 i c) :
    ∃ d, dmaInit M c.k dma64 c.info.dir c.info.uadd.toNat c.info.cadd c.info.len.toNat = .ok d ∧
      part = .down i :: (dmaInitSteps M c.k c.info.uadd.toNat c.info.len.toNat ++
        (dmaLoad (dmaRegs i) dma64 (d.list.headD default)).map .act) := by
  have hgo := goStep_write i
  have hinit : goStep i ∉ dmaInitSteps M c.k c.info.uadd.toNat c.info.len.toNat := by
    intro hmem
    rcases init_kind M c.k _ _ _ hmem with he | ⟨page, he⟩ <;> cases he
  have hmem : goStep i ∈ dmaProgram M dma64 i c :=
    h ▸ List.mem_append_right _ (List.mem_cons_self ..)
  unfold dmaProgram at h hmem
  cases hd : dmaInit M c.k dma64 c.info.dir c.info.uadd.toNat c.info.cadd c.info.len.toNat with
  | error err =>
    -- a call without its pages starts nothing
    rw [steps_error (dmaEngine_before i) hd] at hmem
    rcases List.mem_cons.mp hmem with hmem | hmem
    · cases hmem
    · rcases List.mem_append.mp hmem with hmem | hmem
      · exact absurd hmem hinit
      · cases List.mem_singleton.mp hmem
  | ok d =>
    refine ⟨d, rfl, ?_⟩
    rw [steps_ok (dmaEngine_before i) hd] at h
    -- the call's steps, cut at the write of the go bit
    set l := d.list.headD default
    obtain ⟨rest, hcut, hrest⟩ := transfer_cut c.k i dma64 d l c.w
    rw [hcut, List.map_append, List.map_cons, List.append_assoc, List.cons_append,
      ← List.append_assoc, ← List.cons_append] at h
    refine ((List.append_cons_inj_of_notMem ?_ ?_).mp h.symm).1.symm
    · intro hmem
      rcases List.mem_cons.mp hmem with hmem | hmem
      · cases hmem
      · rcases List.mem_append.mp hmem with hmem | hmem
        · exact absurd hmem hinit
        · obtain ⟨a, ha, he⟩ := List.mem_map.mp hmem
          rw [← he, load_write i dma64 l a ha] at hgo
          cases hgo
    · intro hmem
      rcases List.mem_append.mp hmem with hmem | hmem
      · obtain ⟨a, ha, he⟩ := List.mem_map.mp hmem
        exact hrest a ha (he ▸ hgo)
      · cases List.mem_singleton.mp hmem

/-- The load writes each register once. -/
theorem load_writes (i : Fin 3) (dma64 : Bool) (l : SgList) :
    let w := fun r : Register => ((dmaLoad (dmaRegs i) dma64 l).map DmaStep.act).filterMap fun a =>
      a.write r
    w (dmaRegs i).hadd = [l.hadd] ∧ w (dmaRegs i).cadd = [l.cadd] ∧
      w (dmaRegs i).count = [l.count] ∧
      w (dmaRegs i).next = [l.next] ∧
        (dma64 = true → w (dmaRegs i).hadd_high = [l.hadd_high] ∧
          w (dmaRegs i).next_high = [l.next_high]) := by
  cases dma64 with
  | false =>
    match i with
    | 0 | 1 | 2 => exact ⟨rfl, rfl, rfl, rfl, nofun⟩
  | true =>
    match i with
    | 0 | 1 | 2 => exact ⟨rfl, rfl, rfl, rfl, fun _ => ⟨rfl, rfl⟩⟩

/-- The first descriptor is for the card's address that was asked for. -/
theorem cadd_cardsg (M : ModParams) (dir : PciDir) (cardoff : BitVec 32) (dma64 : Bool)
    (list_pac : ℕ) (sgl : List Segments.Seg) {l : SgList} {rest : List SgList}
    (h : dmaCardsg M dir cardoff dma64 list_pac sgl = l :: rest) : l.cadd = cardoff := by
  have hall := cardsg_describes M dir cardoff dma64 list_pac sgl
  rw [h] at hall
  cases hruns : runs M.dma_merge sgl with
  | nil =>
    rw [hruns] at hall
    exact hall.elim
  | cons r rs =>
    rw [hruns] at hall
    rw [hall.1.cadd, BitVec.ofNat_toNat, BitVec.setWidth_eq]

/-- It fits into the register of the card's address. -/
theorem cadd_fits {M : ModParams} {dma64 : Bool} {i : Fin 3} {c : DmaCall} {d : Dma}
    (hd : dmaInit M c.k dma64 c.info.dir c.info.uadd.toNat c.info.cadd c.info.len.toNat = .ok d)
    (hcadd : i = 0 → c.info.cadd.toNat < 2 ^ 30) :
    (d.list.headD default).cadd.toNat < 2 ^ wordBits (dmaRegs i).cadd := by
  unfold wordBits
  split_ifs with he
  · rw [(dmaInit_ok hd).list]
    cases hlist :
        dmaCardsg M c.info.pciDir c.info.cadd dma64 c.k.list_pac (c.k.mapSg c.info.sgl) with
    | nil => decide
    | cons l rest =>
      show l.cadd.toNat < 2 ^ 30
      rw [cadd_cardsg _ _ _ _ _ _ hlist]
      exact hcadd (cadd_first i he)
  · exact (d.list.headD default).cadd.isLt

theorem init_writes (M : ModParams) (k : Kernel) (data size : ℕ) (r : Register) :
    (dmaInitSteps M k data size).filterMap (fun a => a.write r) = [] := by
  refine List.filterMap_eq_nil_iff.mpr fun a ha => ?_
  rcases init_kind M k data size a ha with rfl | ⟨page, rfl⟩ <;> rfl

/-- When a call is about to start its engine, the last write to a register of the engine
is the one of its own load. -/
theorem DmaSys.Inv.last_write {M : ModParams} {dma64 : Bool} {s : DmaSys}
    {holder : Fin 3 → Holder} (h : s.Inv M dma64 holder) {p : ℕ} {c : DmaCall} {i : Fin 3}
    {todo : List DmaStep} (hp : s.proc p = .holding c i (goStep i :: todo)) :
    ∃ d, dmaInit M c.k dma64 c.info.dir c.info.uadd.toNat c.info.cadd c.info.len.toNat = .ok d ∧
      ∀ r ∈ (dmaRegs i).all, ∀ v,
        ((dmaLoad (dmaRegs i) dma64 (d.list.headD default)).map DmaStep.act).filterMap
            (fun a => a.write r) = [v] →
          ((s.log.map DmaEntry.step).filterMap fun a => a.write r).getLast? = some v := by
  obtain ⟨done, -, hmade⟩ := (h.sessions i).whole
  rw [(h.holds p c i _).mp hp] at hmade
  obtain ⟨part, hpart, hlog⟩ := hmade
  obtain ⟨d, hd, rfl⟩ := program_start hpart
  refine ⟨d, hd, fun r hr v hv => ?_⟩
  rw [List.filterMap_map]
  show (s.log.filterMap fun e => e.step.write r).getLast? = some v
  rw [writes_engine h hr, hlog, List.filterMap_append]
  have hown : (steps ((p, c), .down i :: (dmaInitSteps M c.k c.info.uadd.toNat c.info.len.toNat ++
      (dmaLoad (dmaRegs i) dma64 (d.list.headD default)).map .act))).filterMap
        (fun x => x.2.write r) = [v] := by
    unfold steps
    rw [List.filterMap_map]
    show (DmaStep.down i :: (_ ++ _)).filterMap (fun a => a.write r) = [v]
    rw [List.filterMap_cons_none rfl, List.filterMap_append, init_writes, hv]
    rfl
  rw [hown, List.getLast?_concat]

/-- However the processes take turns: whoever is about to start an engine reads in the
engine's registers the first descriptor of its own call, whatever was done with the
engine before and is being done with the others. On the first engine the card address
has to fit into the 30 bits of its register. -/
theorem dma_starts_own {M : ModParams} {dma64 : Bool} {s : DmaSys}
    (hr : Runs.Reach (DmaSys.step M dma64) DmaOk DmaSys.init s) {p : ℕ} {c : DmaCall} {i : Fin 3}
    {todo : List DmaStep} (hp : s.proc p = .holding c i (goStep i :: todo))
    (hcadd : i = 0 → c.info.cadd.toNat < 2 ^ 30) {card : RegSpace}
    (hcaps : dma64 = true → card.caps &&& ajaSmallReg = 0)
    (hlen : ∀ r ∈ (dmaRegs i).all, r.add.toNat ≤ card.reglen) :
    ∃ d, dmaInit M c.k dma64 c.info.dir c.info.uadd.toNat c.info.cadd c.info.len.toNat = .ok d ∧
      s.Shows dma64 card i (d.list.headD default) := by
  obtain ⟨holder, h⟩ := DmaSys.reach_inv hr
  obtain ⟨d, hd, hlast⟩ := h.last_write hp
  refine ⟨d, hd, ?_⟩
  set l := d.list.headD default
  have hreads : ∀ r ∈ (dmaRegs i).words, ∀ v : BitVec 32, (r.add.toNat ≤ 255 ∨ dma64 = true) →
      v.toNat < 2 ^ wordBits r →
      ((dmaLoad (dmaRegs i) dma64 l).map DmaStep.act).filterMap (fun a => a.write r) = [v] →
      s.reg card r = v := by
    intro r hr v hlow hv hload
    have hall : r ∈ (dmaRegs i).all := words_all i r hr
    refine reg_last ⟨fun hsmall => ?_, hlen r hall⟩ (wordBits_masks hr) ?_ hv _
      (fun preg value ha hadd => ?_) (hlast r hall v hload)
    · rcases hlow with hlow | h64
      · omega
      · exact hsmall.1 (hcaps h64)
    · rw [(words_masks i r hr).1]
      unfold wordBits
      split_ifs <;> omega
    · obtain ⟨e, he, hstep⟩ := List.mem_map.mp ha
      exact write_word hr (hstep ▸ h.entry he) hadd
  have hwhole : ∀ r ∈ (dmaRegs i).words, r ≠ (dmaRegs i).cadd →
      ∀ v : BitVec 32, (r.add.toNat ≤ 255 ∨ dma64 = true) →
      ((dmaLoad (dmaRegs i) dma64 l).map DmaStep.act).filterMap (fun a => a.write r) = [v] →
      s.reg card r = v := by
    intro r hr hne v hlow hload
    have hbits : wordBits r = 32 := if_neg fun he => hne (words_first i r hr he)
    exact hreads r hr v hlow (by rw [hbits]; exact v.isLt) hload
  obtain ⟨hhadd, hload, hcount, hnext, hhigh⟩ := load_writes i dma64 l
  obtain ⟨lowHadd, lowCadd, lowCount, lowNext⟩ := words_low i
  obtain ⟨neHadd, neCount, neNext, neHigh, neNextHigh⟩ := words_cadd i
  refine ⟨hwhole _ ?_ neHadd _ (.inl lowHadd) hhadd,
    hreads _ ?_ _ (.inl lowCadd) (cadd_fits hd hcadd) hload,
    hwhole _ ?_ neCount _ (.inl lowCount) hcount, hwhole _ ?_ neNext _ (.inl lowNext) hnext,
    fun h64 => ⟨hwhole _ ?_ neHigh _ (.inr h64) (hhigh h64).1,
      hwhole _ ?_ neNextHigh _ (.inr h64) (hhigh h64).2⟩⟩ <;>
    simp [DmaRegs.words]

/-- The third process is about to start the engine the second one has used, on a card
whose registers had something in all their bits. -/
theorem dma_starts_own_three :
    let s := threeCalls.foldl (DmaSys.step {} false) DmaSys.init
    let card : RegSpace := ⟨0, 0x200, fun _ => 0xFFFFFFFF⟩
    (∃ d, dmaInit {} (eightBytes 0x300).k false 0 0x10000 0x300 8 = .ok d ∧
      s.Shows false card 1 (d.list.headD default)) ∧ s.reg card dma2cadd = 0x300 := by
  intro s card
  have hr : Runs.Reach (DmaSys.step {} false) DmaOk DmaSys.init s :=
    .of_along threeCalls (by decide +kernel)
  have hp : s.proc 2 = .holding (eightBytes 0x300) 1
      (goStep 1 :: [.act (.wait 1), .act .unmapSg, .act (.release 0x10), .up 1]) := rfl
  exact ⟨dma_starts_own hr hp (by decide) nofun (by decide), by decide +kernel⟩

/-! ### Never busy -/

/-- A call is made while at most two others are in progress. -/
def DmaFew (s : DmaSys) : DmaEvent → Prop
  | .call p _ => p ∉ s.inside ∧ s.inside.length < 3
  | .go _ => True

instance (s : DmaSys) : ∀ e, Decidable (DmaFew s e)
  | .call p _ => inferInstanceAs (Decidable (p ∉ s.inside ∧ s.inside.length < 3))
  | .go _ => instDecidableTrue

theorem DmaFew.ok {s : DmaSys} {e : DmaEvent} (h : DmaFew s e) : DmaOk s e := by
  cases e with
  | call p c => exact h.1
  | go p => trivial

/-- The processes at an engine are those in `aja_dma`. -/
theorem DmaSys.Inv.card_le {M : ModParams} {dma64 : Bool} {s : DmaSys} {holder : Fin 3 → Holder}
    (h : s.Inv M dma64 holder) (hs : s.inside.length ≤ 3) (S : Finset ℕ)
    (hS : ∀ p ∈ S, s.place p ≠ .out) : S.card ≤ 3 := by
  have hsub : S ⊆ s.inside.toFinset := by
    intro p hp
    rw [List.mem_toFinset, h.inside]
    intro hout
    exact hS p hp (congrArg DmaProc.place hout)
  exact (Finset.card_le_card hsub).trans ((List.toFinset_card_le _).trans hs)

/-- As long as never more than three calls are in progress at once, in whatever order
they go on, none is refused: whoever finds an engine taken leaves its holder
behind, and the third engine is as far as three processes get. -/
theorem dma_never_busy {M : ModParams} {dma64 : Bool} {s : DmaSys}
    (hr : Runs.Reach (DmaSys.step M dma64) DmaFew DmaSys.init s) : s.refused = [] := by
  have hinv :=
    hr.inv (I := fun s : DmaSys => (∃ holder, s.Inv M dma64 holder) ∧ Crowd 3 s.place ∧
      s.inside.length ≤ 3 ∧
    s.refused = []) ⟨⟨_, DmaSys.init_inv M dma64⟩, Crowd.out 3, Nat.zero_le _, rfl⟩ ?_
  · exact hinv.2.2.2
  rintro s e ⟨⟨holder, h⟩, hcrowd, hlen, hrefused⟩ he
  obtain ⟨holder', h'⟩ := h.step he.ok
  cases e with
  | call p c =>
    have hlen' : (s.step M dma64 (.call p c)).inside.length ≤ 3 := he.2
    have hout : s.place p = .out := by
      by_contra hne
      exact he.1 ((h.inside p).mpr fun hp => hne (congrArg DmaProc.place hp))
    have hplace : (s.step M dma64 (.call p c)).place = update s.place p (.looking 0) :=
      comp_update ..
    refine ⟨⟨_, h'⟩, ?_, hlen', hrefused⟩
    have hcard := h'.card_le hlen'
    rw [hplace] at hcard ⊢
    exact hcrowd.move (.enter hout) hcard
  | go p =>
    obtain ⟨-, hmoved, hle⟩ := h.go p
    have hlen' : (s.step M dma64 (.go p)).inside.length ≤ 3 := hle.trans hlen
    have hcard := h'.card_le hlen'
    refine ⟨⟨_, h'⟩, ?_⟩
    rcases hmoved with ⟨hplace, hsame⟩ | ⟨q, x, hmove, hplace, hwhere⟩
    · refine ⟨?_, hlen', hsame.trans hrefused⟩
      rw [show (s.step M dma64 (.go p)).place = s.place from hplace]
      exact hcrowd
    · rw [show (s.step M dma64 (.go p)).place = update s.place q x from hplace] at hcard ⊢
      refine ⟨hcrowd.move hmove hcard, hlen', ?_⟩
      rcases hwhere with hsame | ⟨n, hn, hat⟩
      · exact hsame.trans hrefused
      · have hbelow := hcrowd.below (p := q) (i := n) (by rw [hat]; rfl)
        omega

/-- Three calls take the three engines; none of them is refused. -/
theorem dma_never_busy_three :
    ((threeCalls ++ [DmaEvent.call 1 (eightBytes 0x400), .go 1, .go 1, .go 1]).foldl
      (DmaSys.step {} false) DmaSys.init).refused = [] :=
  dma_never_busy (.of_along _ (by decide +kernel))

end AjaDriver
