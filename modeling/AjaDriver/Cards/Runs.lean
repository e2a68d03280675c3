/-
# Every run of the driver

However probes, removals, interrupts and calls of files interleave, the ledger of every
card is in order, but for one window of a removal, in which an interrupt finds the P2
slave already unregistered (`cards_accounted`, `cards_in_order_iff`).
-/
import AjaDriver.Cards.Life

namespace AjaDriver

open Function Ledger Runs

variable {M : ModParams} {env : CardEnv}

/-! ### A device -/

/-- What is still to be done with a device if its card is removed. -/
def CardPhase.rest : CardPhase → List CardStep
  | idle => []
  | probing env error todo => todo ++ if error = 0 then ajaPciRemove env else []
  | bound env => ajaPciRemove env
  | removing _ todo => todo

theorem CardPhase.settled_probing (env : CardEnv) (error : ℤ) :
    (probing env error []).settled = if error = 0 then bound env else idle := rfl

theorem CardPhase.rest_probing (env : CardEnv) (error : ℤ) (todo : List CardStep) :
    (probing env error todo).rest = todo ++ if error = 0 then ajaPciRemove env else [] := rfl

theorem CardPhase.rest_settled (p : CardPhase) : p.settled.rest = p.rest := by
  cases p with
  | idle => rfl
  | bound env => rfl
  | probing env error todo =>
    cases todo with
    | nil =>
      rw [settled_probing, rest_probing]
      split_ifs <;> rfl
    | cons x todo => rfl
  | removing env todo => cases todo <;> rfl

/-- What a probe leaves to a removal. -/
def CardStep.OfProbe (x : CardStep) : Prop :=
  Entry.give .cdev ∉ x.entries ∧ Entry.give .slave ∉ x.entries

instance (x : CardStep) : Decidable x.OfProbe :=
  inferInstanceAs (Decidable (Entry.give .cdev ∉ x.entries ∧ Entry.give .slave ∉ x.entries))

/-- What the driver knows of its device in a phase. -/
def CardPhase.Knows (d : CardDev) : CardPhase → Prop
  | idle => d.files = 0
  | probing env error todo => (∀ x ∈ todo, x.OfProbe) ∧ (d.slave = true → .slave ∈ d.held) ∧
      (error = 0 → (.drvdata false ∉ todo ∧ (.drvdata true ∈ todo ∨ d.drvdata = true)) ∧
        env.node = .created ∧ env.irq ≠ 0)
  | bound env =>
    (d.slave = true → .slave ∈ d.held) ∧ d.drvdata = true ∧ env.node = .created ∧ env.irq ≠ 0
  | removing _ todo => d.files = 0 ∧ .create ∉ todo

/-- The rest of a device's life fits, and nothing is left at its end. -/
structure CardDev.Inv (d : CardDev) : Prop where
  closed : Closed CardRes.needs d.held
  fits : Fits CardRes.needs d.held (ledger d.phase.rest)
  ends : Ledger.held d.held (ledger d.phase.rest) = ∅
  plain : .give .cdev ∉ d.phase.rest ∧ .give .memory ∉ d.phase.rest
  slave : d.slave = true → .memory ∈ d.held
  added : d.added = true → .cdev ∈ d.held
  files : 0 < d.files → d.added = true
  knows : d.phase.Knows d

/-- An end is never an interrupted one. -/
theorem CardPhase.Knows.settled {d : CardDev} {p : CardPhase} (h : p.Knows d)
    (hfiles : ∀ env error, p = .probing env error [] → error ≠ 0 → d.files = 0) :
    p.settled.Knows d := by
  cases p with
  | idle => exact h
  | bound env => exact h
  | removing env todo =>
    cases todo with
    | nil => exact h.1
    | cons x todo => exact h
  | probing env error todo =>
    cases todo with
    | cons x todo => exact h
    | nil =>
      obtain ⟨-, hslave, hdrv⟩ := h
      rw [settled_probing]
      split_ifs with hzero
      · exact ⟨hslave, (hdrv hzero).1.2.resolve_left List.not_mem_nil, (hdrv hzero).2⟩
      · exact hfiles env error rfl hzero

namespace CardDev

variable {d : CardDev} {l : List (Entry CardRes)}

theorem enter_fits : ∀ {l : List (Entry CardRes)} {d : CardDev}, Fits CardRes.needs d.held l →
    d.enter l = ([], { d with held := Ledger.held d.held l })
  | [], _, _ => rfl
  | e :: l, d, h => by
    unfold enter
    rw [if_pos h.1]
    exact enter_fits h.2

/-- Uses leave what is held; those of what is not held are faults. -/
theorem enter_uses (d : CardDev) : ∀ l : List CardRes,
    d.enter (l.map .use) = ((l.filter (· ∉ d.held)).map .use, d)
  | [] => rfl
  | r :: l => by
    rw [List.map_cons, enter, enter_uses d l]
    have hfits : (Entry.use r).Fits CardRes.needs d.held ↔ r ∈ d.held := Iff.rfl
    by_cases hr : r ∈ d.held
    · rw [if_pos (hfits.mpr hr), List.filter_cons_of_neg (by simpa using hr)]
      exact enter_uses d l
    · rw [if_neg (hfits.not.mpr hr), List.filter_cons_of_pos (by simpa using hr)]
      rfl

theorem does_held (count : ℕ) (d : CardDev) (x : CardStep) : (d.does count x).held = d.held := by
  cases x <;> rfl

theorem does_files (count : ℕ) (d : CardDev) (x : CardStep) : (d.does count x).files = d.files := by
  cases x <;> rfl

/-- Only a new card gets another index. -/
theorem does_index (count : ℕ) (d : CardDev) {x : CardStep} (hx : x ≠ .create) :
    (d.does count x).index = d.index := by
  cases x with
  | create => exact absurd rfl hx
  | entry e => rfl
  | free => rfl
  | drvdata set => rfl
  | cdevAdd => rfl
  | cdevDel => rfl
  | register => rfl

/-- Device `d` after step `x`, going on in phase `p`. -/
def next (count : ℕ) (d : CardDev) (x : CardStep) (p : CardPhase) : CardDev :=
  { d.does count x with phase := p, held := Ledger.held d.held x.entries }

/-- A resource that a step does not give back stays. -/
theorem mem_held {r : CardRes} {h : Finset CardRes} :
    ∀ {l : List (Entry CardRes)}, Entry.give r ∉ l → r ∈ h →
    r ∈ Ledger.held h l := by
  intro l
  induction l generalizing h with
  | nil => exact fun _ hr => hr
  | cons e l ih =>
    intro hl hr
    obtain ⟨hne, hl⟩ := List.ne_and_not_mem_of_not_mem_cons hl
    refine ih hl ?_
    cases e with
    | take x => exact Finset.mem_insert_of_mem hr
    | give x => exact Finset.mem_erase.mpr ⟨fun heq => hne (by rw [heq]), hr⟩
    | use x => exact hr

variable {count : ℕ} {x : CardStep} {p : CardPhase}

/-- While a card's files can be opened, so can they after a step that does not end it. -/
theorem Inv.next_added (h : d.Inv) (hfits : Fits CardRes.needs d.held x.entries)
    (hx : x ≠ .give .cdev) :
    (d.next count x p).added = true → .cdev ∈ (d.next count x p).held := by
  intro hadded
  have hstays : d.added = true → .give .cdev ∉ x.entries → .cdev ∈ Ledger.held d.held x.entries :=
    fun hadd hnot =>
    mem_held hnot (h.added hadd)
  cases x with
  | entry e =>
    exact hstays hadded fun hin => hx (congrArg CardStep.entry (List.mem_singleton.mp hin).symm)
  | create => cases hadded
  | drvdata set => exact h.added hadded
  | free => exact hstays hadded (by decide)
  | cdevAdd => exact hfits.1
  | cdevDel => cases hadded
  | register => exact hstays hadded (by decide)

/-- The files that are open stay those of a card that can be opened. -/
theorem Inv.next_files (h : d.Inv) (hfits : Fits CardRes.needs d.held x.entries)
    (hdel : x = .cdevDel → d.files = 0) (hopen : 0 < (d.next count x p).files) :
    (d.next count x p).added = true := by
  have hadded : d.added = true := h.files (by rwa [next, does_files] at hopen)
  cases x with
  | entry e => exact hadded
  | create =>
    -- without the memory there is no character device either
    have hmem :=
      h.closed .cdev (h.added hadded) (show CardRes.memory ∈ CardRes.needs .cdev by decide)
    exact absurd hmem hfits.1.1
  | free => exact hadded
  | drvdata set => exact hadded
  | cdevAdd => rfl
  | cdevDel =>
    have hzero := hdel rfl
    exact absurd (show 0 < d.files from hopen) (by omega)
  | register => exact hadded

/-- A card's fields go with its memory. -/
theorem Inv.next_memory (h : d.Inv) (hfits : Fits CardRes.needs d.held x.entries)
    (hx : x ≠ .give .memory) :
    (d.next count x p).slave = true → .memory ∈ (d.next count x p).held := by
  intro hslave
  cases x with
  | entry e =>
    exact mem_held (fun hin => hx (congrArg CardStep.entry (List.mem_singleton.mp hin).symm))
      (h.slave hslave)
  | create => cases hslave
  | free => cases hslave
  | drvdata set => exact h.slave hslave
  | cdevAdd => exact mem_held (by decide) (h.slave hslave)
  | cdevDel => exact mem_held (by decide) (h.slave hslave)
  | register =>
    exact mem_held (by decide) (hfits.1.2 (show CardRes.memory ∈ CardRes.needs .slave by decide))

theorem Inv.next_slave (h : d.slave = true → .slave ∈ d.held) (hx : x.OfProbe) :
    (d.next count x p).slave = true → .slave ∈ (d.next count x p).held := by
  intro hslave
  cases x with
  | entry e => exact mem_held hx.2 (h hslave)
  | create => cases hslave
  | free => cases hslave
  | drvdata set => exact h hslave
  | cdevAdd => exact mem_held (by decide) (h hslave)
  | cdevDel => exact mem_held (by decide) (h hslave)
  | register => exact Finset.mem_insert_self _ _

/-- A step of a probe or a removal is in order, and leaves the device in order. -/
theorem Inv.next (h : d.Inv) (hrest : d.phase.rest = x :: p.rest)
    (hdel : x = .cdevDel → d.files = 0) (hknows : p.settled.Knows (d.next count x p.settled)) :
    ({ d.does count x with phase := p.settled } : CardDev).enter x.entries = ([], d.next count x p.settled) ∧
      (d.next count x p.settled).Inv := by
  have hplain := h.plain
  have hfits := h.fits
  have hends := h.ends
  rw [hrest] at hplain hfits hends
  obtain ⟨hx, hcdev⟩ := List.ne_and_not_mem_of_not_mem_cons hplain.1
  obtain ⟨hx', hmemory⟩ := List.ne_and_not_mem_of_not_mem_cons hplain.2
  obtain ⟨hhere, hfits⟩ : Fits CardRes.needs d.held x.entries ∧
      Fits CardRes.needs (Ledger.held d.held x.entries) (ledger p.rest) := fits_append.mp hfits
  have hends : Ledger.held (Ledger.held d.held x.entries) (ledger p.rest) = ∅ :=
    held_append.symm.trans hends
  constructor
  · rw [enter_fits (by show Fits CardRes.needs (d.does count x).held _; rw [does_held]; exact hhere)]
    show _ = _
    unfold CardDev.next
    rw [does_held]
  · refine ⟨closed_held h.closed hhere, ?_, ?_, ?_, h.next_memory hhere hx'.symm,
      h.next_added hhere hx.symm, h.next_files hhere hdel, hknows⟩
    · show Fits CardRes.needs _ (ledger p.settled.rest)
      rw [p.rest_settled]
      exact hfits
    · show Ledger.held _ (ledger p.settled.rest) = ∅
      rw [p.rest_settled]
      exact hends
    · show .give .cdev ∉ p.settled.rest ∧ .give .memory ∉ p.settled.rest
      rw [p.rest_settled]
      exact ⟨hcdev, hmemory⟩

/-- No file of a device is open when its probe fails or its removal ends. -/
theorem files_zero (hadded : d.added = true → .cdev ∈ d.held)
    (hfiles : 0 < d.files → d.added = true) (hempty : d.held = ∅) :
    d.files = 0 := by
  by_contra hne
  have hcdev := hadded (hfiles (Nat.pos_of_ne_zero hne))
  rw [hempty] at hcdev
  exact absurd hcdev (Finset.notMem_empty _)

theorem next_drvdata {todo : List CardStep} (hx : x ≠ .drvdata false)
    (h : .drvdata true ∈ x :: todo ∨ d.drvdata = true) :
    .drvdata true ∈ todo ∨ (d.next count x p).drvdata = true := by
  rcases h with hin | hset
  · rcases List.mem_cons.mp hin with rfl | hin
    · exact .inr rfl
    · exact .inl hin
  · cases x with
    | drvdata set =>
      cases set with
      | false => exact absurd rfl hx
      | true => exact .inr rfl
    | entry e => exact .inr hset
    | create => exact .inr hset
    | free => exact .inr hset
    | cdevAdd => exact .inr hset
    | cdevDel => exact .inr hset
    | register => exact .inr hset

theorem Inv.next_probing (h : d.Inv) (count : ℕ) {error : ℤ} {todo : List CardStep}
    (hd : d.phase = .probing env error (x :: todo)) :
    let p := (CardPhase.probing env error todo).settled
    ({ d.does count x with phase := p } : CardDev).enter x.entries = ([], d.next count x p) ∧
      (d.next count x p).Inv := by
  have hrest : d.phase.rest = x :: (CardPhase.probing env error todo).rest := by rw [hd]; rfl
  have hknows := h.knows
  rw [hd] at hknows
  obtain ⟨hof, hslave, hdrv⟩ := hknows
  obtain ⟨hx, hof⟩ := List.forall_mem_cons.mp hof
  have hhere : Fits CardRes.needs d.held x.entries := by
    have hfits := h.fits
    rw [hrest] at hfits
    exact (fits_append.mp hfits).1
  have hdel : x = .cdevDel → d.files = 0 := fun hx' => absurd hx.1 (by rw [hx']; decide)
  refine h.next hrest hdel
    (CardPhase.Knows.settled ⟨hof, Inv.next_slave hslave hx, fun hzero => ?_⟩ ?_)
  · obtain ⟨⟨hnot, hdrv⟩, henv⟩ := hdrv hzero
    obtain ⟨hne, hnot⟩ := List.ne_and_not_mem_of_not_mem_cons hnot
    exact ⟨⟨hnot, next_drvdata hne.symm hdrv⟩, henv⟩
  · intro env' error' heq hne
    cases heq
    refine files_zero (h.next_added hhere fun hx' => ?_) (h.next_files hhere hdel) ?_
    · exact hx.1 (by rw [hx']; exact List.mem_singleton_self _)
    · have hends := h.ends
      rw [hrest, CardPhase.rest_probing, if_neg hne] at hends
      exact held_append.symm.trans hends

theorem Inv.next_removing (h : d.Inv) (count : ℕ) {todo : List CardStep}
    (hd : d.phase = .removing env (x :: todo)) :
    let p := (CardPhase.removing env todo).settled
    ({ d.does count x with phase := p } : CardDev).enter x.entries = ([], d.next count x p) ∧
      (d.next count x p).Inv := by
  have hknows := h.knows
  rw [hd] at hknows
  refine h.next (by rw [hd]; rfl) (fun _ => hknows.1) (CardPhase.Knows.settled ?_ nofun)
  exact ⟨(does_files count d x).trans hknows.1, fun hin => hknows.2 (List.mem_cons_of_mem x hin)⟩

end CardDev

/-! ### A probe and a removal begin -/

namespace CardDev

variable {d : CardDev}

theorem Inv.probe (h : d.Inv) (hd : d.phase = .idle) (hs : env.Says) (M : ModParams) :
    ({ d with phase := (CardPhase.probing env (ajaPciProbe M env).1 (ajaPciProbe M env).2).settled
      } : CardDev).Inv := by
  have hempty : d.held = ∅ := by
    have hends := h.ends
    rwa [hd] at hends
  have hfiles : d.files = 0 := by
    have hknows := h.knows
    rwa [hd] at hknows
  have hrest : ((CardPhase.probing env (ajaPciProbe M env).1 (ajaPciProbe M env).2).settled).rest =
      env.life M := by
    rw [CardPhase.rest_settled]
    rfl
  obtain ⟨hfits, hends⟩ := life_fits M hs
  have hslave : d.slave = false := by
    refine Bool.eq_false_iff.mpr fun hslave => ?_
    have hmem := h.slave hslave
    rw [hempty] at hmem
    exact absurd hmem (Finset.notMem_empty _)
  refine ⟨h.closed, ?_, ?_, ?_, h.slave, h.added, h.files,
    CardPhase.Knows.settled ?_ fun _ _ _ _ => hfiles⟩
  · show Fits CardRes.needs d.held (ledger _)
    rw [hrest, hempty]
    exact hfits
  · show Ledger.held d.held (ledger _) = ∅
    rw [hrest, hempty]
    exact hends
  · show CardStep.give .cdev ∉ _ ∧ CardStep.give .memory ∉ _
    rw [hrest]
    have hsub := life_sub M hs
    exact ⟨fun hin => absurd (hsub hin) (by decide), fun hin => absurd (hsub hin) (by decide)⟩
  · refine ⟨fun x hx => ?_, fun hyes => ?_, fun hzero => ?_⟩
    · exact (show ∀ x ∈ probeSteps ++ undoSteps, x.OfProbe by decide) x (probe_all_sub M hs hx)
    · exact absurd (hslave.symm.trans hyes) Bool.false_ne_true
    · obtain ⟨hsub, -, hin⟩ := probe_sub M hs.1 hzero
      refine ⟨⟨fun hnot => absurd (hsub hnot) (by decide), .inl hin⟩, hs.1, hs.2 ?_⟩
      rcases life_cases M env with ⟨hne, -⟩ | ⟨-, hirq, -⟩
      · exact absurd hzero hne
      · exact hirq

theorem Inv.remove (h : d.Inv) (hd : d.phase = .bound env) (hfiles : d.files = 0) :
    d.drvdata = true ∧ ({ d with phase := .removing env (ajaPciRemove env) } : CardDev).Inv := by
  have hrest : d.phase.rest = ajaPciRemove env := by rw [hd]; rfl
  have hknows := h.knows
  rw [hd] at hknows
  exact ⟨hknows.2.1, h.closed, hrest ▸ h.fits, hrest ▸ h.ends, hrest ▸ h.plain, h.slave, h.added,
    h.files, hfiles, fun hin => absurd (remove_sub env hin) (by decide)⟩

/-- A file is opened or closed. -/
theorem Inv.file (h : d.Inv) {files : ℕ} (hfiles : 0 < files → d.added = true)
    (hknows : d.phase.Knows { d with files := files }) :
    ({ d with files := files } : CardDev).Inv :=
  ⟨h.closed, h.fits, h.ends, h.plain, h.slave, h.added, hfiles, hknows⟩

theorem Inv.opened (h : d.Inv) (hadded : d.added = true) (hnot : ¬ d.phase.Removing) :
    ({ d with files := d.files + 1 } : CardDev).Inv := by
  refine h.file (fun _ => hadded) ?_
  have hknows := h.knows
  cases hp : d.phase with
  | idle =>
    -- then it holds nothing
    have hcdev := h.added hadded
    have hends := h.ends
    rw [hp] at hends
    rw [show d.held = ∅ from hends] at hcdev
    exact absurd hcdev (Finset.notMem_empty _)
  | probing env error todo => rw [hp] at hknows; exact hknows
  | bound env => rw [hp] at hknows; exact hknows
  | removing env todo => rw [hp] at hnot; exact absurd trivial hnot

theorem Inv.closes (h : d.Inv) (hopen : 0 < d.files) :
    ({ d with files := d.files - 1 } : CardDev).Inv := by
  refine h.file (fun _ => h.files hopen) ?_
  have hknows := h.knows
  cases hp : d.phase with
  | idle =>
    rw [hp] at hknows
    exact absurd hopen (by rw [show d.files = 0 from hknows]; exact Nat.lt_irrefl 0)
  | probing env error todo => rw [hp] at hknows; exact hknows
  | bound env => rw [hp] at hknows; exact hknows
  | removing env todo =>
    rw [hp] at hknows
    exact absurd hopen (by rw [hknows.1]; exact Nat.lt_irrefl 0)

/-- What an open file or a handler uses is held. -/
theorem Inv.uses (h : d.Inv) {r : CardRes} (hr : r ∈ d.held)
    (hneeds : r.needs = {.memory, .mapping}) :
    .memory ∈ d.held ∧ .mapping ∈ d.held := by
  have hsub := h.closed r hr
  rw [hneeds] at hsub
  exact ⟨hsub (by decide), hsub (by decide)⟩

/-- An interrupt's slave is held but in a removal. -/
theorem Inv.slave_held (h : d.Inv) (hirq : .irq ∈ d.held) (hslave : d.slave = true)
    (hnot : ¬ d.phase.Removing) :
    .slave ∈ d.held := by
  have hknows := h.knows
  cases hd : d.phase with
  | idle =>
    have hends := h.ends
    rw [hd] at hends
    rw [show d.held = ∅ from hends] at hirq
    exact absurd hirq (Finset.notMem_empty _)
  | probing env error todo =>
    rw [hd] at hknows
    exact hknows.2.1 hslave
  | bound env =>
    rw [hd] at hknows
    exact hknows.1 hslave
  | removing env todo =>
    rw [hd] at hnot
    exact absurd trivial hnot

end CardDev

/-! ### Every run -/

/-- The card has its number: it was counted, and its memory has not been freed. -/
def CardPhase.Numbered : CardPhase → Prop
  | bound _ => True
  | removing _ _ => True
  | _ => False

/-- What the index of a card is in a phase of its device. -/
def CardPhase.Index (count index : ℕ) : CardPhase → Prop
  | idle => True
  | probing _ error todo => error = 0 → .create ∈ todo ∨ index = count
  | bound _ => index < count
  | removing _ _ => index < count

structure Cards.Inv {n : ℕ} (s : Cards n) : Prop where
  dev : ∀ i, (s.dev i).Inv
  single : ∀ i j, (s.dev i).phase.Probing → (s.dev j).phase.Probing → i = j
  index : ∀ i, (s.dev i).phase.Index s.count (s.dev i).index
  distinct : ∀ i j, i ≠ j → (s.dev i).phase.Numbered → (s.dev j).phase.Numbered →
    (s.dev i).index ≠ (s.dev j).index
  faults : ∀ f ∈ s.faults, f.2 = .use .slave

namespace Cards

variable {n : ℕ} {s : Cards n} {i : Fin n} {d : CardDev}

theorem init_inv (n : ℕ) : (init n).Inv where
  dev _ := ⟨Closed.empty _, trivial, rfl, ⟨nofun, nofun⟩, nofun, nofun, nofun, rfl⟩
  single _ _ h := h.elim
  index _ := trivial
  distinct _ _ _ h := h.elim
  faults := nofun

/-- One device changes, perhaps the count, and uses of a slave may be faults. -/
theorem Inv.change (h : s.Inv) {count : ℕ} {l : List (Fin n × Entry CardRes)} (hd : d.Inv)
    (hprobing : d.phase.Probing → ∀ j, j ≠ i → ¬ (s.dev j).phase.Probing)
    (hindex : d.phase.Index count d.index) (hcount : s.count ≤ count)
    (hsame : count ≠ s.count → ∀ j, j ≠ i → ¬ (s.dev j).phase.Probing)
    (hnum : d.phase.Numbered → ∀ j, j ≠ i → (s.dev j).phase.Numbered → d.index ≠ (s.dev j).index)
    (hl : ∀ f ∈ l, f.2 = .use .slave) : Inv ⟨count, update s.dev i d, s.faults ++ l⟩ := by
  have hother : ∀ j, j ≠ i → update s.dev i d j = s.dev j := fun j hj => update_of_ne hj ..
  have hself : update s.dev i d i = d := update_self ..
  refine ⟨fun j => ?_, fun j k => ?_, fun j => ?_, fun j k hne => ?_,
    List.forall_mem_append.mpr ⟨h.faults, hl⟩⟩
  · show (update s.dev i d j).Inv
    by_cases hj : j = i
    · rw [hj, hself]
      exact hd
    · rw [hother j hj]
      exact h.dev j
  · show (update s.dev i d j).phase.Probing → (update s.dev i d k).phase.Probing → j = k
    by_cases hj : j = i <;> by_cases hk : k = i
    · exact fun _ _ => hj.trans hk.symm
    · rw [hj, hself, hother k hk]
      exact fun hp hp' => absurd hp' (hprobing hp k hk)
    · rw [hk, hself, hother j hj]
      exact fun hp hp' => absurd hp (hprobing hp' j hj)
    · rw [hother j hj, hother k hk]
      exact h.single j k
  · show (update s.dev i d j).phase.Index count (update s.dev i d j).index
    by_cases hj : j = i
    · rw [hj, hself]
      exact hindex
    · rw [hother j hj]
      have hold := h.index j
      cases hp : (s.dev j).phase with
      | idle => trivial
      | probing env error todo =>
        rw [hp] at hold
        have hkeep : count = s.count := by
          by_contra hne
          exact hsame hne j hj (by rw [hp]; trivial)
        rw [hkeep]
        exact hold
      | bound env =>
        rw [hp] at hold
        exact lt_of_lt_of_le hold hcount
      | removing env todo =>
        rw [hp] at hold
        exact lt_of_lt_of_le hold hcount
  · show (update s.dev i d j).phase.Numbered → (update s.dev i d k).phase.Numbered →
      (update s.dev i d j).index ≠ (update s.dev i d k).index
    by_cases hj : j = i <;> by_cases hk : k = i
    · exact absurd (hj.trans hk.symm) hne
    · rw [hj, hself, hother k hk]
      exact fun hp hp' => hnum hp k hk hp'
    · rw [hk, hself, hother j hj]
      exact fun hp hp' => (hnum hp' j hj hp).symm
    · rw [hother j hj, hother k hk]
      exact h.distinct j k hne

/-- A device whose phase and index are as before. -/
theorem Inv.same (h : s.Inv) (hd : d.Inv) (hphase : d.phase = (s.dev i).phase)
    (hindex : d.index = (s.dev i).index) {l : List (Fin n × Entry CardRes)}
    (hl : ∀ f ∈ l, f.2 = .use .slave) :
    Inv ⟨s.count, update s.dev i d, s.faults ++ l⟩ := by
  refine h.change hd (fun hp j hj hp' => hj ?_) ?_ le_rfl (fun hne => absurd rfl hne)
    (fun hp j hj hp' => ?_) hl
  · exact (h.single i j (hphase ▸ hp) hp').symm
  · rw [hphase, hindex]
    exact h.index i
  · rw [hindex]
    exact h.distinct i j hj.symm (hphase ▸ hp) hp'

end Cards

/-- The count goes up when the probe that has its number is over. -/
theorem CardPhase.Index.settled {count index : ℕ} {p : CardPhase} (h : p.Index count index) :
    p.settled.Index (count + p.counts) index := by
  cases p with
  | idle => trivial
  | bound env => exact h
  | removing env todo =>
    cases todo with
    | nil => trivial
    | cons x todo => exact h
  | probing env error todo =>
    cases todo with
    | cons x todo => exact h
    | nil =>
      have hcounts : (probing env error []).counts = if error = 0 then 1 else 0 := rfl
      rw [settled_probing, hcounts]
      split_ifs with hzero
      · exact Nat.lt_succ_of_le ((h hzero).resolve_left List.not_mem_nil).le
      · trivial

/-- Where a probe goes on, with the card's number or before it. -/
theorem CardDev.next_index {d : CardDev} {count : ℕ} {error : ℤ} {x : CardStep}
    {todo : List CardStep} {q : CardPhase}
    (h : (CardPhase.probing env error (x :: todo)).Index count d.index) :
    (CardPhase.probing env error todo).Index count (d.next count x q).index := by
  intro hzero
  rcases h hzero with hin | heq
  · rcases List.mem_cons.mp hin with rfl | hin
    · exact .inr rfl
    · exact .inl hin
  · right
    cases x <;> first | exact heq | rfl

namespace Cards

variable {n : ℕ} {s : Cards n} {i : Fin n}

theorem Inv.probe (h : s.Inv) (M : ModParams) (hok : CardsOk s (.probe i env)) :
    (s.step M (.probe i env)).Inv ∧ (s.step M (.probe i env)).faults = s.faults := by
  obtain ⟨hidle, hnone, hs⟩ := hok
  have hindex : (CardPhase.probing env (ajaPciProbe M env).1 (ajaPciProbe M env).2).Index s.count
    (s.dev i).index :=
    fun hzero => .inl (probe_sub M hs.1 hzero).2.1
  have hchange :=
    h.change (i := i) (l := []) ((h.dev i).probe hidle hs M) (fun _ j _ => hnone j) hindex.settled
    (Nat.le_add_right _ _) (fun _ j _ => hnone j) (fun hnum => ?_) nofun
  · rw [List.append_nil] at hchange
    exact ⟨hchange, rfl⟩
  · -- a probe that returns 0 has something to do
    cases hl : (ajaPciProbe M env).2 with
    | cons x l =>
      rw [hl] at hnum
      exact hnum.elim
    | nil =>
      rw [hl, CardPhase.settled_probing] at hnum
      split_ifs at hnum with hzero
      · exact absurd (hl ▸ (probe_sub M hs.1 hzero).2.1) List.not_mem_nil
      · exact hnum.elim

theorem Inv.remove (h : s.Inv) (M : ModParams) (hok : CardsOk s (.remove i)) :
    (s.step M (.remove i)).Inv ∧ (s.step M (.remove i)).faults = s.faults := by
  obtain ⟨hbound, hfiles⟩ := hok
  cases hp : (s.dev i).phase with
  | idle => rw [hp] at hbound; exact hbound.elim
  | probing env error todo => rw [hp] at hbound; exact hbound.elim
  | removing env todo => rw [hp] at hbound; exact hbound.elim
  | bound env =>
    obtain ⟨hdrv, hinv⟩ := (h.dev i).remove hp hfiles
    have hstep : s.step M (.remove i) =
        ⟨s.count, update s.dev i { s.dev i with phase := .removing env (ajaPciRemove env) },
          s.faults⟩ := by
      simp only [step, hp, hdrv, if_true]
    have hindex := h.index i
    rw [hp] at hindex
    have hchange := h.change (i := i) (l := []) hinv (fun hprobing => hprobing.elim) hindex le_rfl
      (fun hne => absurd rfl hne)
        (fun _ j hj hnum => h.distinct i j hj.symm (by rw [hp]; trivial) hnum) nofun
    rw [List.append_nil] at hchange
    rw [hstep]
    exact ⟨hchange, rfl⟩

theorem Inv.index_lt (h : s.Inv) {j : Fin n} (hnum : (s.dev j).phase.Numbered) :
    (s.dev j).index < s.count := by
  have hindex := h.index j
  cases hp : (s.dev j).phase with
  | idle => rw [hp] at hnum; exact hnum.elim
  | probing env error todo => rw [hp] at hnum; exact hnum.elim
  | bound env => rw [hp] at hindex; exact hindex
  | removing env todo => rw [hp] at hindex; exact hindex

theorem advance_eq {x : CardStep} {p : CardPhase} {d : CardDev}
    (henter : ({ (s.dev i).does s.count x with phase := p.settled } : CardDev).enter
      x.entries = ([], d)) :
    s.advance i x p = ⟨s.count + p.counts, update s.dev i d, s.faults⟩ := by
  unfold advance enter
  rw [henter]
  simp only [List.map_nil, List.append_nil]

/-- A step of a probe that has more to do. -/
theorem Inv.advance_probing (h : s.Inv) (M : ModParams) {error : ℤ} {x : CardStep}
    {todo : List CardStep} (hp : (s.dev i).phase = .probing env error (x :: todo)) :
    (s.step M (.step i)).Inv ∧ (s.step M (.step i)).faults = s.faults := by
  have hindex := h.index i
  rw [hp] at hindex
  obtain ⟨henter, hinv⟩ := (h.dev i).next_probing s.count hp
  have hother : ∀ j, j ≠ i → ¬ (s.dev j).phase.Probing := fun j hj hprobing =>
    hj (h.single j i hprobing (by rw [hp]; trivial))
  have hnext : (CardPhase.probing env error todo).settled.Index
    (s.count + (CardPhase.probing env error todo).counts)
      ((s.dev i).next s.count x (CardPhase.probing env error todo).settled).index :=
    (CardDev.next_index hindex).settled
  have hchange :=
    h.change (i := i) (l := []) hinv (fun _ => hother) hnext (Nat.le_add_right _ _)
    (fun _ => hother)
    (fun hnum j hj hnum' => ?_) nofun
  · rw [List.append_nil] at hchange
    rw [show s.step M (.step i) = s.advance i x
      (.probing env error todo) by simp only [step, hp], advance_eq henter]
    exact ⟨hchange, rfl⟩
  · -- only the last step gives it a number
    cases todo with
    | cons y todo => exact hnum.elim
    | nil =>
      have hindex' := CardDev.next_index (q := (CardPhase.probing env error []).settled) hindex
      change (CardPhase.probing env error []).settled.Numbered at hnum
      rw [CardPhase.settled_probing] at hnum
      split_ifs at hnum with hzero
      · have heq := (hindex' hzero).resolve_left List.not_mem_nil
        exact heq.trans_ne (h.index_lt hnum').ne'
      · exact hnum.elim

/-- A step of a removal: the card keeps its number to the end. -/
theorem Inv.advance_removing (h : s.Inv) (M : ModParams) {x : CardStep} {todo : List CardStep}
    (hp : (s.dev i).phase = .removing env (x :: todo)) :
    (s.step M (.step i)).Inv ∧ (s.step M (.step i)).faults = s.faults := by
  have hindex := h.index i
  have hknows := (h.dev i).knows
  rw [hp] at hindex hknows
  obtain ⟨henter, hinv⟩ := (h.dev i).next_removing s.count hp
  have hsame :
    ((s.dev i).next s.count x (CardPhase.removing env todo).settled).index = (s.dev i).index :=
    CardDev.does_index _ _ fun hx => hknows.2 (hx ▸ List.mem_cons_self)
  have hnot : ¬ (CardPhase.removing env todo).settled.Probing := by
    cases todo <;> exact not_false
  have hnext : (CardPhase.removing env todo).settled.Index s.count (s.dev i).index := by
    cases todo with
    | nil => trivial
    | cons y todo => exact hindex
  rw [← hsame] at hnext
  have hchange :=
    h.change (i := i) (l := []) hinv (fun hprobing => absurd hprobing hnot) hnext le_rfl
    (fun hne => absurd rfl hne) (fun _ j hj hnum => ?_) nofun
  · rw [List.append_nil] at hchange
    rw [show s.step M (.step i) = s.advance i x
      (.removing env todo) by simp only [step, hp], advance_eq henter]
    exact ⟨hchange, rfl⟩
  · rw [hsame]
    exact h.distinct i j hj.symm (by rw [hp]; trivial) hnum

theorem Inv.advance (h : s.Inv) (M : ModParams) (hok : CardsOk s (.step i)) :
    (s.step M (.step i)).Inv ∧ (s.step M (.step i)).faults = s.faults := by
  have hbusy : (s.dev i).phase.Busy := hok
  cases hp : (s.dev i).phase with
  | idle => rw [hp] at hbusy; exact hbusy.elim
  | bound env => rw [hp] at hbusy; exact hbusy.elim
  | probing env error todo =>
    rw [hp] at hbusy
    cases todo with
    | nil => exact absurd rfl hbusy
    | cons x todo => exact h.advance_probing M hp
  | removing env todo =>
    rw [hp] at hbusy
    cases todo with
    | nil => exact absurd rfl hbusy
    | cons x todo => exact h.advance_removing M hp

/-- What an interrupt enters. -/
theorem irq_enter {d : CardDev} (h : d.Inv) (hirq : .irq ∈ d.held) (slave : Bool) :
    d.enter ([.use .memory, .use .mapping] ++ if slave && d.slave then [.use .slave] else []) =
      (if slave = true ∧ d.slave = true ∧ .slave ∉ d.held then [.use .slave] else [], d) := by
  obtain ⟨hmem, hmap⟩ := h.uses hirq rfl
  have hl : ([.use .memory, .use .mapping] ++ if slave && d.slave then [.use .slave]
    else [] : List (Entry CardRes)) =
      ([CardRes.memory, .mapping] ++ if slave && d.slave then [CardRes.slave]
        else []).map .use := by
    split_ifs <;> rfl
  rw [hl, CardDev.enter_uses]
  congr 1
  by_cases hin : CardRes.slave ∈ d.held <;> cases slave <;> cases d.slave <;> simp [hmem, hmap, hin]

/-- What an open file enters. -/
theorem file_enter {d : CardDev} (hmem : .memory ∈ d.held) (hmap : .mapping ∈ d.held) :
    d.enter [.use .memory, .use .mapping] = ([], d) := by
  rw [show ([.use .memory, .use .mapping] : List (Entry CardRes)) =
    [.memory, .mapping].map .use from rfl, CardDev.enter_uses]
  simp [hmem, hmap]

end Cards

/-- An interrupt with something for the slave finds it unregistered. -/
def CardsStale {n : ℕ} (s : Cards n) : CardEvent n → Prop
  | .irq i slave => slave = true ∧ (s.dev i).slave = true ∧ .slave ∉ (s.dev i).held
  | _ => False

instance {n : ℕ} (s : Cards n) : ∀ e, Decidable (CardsStale s e)
  | .irq i slave =>
    inferInstanceAs (Decidable (slave = true ∧ (s.dev i).slave = true ∧ .slave ∉ (s.dev i).held))
  | .probe _ _ => instDecidableFalse
  | .remove _ => instDecidableFalse
  | .step _ => instDecidableFalse
  | .opens _ => instDecidableFalse
  | .call _ => instDecidableFalse
  | .closes _ => instDecidableFalse

namespace Cards

variable {n : ℕ} {s : Cards n}

/-- An event that enters in the ledger what it uses. -/
theorem Inv.uses (h : s.Inv) {i : Fin n} {d : CardDev} {l l' : List (Entry CardRes)} (hd : d.Inv)
    (hphase : d.phase = (s.dev i).phase) (hindex : d.index = (s.dev i).index)
    (henter : d.enter l = (l', d)) (hl : ∀ e ∈ l', e = .use .slave) :
    (s.enter i d l).Inv ∧ (s.enter i d l).faults = s.faults ++
      l'.map (i, ·) := by
  have heq : s.enter i d l = ⟨s.count, update s.dev i d, s.faults ++ l'.map (i, ·)⟩ := by
    unfold enter
    rw [henter]
  rw [heq]
  refine ⟨h.same hd hphase hindex fun f hf => ?_, rfl⟩
  obtain ⟨e, he, rfl⟩ := List.mem_map.mp hf
  exact hl e he

/-- What one event does: the invariant goes on, and a fault is an interrupt's that finds
the slave unregistered. -/
theorem Inv.step (h : s.Inv) (M : ModParams) {e : CardEvent n} (hok : CardsOk s e) :
    (s.step M e).Inv ∧ (CardsStale s e → ∃ f, (s.step M e).faults = s.faults ++ [f]) ∧
      (¬ CardsStale s e → (s.step M e).faults = s.faults) := by
  -- the card's memory and registers, for a file
  have hfile : ∀ {i : Fin n}, (s.dev i).added = true → ∀ {d : CardDev}, d.held = (s.dev i).held →
      d.enter [.use .memory, .use .mapping] = ([], d) := by
    intro i hadded d hd
    obtain ⟨hmem, hmap⟩ := (h.dev i).uses ((h.dev i).added hadded) rfl
    exact file_enter (hd ▸ hmem) (hd ▸ hmap)
  cases e with
  | probe i env => exact ⟨(h.probe M hok).1, False.elim, fun _ => (h.probe M hok).2⟩
  | remove i => exact ⟨(h.remove M hok).1, False.elim, fun _ => (h.remove M hok).2⟩
  | step i => exact ⟨(h.advance M hok).1, False.elim, fun _ => (h.advance M hok).2⟩
  | irq i slave =>
    obtain ⟨hinv, hfaults⟩ :=
      h.uses (h.dev i) rfl rfl (irq_enter (h.dev i) hok slave) fun e he => by
      split_ifs at he
      · exact List.mem_singleton.mp he
      · exact absurd he List.not_mem_nil
    refine ⟨hinv, fun hstale => ?_, fun hnot => ?_⟩
    · change slave = true ∧ (s.dev i).slave = true ∧ .slave ∉ (s.dev i).held at hstale
      rw [if_pos hstale] at hfaults
      exact ⟨_, hfaults⟩
    · change ¬ (slave = true ∧ (s.dev i).slave = true ∧ .slave ∉ (s.dev i).held) at hnot
      rw [if_neg hnot] at hfaults
      exact hfaults.trans (List.append_nil _)
  | opens i =>
    obtain ⟨hinv, hfaults⟩ := h.uses ((h.dev i).opened hok.1 hok.2) rfl rfl (hfile hok.1 rfl) nofun
    exact ⟨hinv, False.elim, fun _ => hfaults.trans (List.append_nil _)⟩
  | call i =>
    obtain ⟨hinv, hfaults⟩ := h.uses (h.dev i) rfl rfl (hfile ((h.dev i).files hok) rfl) nofun
    exact ⟨hinv, False.elim, fun _ => hfaults.trans (List.append_nil _)⟩
  | closes i =>
    obtain ⟨hinv, hfaults⟩ :=
      h.uses ((h.dev i).closes hok) rfl rfl (hfile ((h.dev i).files hok) rfl) nofun
    exact ⟨hinv, False.elim, fun _ => hfaults.trans (List.append_nil _)⟩

/-- The faults of a run are the interrupts that find the slave unregistered. -/
theorem Inv.along (M : ModParams) :
    ∀ (es : List (CardEvent n)) {s : Cards n}, s.Inv → Along (Cards.step M) CardsOk s es →
    ∃ l, (es.foldl (Cards.step M) s).faults = s.faults ++ l ∧
      (l = [] ↔ Along (Cards.step M) (fun s e => ¬ CardsStale s e) s es)
  | [], s, _, _ => ⟨[], (List.append_nil _).symm, iff_of_true rfl trivial⟩
  | e :: es, s, h, hok => by
    obtain ⟨hinv, hstale, hnot⟩ := h.step M hok.1
    obtain ⟨l, hl, hiff⟩ := Inv.along M es hinv hok.2
    rw [List.foldl_cons]
    by_cases hs : CardsStale s e
    · obtain ⟨f, hf⟩ := hstale hs
      refine ⟨f :: l, ?_, iff_of_false (List.cons_ne_nil f l) fun hall => hall.1 hs⟩
      rw [hl, hf, List.append_assoc, List.singleton_append]
    · refine ⟨l, by rw [hl, hnot hs], hiff.trans ?_⟩
      exact ⟨fun hall => ⟨hs, hall⟩, And.right⟩

theorem reach_inv {M : ModParams} (hr : Runs.Reach (Cards.step M) CardsOk (init n) s) : s.Inv :=
  hr.inv (init_inv n) fun _ _ h hok => (h.step M hok).1

end Cards

/-- What the driver holds for a card in use. -/
def CardEnv.keeps (env : CardEnv) : List CardRes :=
  [.device, .region, .mapping, .memory, .irq, .node, .cdev] ++ env.buffers ++ if env.slave
    then [.slave] else []

/-- `card->devt`, without the major. -/
def CardDev.devt (d : CardDev) : ℕ := d.index * 2

/-- What a removal gives back. -/
theorem remove_ledger (hnode : env.node = .created) (hirq : env.irq ≠ 0) :
    (∀ r, .take r ∉ ledger (ajaPciRemove env)) ∧ ∀ r, .give r ∈ ledger (ajaPciRemove env) ↔
      r ∈ env.keeps := by
  have hnull : ¬ DeviceNode.created = .null := nofun
  have hl : ledger (ajaPciRemove env) = [.use .memory, .use .mapping] ++
      (if env.slave then [.give .slave] else []) ++
      [.give .node, .give .cdev, .give .irq, .give .mapping, .use .memory, .give .region,
        .give .device, .use .memory] ++ env.buffers.map .give ++ [.give .memory] := by
    unfold ajaPciRemove ajaDeviceDestroy ajaCardFree
    rw [hnode, if_neg hnull, if_pos hirq]
    simp only [ledger_append, ledger_give, List.append_assoc]
    split_ifs <;> rfl
  unfold CardEnv.keeps
  constructor
  · intro r
    rw [hl]
    split_ifs <;> simp
  · intro r
    rw [hl]
    split_ifs <;> (simp; tauto)

theorem CardDev.Inv.bound_held {d : CardDev} (h : d.Inv) (hd : d.phase = .bound env) (r : CardRes) :
    r ∈ d.held ↔ r ∈ env.keeps := by
  have hknows := h.knows
  have hfits := h.fits
  have hends := h.ends
  rw [hd] at hknows hfits hends
  obtain ⟨htake, hgive⟩ := remove_ledger hknows.2.2.1 hknows.2.2.2
  exact (hfits.mem_iff hends htake r).trans (hgive r)

/-- Two cards; the first is used and removed while interrupts come in, the last of them
when its slave is unregistered. -/
def twoCards : List (CardEvent 2) :=
  [.probe 0 {}] ++ List.replicate 24 (.step 0) ++
    [.probe 1 { slave := false }, .irq 0 true, .opens 0] ++
    List.replicate 23 (.step 1) ++ [.call 0, .closes 0, .remove 0, .step 0, .step 0, .irq 0 true,
      .step 0, .irq 0 true]

/-- However probes, removals, interrupts and calls interleave, as long as the kernel sees
to its part: nothing is taken twice or before what it needs, given back or used that is
not held, or given back while it is needed, but for a slave that an interrupt finds
unregistered; a device without a card holds nothing, a card in use exactly what it keeps;
and no two cards share a device number. -/
theorem cards_accounted {M : ModParams} {n : ℕ} {s : Cards n}
    (hr : Runs.Reach (Cards.step M) CardsOk (Cards.init n) s) :
    (∀ f ∈ s.faults, f.2 = .use .slave) ∧ (∀ i, Closed CardRes.needs (s.dev i).held) ∧
      (∀ i, (s.dev i).phase = .idle → (s.dev i).held = ∅) ∧
      (∀ i env, (s.dev i).phase = .bound env → ∀ r, r ∈ (s.dev i).held ↔ r ∈ env.keeps) ∧
      ∀ i j, i ≠ j → (s.dev i).phase.Numbered → (s.dev j).phase.Numbered →
        (s.dev i).index < s.count ∧ (s.dev i).devt ≠ (s.dev j).devt ∧
          (s.dev i).devt + 1 ≠ (s.dev j).devt := by
  have h := Cards.reach_inv hr
  refine ⟨h.faults, fun i => (h.dev i).closed, fun i hi => ?_,
    fun i env hi => (h.dev i).bound_held hi, fun i j hne hi hj => ?_⟩
  · have hends := (h.dev i).ends
    rw [hi] at hends
    exact hends
  · have hindex := h.distinct i j hne hi hj
    unfold CardDev.devt
    exact ⟨h.index_lt hi, by omega, by omega⟩

theorem cards_accounted_two :
    let s := twoCards.foldl (Cards.step {}) (Cards.init 2)
    (∀ f ∈ s.faults, f.2 = .use .slave) ∧ s.faults = [(0, .use .slave)] :=
  ⟨(cards_accounted (.of_along twoCards (by decide +kernel))).1, by decide +kernel⟩

/-- A run is in order exactly when no interrupt with something for the slave falls into
the part of a removal that comes after the slave is unregistered; elsewhere one never
finds it so. -/
theorem cards_in_order_iff {M : ModParams} {n : ℕ} {es : List (CardEvent n)}
    (hok : Along (Cards.step M) CardsOk (Cards.init n) es) :
    ((es.foldl (Cards.step M) (Cards.init n)).faults = [] ↔
        Along (Cards.step M) (fun s e => ¬ CardsStale s e) (Cards.init n) es) ∧
      ∀ i b, CardsOk (es.foldl (Cards.step M) (Cards.init n)) (.irq i b) →
        CardsStale (es.foldl (Cards.step M) (Cards.init n)) (.irq i b) →
          ((es.foldl (Cards.step M) (Cards.init n)).dev i).phase.Removing := by
  obtain ⟨l, hl, hiff⟩ := (Cards.init_inv n).along M es hok
  have hinv := Cards.reach_inv (.of_along es hok)
  refine ⟨?_, fun i b hirq hstale => ?_⟩
  · rw [hl]
    exact hiff
  · by_contra hnot
    exact hstale.2.2 ((hinv.dev i).slave_held hirq hstale.2.1 hnot)

/-- Without the last interrupt. -/
theorem cards_in_order_two : (twoCards.dropLast.foldl (Cards.step {}) (Cards.init 2)).faults = [] :=
  (cards_in_order_iff (by decide +kernel)).1.mpr (by decide +kernel)

end AjaDriver
