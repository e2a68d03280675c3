/-
# The life of a card

A probe that fails gives back all it took, and the removal of a card all that its probe
took: the ledger of both is in order and nothing is left (`life_fits`), whichever
buffers were refused.
-/
import AjaDriver.Cards
import Mathlib.Data.List.Basic
import Mathlib.Tactic.SplitIfs

namespace AjaDriver

open Ledger

/-! ### The ledger of a life -/

/-- What steps enter in the ledger. -/
def ledger (l : List CardStep) : List (Entry CardRes) := l.flatMap CardStep.entries

variable {M : ModParams} {env : CardEnv}

theorem ledger_append (l m : List CardStep) : ledger (l ++ m) = ledger l ++ ledger m :=
  List.flatMap_append

theorem ledger_take (l : List CardRes) : ledger (l.map .take) = l.map .take := by
  unfold ledger
  rw [List.flatMap_map]
  exact (List.map_eq_flatMap ..).symm

theorem ledger_give (l : List CardRes) : ledger (l.map .give) = l.map .give := by
  unfold ledger
  rw [List.flatMap_map]
  exact (List.map_eq_flatMap ..).symm

theorem buffers_sub (env : CardEnv) : ∀ r ∈ env.buffers, r ∈ dmaRes :=
  fun _ hr => List.mem_of_mem_filter hr

theorem buffers_nodup (env : CardEnv) : env.buffers.Nodup := List.Nodup.filter _ (by decide)

/-- Nothing needs a buffer, and a buffer needs the card's memory. -/
theorem buffer_needs : ∀ r ∈ dmaRes, r.needs = {.memory} ∧ ∀ x : CardRes, r ∉ x.needs := by
  have hmemory : ∀ r ∈ dmaRes, r.needs = {.memory} := by decide
  refine fun r hr => ⟨hmemory r hr, fun x => ?_⟩
  have hx : ∀ y ∈ x.needs, y ∉ dmaRes := by
    cases x <;> decide +revert
  exact fun hneeds => hx r hneeds hr

/-- What is held when the buffers are allocated. -/
def cardBase : Finset CardRes := {.device, .region, .mapping, .memory}

/-- The steps up to there. -/
def cardStart : List CardStep := probeGot ++ probeRead ++ [.create, .drvdata true]

/-- An entry that is about no buffer and leaves the memory. -/
theorem buffers_apart (env : CardEnv) {e : Entry CardRes} (he : e.on ∉ dmaRes ∧ e ≠ .give .memory) :
    e.Apart CardRes.needs env.buffers.toFinset := by
  have hout : e.on ∉ env.buffers.toFinset :=
    fun hin => he.1 (buffers_sub env _ (List.mem_toFinset.mp hin))
  cases e with
  | take r => exact hout
  | give r =>
    refine ⟨hout, fun x hx hr => he.2 ?_⟩
    rw [(buffer_needs x (buffers_sub env x (List.mem_toFinset.mp hx))).1,
      Finset.mem_singleton] at hr
    rw [hr]
  | use r => trivial

/-- A life in which the card gets its memory: the buffers are taken, `m` goes on without
touching them, they are given back, and `n` ends it. -/
theorem buffers_around {m n : List CardStep} (hm : Fits CardRes.needs cardBase (ledger m))
    (happart : ∀ e ∈ ledger m, e.on ∉ dmaRes ∧ e ≠ .give .memory)
    (hheld : ∀ r ∈ held cardBase (ledger m), r ∉ dmaRes)
    (hn : Fits CardRes.needs (held cardBase (ledger m)) (ledger n) ∧
      held (held cardBase (ledger m)) (ledger n) = ∅)
    (env : CardEnv) :
    let l := cardStart ++ (env.buffers.map .take ++ m ++ env.buffers.map .give) ++ n
    Fits CardRes.needs ∅ (ledger l) ∧ held ∅ (ledger l) = ∅ := by
  intro l
  have hneeds : ∀ r ∈ env.buffers, r.needs = {.memory} ∧ ∀ x : CardRes, r ∉ x.needs := fun r hr =>
    buffer_needs r (buffers_sub env r hr)
  have hbase : ∀ r ∈ dmaRes, r ∉ cardBase := by decide
  have hstart : Fits CardRes.needs ∅ (ledger cardStart) ∧ held ∅ (ledger cardStart) = cardBase := by
    decide
  have htake : ∀ r ∈ env.buffers, r ∉ cardBase ∧ r.needs ⊆ cardBase := by
    intro r hr
    rw [(hneeds r hr).1]
    exact ⟨hbase r (buffers_sub env r hr), by decide⟩
  have hout : ∀ r ∈ env.buffers, r ∉ held cardBase (ledger m) ∧ ∀ x : CardRes, r ∉ x.needs :=
    fun r hr =>
    ⟨fun hin => hheld r hin (buffers_sub env r hr), (hneeds r hr).2⟩
  obtain ⟨hfits, heq⟩ :=
    hm.around (buffers_nodup env) htake (fun e he => buffers_apart env (happart e he)) hout
  have hl : ledger l = ledger cardStart ++
      (env.buffers.map .take ++ ledger m ++ env.buffers.map .give) ++ ledger n := by
    unfold l
    rw [ledger_append, ledger_append, ledger_append, ledger_append, ledger_take, ledger_give]
  rw [hl]
  constructor
  · refine fits_append.mpr ⟨fits_append.mpr ⟨hstart.1, ?_⟩, ?_⟩
    · rw [hstart.2]
      exact hfits
    · rw [held_append, hstart.2, heq]
      exact hn.1
  · rw [held_append, held_append, hstart.2, heq]
    exact hn.2

/-- What a card that works goes through between the allocation of its buffers and their
release, from its interrupt to the end of its removal. -/
def CardEnv.work (M : ModParams) (env : CardEnv) : List CardStep :=
  [CardStep.use .memory, .take .irq] ++ ajaDeviceCreate env ++
    (if M.force64 then [CardStep.use .mapping] else []) ++
    (if env.slave then [CardStep.register] else []) ++ [CardStep.use .memory, .use .mapping] ++
    (if env.slave then [CardStep.give .slave] else []) ++
    ajaDeviceDestroy env ++ (if env.irq ≠ 0 then [CardStep.give .irq] else []) ++
    [CardStep.give .mapping, .use .memory, .give .region, .drvdata false, .give .device] ++
    [CardStep.use .memory]

theorem work_ledger (hnode : env.node = .created) (hirq : env.irq ≠ 0) :
    ledger (env.work M) =
      [Entry.use CardRes.memory, .take .irq, .take .node, .use .node, .take .cdev] ++
      (if env.cdevAdd = 0 then [Entry.use CardRes.cdev] else []) ++
      (if M.force64 then [Entry.use CardRes.mapping] else []) ++
      (if env.slave then [Entry.take CardRes.slave] else []) ++
      [Entry.use CardRes.memory, .use .mapping] ++
      (if env.slave then [Entry.give CardRes.slave] else []) ++
      [Entry.give CardRes.node, .give .cdev, .give .irq, .give .mapping, .use .memory,
        .give .region, .give .device, .use .memory] := by
  have hnull : ¬ DeviceNode.created = .null := nofun
  unfold CardEnv.work ajaDeviceCreate ajaDeviceDestroy
  rw [hnode, if_neg hnull, if_pos hirq]
  split_ifs <;> rfl

/-- The ways a probe ends, and the steps of the life it begins. -/
theorem life_cases (M : ModParams) (env : CardEnv) :
    ((ajaPciProbe M env).1 ≠ 0 ∧ env.life M = (ajaPciProbe M env).2 ∧
      ((ajaPciProbe M env).2 ∈ [[], .take .device :: probeErr0,
          [.take .device, .take .region] ++ probeErr1,
          probeGot ++ probeErr2, probeGot ++ probeRead ++ probeErr2] ∨
        (ajaPciProbe M env).2 = cardStart ++
          (env.buffers.map .take ++ [.use .memory, .use .memory] ++ env.buffers.map .give) ++
            .free :: probeErr2)) ∨
      ((ajaPciProbe M env).1 = 0 ∧ env.requestIrq = 0 ∧
        env.life M = cardStart ++ (env.buffers.map .take ++ env.work M ++ env.buffers.map .give) ++
          [.free]) := by
  have hnomem : ¬ (-ENOMEM : ℤ) = 0 := by decide
  -- a probe that fails is a life of its own
  have hfail : (ajaPciProbe M env).1 ≠ 0 → env.life M = (ajaPciProbe M env).2 := fun hne => by
    unfold CardEnv.life
    rw [if_neg hne, List.append_nil]
  by_cases hzero : (ajaPciProbe M env).1 = 0
  · right
    have hlife : env.life M = (ajaPciProbe M env).2 ++ ajaPciRemove env := by
      unfold CardEnv.life
      rw [if_pos hzero]
    rw [hlife]
    refine ⟨hzero, ?_⟩
    revert hzero
    unfold ajaPciProbe
    split_ifs with henable hregion hmapping hlen halloc hirq
    · exact fun hzero => absurd hzero henable
    · exact fun hzero => absurd hzero hnomem
    · exact fun hzero => absurd hzero hnomem
    · exact fun hzero => absurd hzero hnomem
    · exact fun hzero => absurd hzero hnomem
    · exact fun hzero => absurd hzero hirq
    all_goals
      refine fun _ => ⟨not_not.mp hirq, ?_⟩
      unfold CardEnv.work ajaPciRemove ajaCardCreate ajaCardFree cardStart
      simp [*]
  · refine .inl ⟨hzero, hfail hzero, ?_⟩
    revert hzero
    unfold ajaPciProbe
    split_ifs with henable hregion hmapping hlen halloc hirq
    · exact fun _ => .inl (by simp)
    · exact fun _ => .inl (by simp)
    · exact fun _ => .inl (by simp)
    · exact fun _ => .inl (by simp)
    · exact fun _ => .inl (by simp)
    · refine fun _ => .inr ?_
      unfold probeErr3 ajaCardCreate ajaCardFree cardStart
      simp
    all_goals exact fun hzero => absurd rfl hzero

theorem life_fits (M : ModParams) (hs : env.Says) :
    Fits CardRes.needs ∅ (ledger (env.life M)) ∧ held ∅ (ledger (env.life M)) = ∅ := by
  rcases life_cases M env with ⟨-, hlife, hshort | hlong⟩ | ⟨-, hirq, hlife⟩
  · rw [hlife]
    revert hshort
    generalize (ajaPciProbe M env).2 = l
    revert l
    decide
  · rw [hlife, hlong]
    exact buffers_around (by decide) (by decide) (by decide) (by decide) env
  · rw [hlife]
    refine buffers_around ?_ ?_ ?_ ?_ env <;> rw [work_ledger hs.1 (hs.2 hirq)] <;>
      cases M.force64 <;> cases env.slave <;> split_ifs <;> decide

/-! ### The steps -/

/-- All that a probe may do. -/
def probeSteps : List CardStep :=
  [.take .device, .take .region, .take .mapping, .use .mapping, .create, .drvdata true,
    .use .memory, .take .irq, .take .node,
    .use .node, .take .cdev, .cdevAdd, .register] ++ dmaRes.map .take

/-- All that a probe that fails or a removal may do besides. -/
def undoSteps : List CardStep :=
  [.drvdata false, .give .device, .give .region, .give .mapping, .free] ++ dmaRes.map .give

def removeSteps : List CardStep :=
  [.use .memory, .use .mapping, .give .slave, .give .node, .cdevDel, .give .irq] ++ undoSteps

theorem buffers_map (env : CardEnv) (f : CardRes → CardStep) : env.buffers.map f ⊆ dmaRes.map f :=
  List.map_subset f fun r hr => buffers_sub env r hr

theorem create_sub (env : CardEnv) : ajaCardCreate env ⊆ probeSteps := by
  have hbuffers : env.buffers.map .take ⊆ probeSteps :=
    List.Subset.trans (buffers_map env .take) (List.subset_append_right _ _)
  unfold ajaCardCreate
  exact List.append_subset.mpr ⟨by decide, hbuffers⟩

theorem free_sub (env : CardEnv) : ajaCardFree env ⊆ .use .memory :: undoSteps := by
  have hbuffers : env.buffers.map .give ⊆ .use .memory :: undoSteps :=
    List.Subset.trans (buffers_map env .give)
      (List.Subset.trans (List.subset_append_right _ _) (List.subset_cons_self _ _))
  unfold ajaCardFree
  exact List.append_subset.mpr ⟨List.append_subset.mpr ⟨by decide, hbuffers⟩, by decide⟩

theorem deviceCreate_sub (hnode : env.node = .created) : ajaDeviceCreate env ⊆ probeSteps := by
  unfold ajaDeviceCreate
  rw [hnode]
  split_ifs <;> decide

theorem deviceDestroy_sub (env : CardEnv) : ajaDeviceDestroy env ⊆ removeSteps := by
  unfold ajaDeviceDestroy
  split_ifs <;> decide

/-- What a probe that succeeds does. -/
theorem probe_sub (M : ModParams) (hnode : env.node = .created)
    (hzero : (ajaPciProbe M env).1 = 0) :
    (ajaPciProbe M env).2 ⊆ probeSteps ∧ .create ∈ (ajaPciProbe M env).2 ∧
      .drvdata true ∈ (ajaPciProbe M env).2 := by
  have hcreate := create_sub env
  have hdevice := deviceCreate_sub hnode
  have hin : .create ∈ ajaCardCreate env ∧ .drvdata true ∈ ajaCardCreate env := by
    unfold ajaCardCreate
    exact ⟨by simp, by simp⟩
  have hnomem : ¬ (-ENOMEM : ℤ) = 0 := by decide
  revert hzero
  unfold ajaPciProbe
  split_ifs with henable hregion hmapping hlen halloc hirq
  · exact fun hzero => absurd hzero henable
  · exact fun hzero => absurd hzero hnomem
  · exact fun hzero => absurd hzero hnomem
  · exact fun hzero => absurd hzero hnomem
  · exact fun hzero => absurd hzero hnomem
  · exact fun hzero => absurd hzero hirq
  all_goals
    intro _
    refine ⟨?_, by simp [hin.1], by simp [hin.2]⟩
    simp only [List.append_subset]
    exact ⟨⟨⟨⟨⟨⟨by decide, by decide⟩, hcreate⟩, by decide⟩, hdevice⟩, by decide⟩, by decide⟩

/-- A probe that fails undoes what it did. -/
theorem probe_fail_sub (M : ModParams) (hfail : (ajaPciProbe M env).1 ≠ 0) :
    (ajaPciProbe M env).2 ⊆ probeSteps ++ undoSteps := by
  rcases life_cases M env with ⟨-, -, hshort | hlong⟩ | ⟨hzero, -⟩
  · revert hshort
    generalize (ajaPciProbe M env).2 = l
    revert l
    decide
  · have htake : env.buffers.map .take ⊆ probeSteps ++ undoSteps :=
      List.Subset.trans (buffers_map env .take) (by decide)
    have hgive : env.buffers.map .give ⊆ probeSteps ++ undoSteps :=
      List.Subset.trans (buffers_map env .give) (by decide)
    rw [hlong]
    simp only [List.append_subset]
    exact ⟨⟨by decide, ⟨htake, by decide⟩, hgive⟩, by decide⟩
  · exact absurd hzero hfail

theorem probe_all_sub (M : ModParams) (hs : env.Says) :
    (ajaPciProbe M env).2 ⊆ probeSteps ++ undoSteps := by
  by_cases hzero : (ajaPciProbe M env).1 = 0
  · exact List.Subset.trans (probe_sub M hs.1 hzero).1 (List.subset_append_left _ _)
  · exact probe_fail_sub M hzero

theorem remove_sub (env : CardEnv) : ajaPciRemove env ⊆ removeSteps := by
  have hdevice := deviceDestroy_sub env
  have hfree : ajaCardFree env ⊆ removeSteps := List.Subset.trans (free_sub env) (by decide)
  unfold ajaPciRemove
  split_ifs <;>
    (simp only [List.append_subset];
      exact ⟨⟨⟨⟨⟨by decide, by decide⟩, hdevice⟩, by decide⟩, by decide⟩, hfree⟩)

theorem life_sub (M : ModParams) (hs : env.Says) : env.life M ⊆ probeSteps ++ removeSteps := by
  have hprobe := List.Subset.trans (probe_all_sub M hs)
    (show probeSteps ++ undoSteps ⊆ probeSteps ++ removeSteps by decide)
  unfold CardEnv.life
  split_ifs
  · exact List.append_subset.mpr ⟨hprobe,
      List.Subset.trans (remove_sub env) (List.subset_append_right _ _)⟩
  · rw [List.append_nil]
    exact hprobe

end AjaDriver
