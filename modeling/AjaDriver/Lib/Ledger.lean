/-
# What is held, and what it needs

A program takes resources, uses them and gives them back, and some of them need
others as long as they are held. An entry of its ledger `Fits` what is held when
nothing is taken twice or before what it needs, nothing is given back or used that
is not held, and nothing is given back that another one still needs. Lists of
entries compose (`fits_append`), and a list that fits goes on fitting beside
resources it does not touch (`Fits.frame`).
-/
import AjaDriver.Lib.Runs
import Mathlib.Data.Finset.Basic
import Mathlib.Data.Finset.Dedup
import Mathlib.Data.Finset.Lattice.Lemmas

namespace Ledger

open Runs

variable {R : Type*}

inductive Entry (R : Type*)
  | take (r : R)
  | give (r : R)
  | use (r : R)
  deriving DecidableEq, Repr

/-- What it is about. -/
def Entry.on : Entry R → R
  | .take r => r
  | .give r => r
  | .use r => r

/-- All that is needed is held. -/
def Closed (needs : R → Finset R) (h : Finset R) : Prop := ∀ r ∈ h, needs r ⊆ h

theorem Closed.empty (needs : R → Finset R) : Closed needs ∅ :=
  fun _ hr => absurd hr (Finset.notMem_empty _)

variable [DecidableEq R]

/-- What is held after an entry. -/
def Entry.after (h : Finset R) : Entry R → Finset R
  | .take r => insert r h
  | .give r => h.erase r
  | .use _ => h

/-- The entry is in order, when `needs r` is what `r` needs. -/
def Entry.Fits (needs : R → Finset R) (h : Finset R) : Entry R → Prop
  | .take r => r ∉ h ∧ needs r ⊆ h
  | .give r => r ∈ h ∧ ∀ x ∈ h, r ∉ needs x
  | .use r => r ∈ h

instance Entry.decidableFits (needs : R → Finset R) (h : Finset R) :
    ∀ e : Entry R, Decidable (e.Fits needs h)
  | .take r => inferInstanceAs (Decidable (r ∉ h ∧ needs r ⊆ h))
  | .give r => inferInstanceAs (Decidable (r ∈ h ∧ ∀ x ∈ h, r ∉ needs x))
  | .use r => inferInstanceAs (Decidable (r ∈ h))

/-- What is held after all of them. -/
def held (h : Finset R) (l : List (Entry R)) : Finset R := l.foldl Entry.after h

/-- Each fits, one after the other. -/
def Fits (needs : R → Finset R) (h : Finset R) (l : List (Entry R)) : Prop :=
  Along Entry.after (Entry.Fits needs) h l

instance (needs : R → Finset R) (h : Finset R) (l : List (Entry R)) : Decidable (Fits needs h l) :=
  inferInstanceAs (Decidable (Along Entry.after (Entry.Fits needs) h l))

variable {needs : R → Finset R} {h f : Finset R} {l m : List (Entry R)}

theorem Closed.after (hc : Closed needs h) {e : Entry R} (he : e.Fits needs h) :
    Closed needs (e.after h) := by
  cases e with
  | take r =>
    intro x hx
    rcases Finset.mem_insert.mp hx with rfl | hx
    · exact he.2.trans (Finset.subset_insert _ _)
    · exact (hc x hx).trans (Finset.subset_insert _ _)
  | give r =>
    intro x hx y hy
    obtain ⟨-, hmem⟩ := Finset.mem_erase.mp hx
    refine Finset.mem_erase.mpr ⟨?_, hc x hmem hy⟩
    rintro rfl
    exact he.2 x hmem hy
  | use r => exact hc

theorem held_append : held h (l ++ m) = held (held h l) m := List.foldl_append

theorem fits_append : Fits needs h (l ++ m) ↔ Fits needs h l ∧ Fits needs (held h l) m :=
  along_append l m

theorem fits_cons {e : Entry R} :
    Fits needs h (e :: l) ↔ e.Fits needs h ∧ Fits needs (e.after h) l := Iff.rfl

theorem closed_held : ∀ {l : List (Entry R)} {h : Finset R}, Closed needs h → Fits needs h l →
    Closed needs (held h l)
  | [], _, hc, _ => hc
  | e :: l, h, hc, hl =>
    show Closed needs (held (e.after h) l) from closed_held (hc.after hl.1) hl.2

/-! ### Many at once -/

/-- Different resources that are not held, when all they need is. -/
theorem fits_takes : ∀ {l : List R} {h : Finset R}, l.Nodup → (∀ r ∈ l, r ∉ h ∧ needs r ⊆ h) →
    Fits needs h (l.map .take) ∧ held h (l.map .take) = h ∪ l.toFinset
  | [], h, _, _ => ⟨trivial, (Finset.union_empty h).symm⟩
  | r :: l, h, hl, hr => by
    obtain ⟨hnot, hl⟩ := List.nodup_cons.mp hl
    obtain ⟨hfits, hheld⟩ := fits_takes (h := insert r h) hl fun x hx => by
      obtain ⟨hx', hneeds⟩ := hr x (List.mem_cons_of_mem _ hx)
      refine ⟨fun hmem => ?_, hneeds.trans (Finset.subset_insert _ _)⟩
      rcases Finset.mem_insert.mp hmem with rfl | hmem
      · exact hnot hx
      · exact hx' hmem
    refine ⟨⟨hr r List.mem_cons_self, hfits⟩, hheld.trans ?_⟩
    rw [List.toFinset_cons, Finset.union_insert, Finset.insert_union]

/-- Different resources that are held and nothing that is held needs. -/
theorem fits_gives : ∀ {l : List R} {h : Finset R}, l.Nodup →
    (∀ r ∈ l, r ∈ h ∧ ∀ x ∈ h, r ∉ needs x) →
    Fits needs h (l.map .give) ∧ held h (l.map .give) = h \ l.toFinset
  | [], h, _, _ => ⟨trivial, (Finset.sdiff_empty (s := h)).symm⟩
  | r :: l, h, hl, hr => by
    obtain ⟨hnot, hl⟩ := List.nodup_cons.mp hl
    obtain ⟨hfits, hheld⟩ := fits_gives (h := h.erase r) hl fun x hx => by
      obtain ⟨hx', hneeds⟩ := hr x (List.mem_cons_of_mem _ hx)
      refine ⟨Finset.mem_erase.mpr ⟨?_, hx'⟩, fun y hy => hneeds y (Finset.mem_of_mem_erase hy)⟩
      rintro rfl
      exact hnot hx
    refine ⟨⟨hr r List.mem_cons_self, hfits⟩, hheld.trans ?_⟩
    rw [List.toFinset_cons, Finset.sdiff_insert, Finset.erase_sdiff_comm]

/-- What is held when all that follows gives back, and leaves nothing. -/
theorem Fits.mem_iff : ∀ {l : List (Entry R)} {h : Finset R}, Fits needs h l → held h l = ∅ →
    (∀ r, .take r ∉ l) →
    ∀ r, r ∈ h ↔ .give r ∈ l
  | [], h, _, hends, _, r => by
    rw [show h = ∅ from hends]
    exact iff_of_false (Finset.notMem_empty r) List.not_mem_nil
  | e :: l, h, hfits, hends, hgives, r => by
    obtain ⟨he, hl⟩ := fits_cons.mp hfits
    have ih := Fits.mem_iff hl hends (fun x hx => hgives x (List.mem_cons_of_mem e hx)) r
    rw [List.mem_cons, ← ih]
    cases e with
    | take x => exact absurd List.mem_cons_self (hgives x)
    | give x =>
      show r ∈ h ↔ _ ∨ r ∈ h.erase x
      rw [Finset.mem_erase, Entry.give.injEq]
      by_cases hr : r = x
      · exact iff_of_true (hr ▸ he.1) (.inl hr)
      · exact ⟨fun h => .inr ⟨hr, h⟩, fun h => h.elim (fun heq => absurd heq hr) And.right⟩
    | use x => exact ⟨.inr, fun h => h.elim nofun id⟩

/-! ### The frame -/

/-- The entry touches nothing of `f`, and gives nothing back that `f` needs. -/
def Entry.Apart (needs : R → Finset R) (f : Finset R) : Entry R → Prop
  | .take r => r ∉ f
  | .give r => r ∉ f ∧ ∀ x ∈ f, r ∉ needs x
  | .use _ => True

theorem Entry.Fits.frame {e : Entry R} (he : e.Fits needs h) (ha : e.Apart needs f) :
    e.Fits needs (h ∪ f) ∧ e.after (h ∪ f) = e.after h ∪ f := by
  cases e with
  | take r =>
    refine ⟨⟨fun hmem => ?_, he.2.trans Finset.subset_union_left⟩, (Finset.insert_union r h f).symm⟩
    exact (Finset.mem_union.mp hmem).elim he.1 ha
  | give r =>
    refine ⟨⟨Finset.mem_union_left f he.1, fun x hx => ?_⟩, ?_⟩
    · exact (Finset.mem_union.mp hx).elim (he.2 x) (ha.2 x)
    · show (h ∪ f).erase r = h.erase r ∪ f
      rw [Finset.erase_union_distrib, Finset.erase_eq_of_notMem ha.1]
  | use r => exact ⟨Finset.mem_union_left f he, rfl⟩

/-- A list of entries, beside what it does not touch. -/
theorem Fits.frame : ∀ {l : List (Entry R)} {h : Finset R}, Fits needs h l →
    (∀ e ∈ l, e.Apart needs f) →
    Fits needs (h ∪ f) l ∧ held (h ∪ f) l = held h l ∪ f
  | [], _, _, _ => ⟨trivial, rfl⟩
  | e :: l, h, hfits, ha => by
    obtain ⟨he, hl⟩ := fits_cons.mp hfits
    obtain ⟨he', hafter⟩ := he.frame (ha e List.mem_cons_self)
    obtain ⟨hl', hheld⟩ := Fits.frame hl fun x hx => ha x (List.mem_cons_of_mem _ hx)
    rw [← hafter] at hl' hheld
    exact ⟨⟨he', hl'⟩, hheld⟩

/-- What is taken before other entries and given back after them, when they do not touch
it and nothing needs it. -/
theorem Fits.around {l : List R} (hm : Fits needs h m) (hl : l.Nodup)
    (htake : ∀ r ∈ l, r ∉ h ∧ needs r ⊆ h) (hapart : ∀ e ∈ m, e.Apart needs l.toFinset)
    (hout : ∀ r ∈ l, r ∉ held h m ∧ ∀ x, r ∉ needs x) :
    Fits needs h (l.map .take ++ m ++ l.map .give) ∧
      held h (l.map .take ++ m ++ l.map .give) = held h m := by
  obtain ⟨htakes, hheld⟩ := fits_takes hl htake
  obtain ⟨hm', hheld'⟩ := hm.frame hapart
  have hboth : held h (l.map .take ++ m) = held h m ∪ l.toFinset := by
    rw [held_append, hheld, hheld']
  obtain ⟨hgives, hheld''⟩ := fits_gives (h := held h m ∪ l.toFinset) hl fun r hr =>
    ⟨Finset.mem_union_right _ (List.mem_toFinset.mpr hr), fun x _ => (hout r hr).2 x⟩
  refine ⟨fits_append.mpr ⟨fits_append.mpr ⟨htakes, hheld ▸ hm'⟩, hboth ▸ hgives⟩, ?_⟩
  rw [held_append, hboth, hheld'', Finset.union_sdiff_right]
  exact Finset.sdiff_eq_self_of_disjoint (Finset.disjoint_left.mpr fun r hr hr' =>
    (hout r (List.mem_toFinset.mp hr')).1 hr)

end Ledger
