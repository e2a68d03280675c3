/-
# Stores into a memory

A memory is a function from addresses to words; `store` writes a list of words at their
addresses, one after the other. An address that is not among them keeps its word
(`store_other`), and where no address comes twice each has its own (`store_mem`).
-/
import Mathlib.Data.List.Nodup
import Mathlib.Logic.Function.Basic

namespace Stores

open Function

variable {A W : Type*} [DecidableEq A]

/-- The memory after the stores `l`, in order. -/
def store (mem : A → W) (l : List (A × W)) : A → W := l.foldl (fun mem p => update mem p.1 p.2) mem

@[simp] theorem store_nil (mem : A → W) : store mem [] = mem := rfl

theorem store_cons (mem : A → W) (p : A × W) (l : List (A × W)) :
    store mem (p :: l) = store (update mem p.1 p.2) l := rfl

theorem store_append (mem : A → W) (l m : List (A × W)) :
    store mem (l ++ m) = store (store mem l) m :=
  List.foldl_append ..

theorem store_other {a : A} :
    ∀ {l : List (A × W)}, (∀ p ∈ l, p.1 ≠ a) → ∀ mem : A → W, store mem l a = mem a
  | [], _, _ => rfl
  | p :: l, h, mem => by
    rw [store_cons, store_other (fun q hq => h q (List.mem_cons_of_mem _ hq)),
      update_of_ne (h p List.mem_cons_self).symm]

theorem store_mem {p : A × W} : ∀ {l : List (A × W)}, (l.map Prod.fst).Nodup → p ∈ l → ∀ mem : A →
    W, store mem l p.1 = p.2
  | q :: l, hn, hp, mem => by
    obtain ⟨hq, hn⟩ := List.nodup_cons.mp hn
    rw [store_cons]
    rcases List.mem_cons.mp hp with hpq | hp
    · have hne : ∀ r ∈ l, r.1 ≠ p.1 := by
        intro r hr heq
        rw [hpq] at heq
        exact hq (heq ▸ List.mem_map_of_mem hr)
      rw [store_other hne, hpq, update_self]
    · exact store_mem hn hp _

end Stores
