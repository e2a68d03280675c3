/-
# Intrusive doubly linked queues

A queue threaded through its own items: every item carries a `next` and a
`prev` link, and two end links name the oldest and the newest item. `push`
appends at the new end, `pop` takes from the old end, `unlink` resets the
links of one item without looking at the ends.

Two levels of what the links may hold:

* `Links.IsQueue L q`: following `next` from the old end lists exactly `q`,
  `prev` is the mirror image, and the new end is the last of `q`. `push` of an
  item outside the queue and `pop` keep it (`IsQueue.push`, `IsQueue.pop_cons`).
* `Links.Safe L S`: the links stay inside `S`, the two ends are null together
  and `next` has no cycle. This is what is left when items are pushed twice or
  unlinked while queued; every operation keeps it whatever its argument.
-/
import Mathlib.Data.List.Nodup
import Mathlib.Data.Set.Finite.Basic
import Mathlib.Logic.Function.Basic
import Mathlib.Logic.Relation

namespace Intrusive

open Function Relation

variable {ν : Type*}

/-! ### Chains -/

/-- Following `next` from `h` lists exactly `l`. -/
def Chain (next : ν → Option ν) : Option ν → List ν → Prop
  | h, [] => h = none
  | h, a :: l => h = some a ∧ Chain next (next a) l

/-- Along `l` every `prev` link names the item before, the first one `b`. -/
def Mirror (prev : ν → Option ν) : Option ν → List ν → Prop
  | _, [] => True
  | b, a :: l => prev a = b ∧ Mirror prev (some a) l

@[simp] theorem chain_nil {next : ν → Option ν} {h : Option ν} :
    Chain next h [] ↔ h = none := Iff.rfl

@[simp] theorem chain_cons {next : ν → Option ν} {h : Option ν} {a : ν} {l : List ν} :
    Chain next h (a :: l) ↔ h = some a ∧ Chain next (next a) l := Iff.rfl

theorem Chain.head {next : ν → Option ν} :
    ∀ {l : List ν} {h : Option ν}, Chain next h l → h = l.head?
  | [], _, hc => hc
  | _ :: _, _, hc => hc.1

/-- A start lists one list only. -/
theorem Chain.unique {next : ν → Option ν} : ∀ {l l' : List ν} {h : Option ν},
    Chain next h l → Chain next h l' → l = l'
  | [], [], _, _, _ => rfl
  | [], b :: l', h, hc, hc' => by rw [hc.head] at hc'; simp at hc'
  | a :: l, [], h, hc, hc' => by rw [hc'.head] at hc; simp at hc
  | a :: l, b :: l', h, hc, hc' => by
    have hab : a = b := by have := hc.1.symm.trans hc'.1; simpa using this
    subst hab
    rw [Chain.unique hc.2 hc'.2]

/-- The links of items outside the list do not matter. -/
theorem Chain.congr {next next' : ν → Option ν} : ∀ {l : List ν} {h : Option ν},
    Chain next h l → (∀ a ∈ l, next' a = next a) → Chain next' h l
  | [], _, hc, _ => hc
  | a :: l, _, hc, he => by
    refine ⟨hc.1, ?_⟩
    rw [he a (List.mem_cons_self ..)]
    exact hc.2.congr fun b hb => he b (List.mem_cons_of_mem _ hb)

theorem Mirror.congr {prev prev' : ν → Option ν} : ∀ {l : List ν} {b : Option ν},
    Mirror prev b l → (∀ a ∈ l, prev' a = prev a) → Mirror prev' b l
  | [], _, _, _ => trivial
  | a :: l, _, hm, he => by
    refine ⟨(he a (List.mem_cons_self ..)).trans hm.1, ?_⟩
    exact hm.2.congr fun b hb => he b (List.mem_cons_of_mem _ hb)

/-- The list from an item on: the chain goes on from any item it lists. -/
theorem Chain.from_mem {next : ν → Option ν} : ∀ {l : List ν} {h : Option ν} {a : ν},
    Chain next h l → a ∈ l → ∃ l', l' <:+ l ∧ Chain next (some a) l'
  | b :: l, h, a, hc, ha => by
    rcases List.mem_cons.mp ha with rfl | ha
    · exact ⟨a :: l, List.suffix_rfl, rfl, hc.2⟩
    · obtain ⟨l', hs, hl'⟩ := hc.2.from_mem ha
      exact ⟨l', hs.trans (List.suffix_cons b l), hl'⟩

/-- A list that ends in null lists no item twice. -/
theorem Chain.nodup {next : ν → Option ν} : ∀ {l : List ν} {h : Option ν}, Chain next h l → l.Nodup
  | [], _, _ => List.nodup_nil
  | a :: l, h, hc => by
    refine List.nodup_cons.mpr ⟨fun ha => ?_, hc.2.nodup⟩
    -- a second `a` would list the same items again, in a shorter list
    obtain ⟨l', hs, hl'⟩ := hc.2.from_mem ha
    have he : a :: l = l' := Chain.unique (h := some a) ⟨rfl, hc.2⟩ hl'
    have := hs.length_le
    rw [← he, List.length_cons] at this
    omega

/-- The last item of a list has no next one. -/
theorem Chain.last {next : ν → Option ν} : ∀ {l : List ν} {h : Option ν} {z : ν}, Chain next h l →
    l.getLast? = some z → next z = none
  | [], _, _, _, hz => by simp at hz
  | [a], _, z, hc, hz => by
    obtain rfl : a = z := by simpa using hz
    exact hc.2
  | _ :: b :: l, _, _, hc, hz => hc.2.last (by simpa using hz)

section Update

variable [DecidableEq ν]

/-- A new item linked behind the last one. -/
theorem Chain.snoc {next : ν → Option ν} {p z : ν} : ∀ {l : List ν} {h : Option ν},
    Chain next h l → p ∉ l → l.getLast? = some z →
      Chain (update (update next z (some p)) p none) h (l ++ [p])
  | [], _, _, _, hz => by simp at hz
  | [a], h, hc, hp, hz => by
    obtain rfl : a = z := by simpa using hz
    have hpa : a ≠ p := fun e => hp (e ▸ List.mem_cons_self ..)
    refine ⟨hc.1, ?_, ?_⟩ <;> simp [hpa]
  | a :: b :: l, h, hc, hp, hz => by
    have hz' : (b :: l).getLast? = some z := by simpa using hz
    have hnd := hc.nodup
    have haz : a ≠ z := by
      rintro rfl
      exact (List.nodup_cons.mp hnd).1 (List.mem_of_getLast? hz')
    have hap : a ≠ p := fun e => hp (e ▸ List.mem_cons_self ..)
    refine ⟨hc.1, ?_⟩
    rw [update_of_ne hap, update_of_ne haz]
    exact hc.2.snoc (fun hb => hp (List.mem_cons_of_mem _ hb)) hz'

theorem Mirror.snoc {prev : ν → Option ν} {p z : ν} : ∀ {l : List ν} {b : Option ν},
    Mirror prev b l → p ∉ l → l.getLast? = some z → Mirror (update prev p (some z)) b (l ++ [p])
  | [], _, _, _, hz => by simp at hz
  | [a], b, hm, hp, hz => by
    obtain rfl : a = z := by simpa using hz
    have hpa : a ≠ p := fun e => hp (e ▸ List.mem_cons_self ..)
    exact ⟨by rw [update_of_ne hpa]; exact hm.1, by simp, trivial⟩
  | a :: c :: l, b, hm, hp, hz => by
    have hap : a ≠ p := fun e => hp (e ▸ List.mem_cons_self ..)
    exact ⟨by rw [update_of_ne hap]; exact hm.1,
      hm.2.snoc (fun hb => hp (List.mem_cons_of_mem _ hb)) (by simpa using hz)⟩

end Update

/-! ### The queue -/

/-- The links of a queue: one pair an item, and the two ends. -/
structure Links (ν : Type*) where
  next : ν → Option ν
  prev : ν → Option ν
  first : Option ν
  last : Option ν

namespace Links

/-- The links thread exactly the items `q`, oldest first. -/
structure IsQueue (L : Links ν) (q : List ν) : Prop where
  chain : Chain L.next L.first q
  mirror : Mirror L.prev none q
  last_eq : L.last = q.getLast?

theorem IsQueue.nodup {L : Links ν} {q : List ν} (h : L.IsQueue q) : q.Nodup := h.chain.nodup

theorem IsQueue.first_eq {L : Links ν} {q : List ν} (h : L.IsQueue q) : L.first = q.head? :=
  h.chain.head

theorem IsQueue.unique {L : Links ν} {q q' : List ν} (h : L.IsQueue q) (h' : L.IsQueue q') :
    q = q' :=
  h.chain.unique h'.chain

/-- Links that agree on the queued items thread the same queue. -/
theorem IsQueue.congr {L L' : Links ν} {q : List ν} (h : L.IsQueue q)
    (hn : ∀ a ∈ q, L'.next a = L.next a) (hp : ∀ a ∈ q, L'.prev a = L.prev a)
    (hf : L'.first = L.first) (hl : L'.last = L.last) : L'.IsQueue q :=
  ⟨hf ▸ h.chain.congr hn, h.mirror.congr hp, hl.trans h.last_eq⟩

variable [DecidableEq ν]

/-- Append `p` at the new end. -/
def push (L : Links ν) (p : ν) : Links ν :=
  match L.last with
  | none => ⟨update L.next p none, update L.prev p none, some p, some p⟩
  | some z => ⟨update (update L.next z (some p)) p none, update L.prev p (some z), L.first, some p⟩

/-- Take the oldest item. -/
def pop (L : Links ν) : Option ν × Links ν :=
  match L.first with
  | none => (none, L)
  | some p =>
    match L.next p with
    | none => (some p, { L with first := none, last := none })
    | some n => (some p, { L with prev := update L.prev n none, first := some n })

/-- Reset the links of `p`, wherever it is. -/
def unlink (L : Links ν) (p : ν) : Links ν :=
  { L with next := update L.next p none, prev := update L.prev p none }

theorem IsQueue.push {L : Links ν} {q : List ν} (h : L.IsQueue q) {p : ν} (hp : p ∉ q) :
    (L.push p).IsQueue (q ++ [p]) := by
  have hl := h.last_eq
  unfold Links.push
  cases hz : q.getLast? with
  | none =>
    obtain rfl : q = [] := by simpa using hz
    rw [hl, hz]
    exact ⟨⟨rfl, by simp⟩, ⟨by simp, trivial⟩, by simp⟩
  | some z =>
    rw [hl, hz]
    exact ⟨h.chain.snoc hp hz, h.mirror.snoc hp hz, by simp⟩

/-- There is nothing to take. -/
theorem pop_of_nil {L : Links ν} (h : Chain L.next L.first []) : L.pop = (none, L) := by
  unfold Links.pop
  rw [chain_nil.mp h]

/-- What is taken and what is left is decided by the `next` links. -/
theorem pop_of_cons {L : Links ν} {p : ν} {q : List ν} (h : Chain L.next L.first (p :: q)) :
    L.pop.1 = some p ∧ Chain L.pop.2.next L.pop.2.first q := by
  obtain ⟨hf, hc⟩ := h
  unfold Links.pop
  rw [hf]
  simp only
  cases q with
  | nil =>
    rw [chain_nil.mp hc]
    exact ⟨rfl, rfl⟩
  | cons n q =>
    rw [hc.1]
    exact ⟨rfl, rfl, hc.2⟩

theorem IsQueue.pop_nil {L : Links ν} (h : L.IsQueue []) : L.pop = (none, L) := pop_of_nil h.chain

/-- The oldest item leaves, the rest stays in order. -/
theorem IsQueue.pop_cons {L : Links ν} {p : ν} {q : List ν} (h : L.IsQueue (p :: q)) :
    L.pop.1 = some p ∧ L.pop.2.IsQueue q := by
  obtain ⟨hf, hc⟩ := h.chain
  unfold Links.pop
  rw [hf]
  simp only
  cases q with
  | nil =>
    rw [chain_nil.mp hc]
    exact ⟨rfl, rfl, trivial, rfl⟩
  | cons n q =>
    have hn : n ∉ q := (List.nodup_cons.mp hc.nodup).1
    rw [hc.1]
    refine ⟨rfl, ⟨rfl, hc.2⟩, ⟨by simp, ?_⟩, ?_⟩
    · apply h.mirror.2.2.congr
      intro a ha
      have han : a ≠ n := by rintro rfl; exact hn ha
      exact update_of_ne han ..
    · simpa using h.last_eq

theorem IsQueue.unlink {L : Links ν} {q : List ν} (h : L.IsQueue q) {p : ν} (hp : p ∉ q) :
    (L.unlink p).IsQueue q := by
  have hne : ∀ a ∈ q, a ≠ p := by rintro a ha rfl; exact hp ha
  exact h.congr (fun a ha => update_of_ne (hne a ha) ..)
    (fun a ha => update_of_ne (hne a ha) ..) rfl rfl

end Links

/-! ### Cycles -/

/-- Following `next` from an item never comes back to it. -/
def Acyclic (next : ν → Option ν) : Prop := ∀ a, ¬ TransGen (fun x y => next x = some y) a a

theorem acyclic_const_none : Acyclic fun _ : ν => none := by
  intro a h
  obtain ⟨b, hb, -⟩ := TransGen.head'_iff.mp h
  simp at hb

/-- Fewer links make no new cycle. -/
theorem Acyclic.mono {next next' : ν → Option ν} (h : Acyclic next)
    (hle : ∀ a b, next' a = some b → next a = some b) : Acyclic next' :=
  fun a ha => h a (TransGen.mono (fun x y hxy => hle x y hxy) a a ha)

/-- On finitely many items links without a cycle come to an end. -/
theorem Acyclic.wellFounded_of_finite {next : ν → Option ν} (h : Acyclic next) {S : Set ν}
    (hS : S.Finite) :
    WellFounded fun b a : S => TransGen (fun x y => next x = some y) (a : ν) b := by
  have : Finite S := hS
  have : IsTrans S fun b a : S => TransGen (fun x y => next x = some y) (a : ν) b :=
    ⟨fun _ _ _ hcb hba => hba.trans hcb⟩
  have : Std.Irrefl fun b a : S => TransGen (fun x y => next x = some y) (a : ν) b := ⟨fun a => h a⟩
  exact Finite.wellFounded_of_trans_of_irrefl _

/-- A path of the new links that leaves from a sink does not exist, and any
other path is one of the old links unless it ends in the sink. -/
theorem Acyclic.link [DecidableEq ν] {next : ν → Option ν} (h : Acyclic next) (z p : ν) :
    Acyclic (update (update next z (some p)) p none) := by
  set next' := update (update next z (some p)) p none with hnext'
  have hsink : ∀ y, next' p ≠ some y := by simp [hnext']
  have hedge : ∀ x y, next' x = some y → y = p ∨ next x = some y := by
    intro x y hxy
    by_cases hxp : x = p
    · subst hxp; exact absurd hxy (hsink y)
    · rw [hnext', update_of_ne hxp] at hxy
      by_cases hxz : x = z
      · subst hxz; left; simpa using hxy.symm
      · right; rwa [update_of_ne hxz] at hxy
  have hpath : ∀ x y, TransGen (fun x y => next' x = some y) x y →
      y = p ∨ TransGen (fun x y => next x = some y) x y := by
    intro x y hxy
    induction hxy with
    | single e => exact (hedge _ _ e).imp_right TransGen.single
    | tail _ e ih =>
      rcases hedge _ _ e with rfl | e'
      · exact Or.inl rfl
      · rcases ih with rfl | ih
        · exact absurd e (hsink _)
        · exact Or.inr (ih.tail e')
  intro a ha
  rcases hpath a a ha with rfl | ha'
  · obtain ⟨b, hb, -⟩ := TransGen.head'_iff.mp ha
    exact hsink b hb
  · exact h a ha'

namespace Links

/-- The links stay inside `S`, the ends are null together and `next` has no
cycle. -/
structure Safe (L : Links ν) (S : Set ν) : Prop where
  ends : L.first = none ↔ L.last = none
  first_mem : ∀ a, L.first = some a → a ∈ S
  last_mem : ∀ a, L.last = some a → a ∈ S
  next_mem : ∀ a b, L.next a = some b → b ∈ S
  acyclic : Acyclic L.next

theorem safe_empty (S : Set ν) (prev : ν → Option ν) : Safe ⟨fun _ => none, prev, none, none⟩ S :=
  ⟨by simp, by simp, by simp, by simp, acyclic_const_none⟩

/-- Only `next` and the ends matter. -/
theorem Safe.congr {L L' : Links ν} {S : Set ν} (h : L.Safe S)
    (hn : ∀ a b, L'.next a = some b → L.next a = some b) (hf : L'.first = L.first)
    (hl : L'.last = L.last) : L'.Safe S :=
  ⟨by rw [hf, hl]; exact h.ends, by rw [hf]; exact h.first_mem, by rw [hl]; exact h.last_mem,
    fun a b e => h.next_mem a b (hn a b e), h.acyclic.mono hn⟩

variable [DecidableEq ν]

theorem Safe.unlink {L : Links ν} {S : Set ν} (h : L.Safe S) (p : ν) : (L.unlink p).Safe S := by
  refine h.congr (fun a b e => ?_) rfl rfl
  by_cases ha : a = p
  · subst ha; simp [Links.unlink] at e
  · simpa [Links.unlink, ha] using e

theorem Safe.push {L : Links ν} {S : Set ν} (h : L.Safe S) {p : ν} (hp : p ∈ S) :
    (L.push p).Safe S := by
  unfold Links.push
  cases hz : L.last with
  | none =>
    have hu := h.unlink p
    exact ⟨by simp, by simp [hp], by simp [hp], hu.next_mem, hu.acyclic⟩
  | some z =>
    have hf : L.first ≠ none := fun e => by simp [h.ends.mp e] at hz
    refine ⟨by simp [hf], h.first_mem, by simp [hp], fun a b e => ?_, h.acyclic.link z p⟩
    simp only [update_apply] at e
    split_ifs at e with h1 h2
    · simp only [Option.some.injEq] at e; exact e ▸ hp
    · exact h.next_mem a b e

theorem Safe.pop {L : Links ν} {S : Set ν} (h : L.Safe S) : L.pop.2.Safe S := by
  unfold Links.pop
  cases hf : L.first with
  | none => exact h
  | some p =>
    simp only
    cases hn : L.next p with
    | none => exact ⟨by simp, by simp, by simp, h.next_mem, h.acyclic⟩
    | some n =>
      have hl : L.last ≠ none := fun e => by simp [h.ends.mpr e] at hf
      exact ⟨by simp [hl], by simpa using h.next_mem p n hn, h.last_mem, h.next_mem, h.acyclic⟩

omit [DecidableEq ν] in
/-- Safe links of finitely many items list some of them, oldest first. -/
theorem Safe.exists_chain {L : Links ν} {S : Set ν} (hS : S.Finite) (h : L.Safe S) :
    ∃ q, Chain L.next L.first q ∧ ∀ p ∈ q, p ∈ S := by
  have hwf := h.acyclic.wellFounded_of_finite hS
  -- from every item of `S` on there is a list
  have hfrom : ∀ a : S, ∃ q, Chain L.next (some a) q ∧ ∀ p ∈ q, p ∈ S := by
    intro a
    induction a using hwf.induction with
    | _ a ih =>
      cases hn : L.next a with
      | none => exact ⟨[a], ⟨rfl, hn⟩, by simp⟩
      | some b =>
        have hb : b ∈ S := h.next_mem a b hn
        obtain ⟨q, hq, hmem⟩ := ih ⟨b, hb⟩ (.single hn)
        refine ⟨a :: q, ⟨rfl, ?_⟩, List.forall_mem_cons.mpr ⟨a.2, hmem⟩⟩
        rw [hn]
        exact hq
  cases hf : L.first with
  | none => exact ⟨[], rfl, by simp⟩
  | some a => exact hfrom ⟨a, h.first_mem a hf⟩

end Links

end Intrusive
