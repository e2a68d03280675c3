/-
# The FIFO is a queue

The pages pushed and not yet popped, in the order they were pushed: that is
all the FIFO is for, and `FifoOp.queue` is all an operation does to it. The
pool follows it (`Fifo.Follows.step`) although an item that left the FIFO
keeps its old links and is linked again later, as long as nobody pushes a page
that is queued and no allocation resets the links of one; a page may be freed
even while it is queued. `fifo_refines_queue` is what this means for the links.
-/
import AjaDriver.Lib.Runs
import AjaDriver.Pool

namespace AjaDriver

open Intrusive Runs

/-- The operations on the pool between two clears. -/
inductive FifoOp
  | push (p : ℤ)
  | pop
  | alloc (pagect : ℤ)
  | free (p : ℤ)

/-- What an operation does to the pages queued. -/
def FifoOp.queue (q : List ℤ) : FifoOp → List ℤ
  | push p => q ++ [p]
  | pop => q.tail
  | alloc _ | free _ => q

/-- The pool, the pages pushed so far and the pages the pops returned. -/
structure Fifo where
  pool : Pool
  pushed : List ℤ
  popped : List ℤ

namespace Fifo

/-- The pages pushed and not yet popped. -/
def queued (f : Fifo) : List ℤ := f.pushed.drop f.popped.length

/-- After `aja_stream_clear`. -/
def cleared (P : Pool) : Fifo := ⟨P.clear, [], []⟩

def step (f : Fifo) : FifoOp → Fifo
  | .push p => ⟨(f.pool.streamFifoPush p).2, f.pushed ++ [p], f.popped⟩
  | .pop =>
    let r := f.pool.streamFifoPop
    ⟨r.2, f.pushed, if r.1 = -EAGAIN then f.popped else f.popped ++ [r.1]⟩
  | .alloc pagect => { f with pool := (f.pool.streamPageAlloc pagect).2 }
  | .free p => { f with pool := f.pool.streamPageFree p }

/-- What the users of the FIFO keep to. -/
def Ok (f : Fifo) : FifoOp → Prop
  | .push p => (0 ≤ p ∧ p < 64) ∧ p ∉ f.queued
  | .alloc pagect => (f.pool.streamPageAlloc pagect).1 ∉ f.queued
  | .pop | .free _ => True

instance (f : Fifo) : ∀ op, Decidable (f.Ok op)
  | .push _ => inferInstanceAs (Decidable (_ ∧ _))
  | .alloc _ => inferInstanceAs (Decidable (_ ∉ _))
  | .pop | .free _ => instDecidableTrue

/-! ### The pool follows the queue -/

/-- The pool holds the pages `q`, and they are what was pushed behind what was
popped. -/
structure Follows (f : Fifo) (q : List ℤ) : Prop where
  holds : f.pool.Holds q
  pushed : f.pushed = f.popped ++ q

variable {f : Fifo} {q : List ℤ}

theorem Follows.queued_eq (h : f.Follows q) : f.queued = q := by
  unfold queued
  rw [h.pushed, List.drop_left]

theorem follows_cleared (P : Pool) : (cleared P).Follows [] := ⟨P.holds_clear, rfl⟩

/-- What a pop returns, and that it leaves the links of an empty FIFO. -/
theorem Follows.pop (h : f.Follows q) : f.pool.streamFifoPop.1 = q.head?.getD (-EAGAIN) ∧
    (f.pool.streamFifoPop.1 = -EAGAIN ↔ q = []) ∧
      (q = [] → f.pool.streamFifoPop.2.links = f.pool.links) := by
  cases q with
  | nil =>
    refine ⟨h.holds.pop_nil.1, iff_of_true h.holds.pop_nil.1 rfl, fun _ => ?_⟩
    rw [f.pool.links_pop, h.holds.isQueue.pop_nil]
  | cons p q =>
    have hret := h.holds.pop_cons.1
    have hp : 0 ≤ p := (h.holds.valid p (List.mem_cons_self ..)).1
    refine ⟨hret, iff_of_false ?_ (List.cons_ne_nil p q), fun h => absurd h (List.cons_ne_nil p q)⟩
    rw [hret, EAGAIN]
    omega

/-- Every operation does to the pool what it does to the queue. -/
theorem Follows.step (h : f.Follows q) {op : FifoOp} (hok : f.Ok op) :
    (f.step op).Follows (op.queue q) := by
  cases op with
  | push p =>
    obtain ⟨⟨h0, h64⟩, hp⟩ := hok
    rw [h.queued_eq] at hp
    exact ⟨h.holds.push h0 h64 hp, by rw [Fifo.step, FifoOp.queue, h.pushed, List.append_assoc]⟩
  | pop =>
    obtain ⟨hret, heagain, -⟩ := h.pop
    cases q with
    | nil => exact ⟨h.holds.pop_nil.2, h.pushed.trans
      (by rw [Fifo.step, if_pos (heagain.mpr rfl)]; rfl)⟩
    | cons p q =>
      refine ⟨h.holds.pop_cons.2, h.pushed.trans ?_⟩
      rw [Fifo.step, if_neg (mt heagain.mp (List.cons_ne_nil p q)), hret]
      exact List.append_cons ..
  | alloc pagect =>
    rw [Ok, h.queued_eq] at hok
    refine ⟨?_, h.pushed⟩
    rcases f.pool.alloc_cases pagect with ⟨p, -, -, -, hret, htakes⟩ | ⟨-, -, hkeeps⟩
    · exact h.holds.takes htakes (hret ▸ hok)
    · exact h.holds.keeps hkeeps
  | free p => exact ⟨h.holds.free p, h.pushed⟩

/-! ### What this means for the links -/

/-- The links list the pages pushed and not yet popped, and a pop takes the
oldest of them. -/
structure IsFifo (f : Fifo) : Prop where
  /-- `next` lists them from `pfirst` to `plast`, `prev` is its mirror image -/
  links : f.pool.links.IsQueue f.queued
  nodup : f.queued.Nodup
  last_next : ∀ z, f.pool.plast = some z → (f.pool.pagealloc z).next = none
  /-- the items carry the numbers of their pages -/
  pages : f.queued.map f.pool.pageNo = f.queued
  /-- the pages popped are the first ones pushed -/
  order : f.pushed = f.popped ++ f.queued
  pop_ret : f.pool.streamFifoPop.1 = f.queued.head?.getD (-EAGAIN)
  pop_eagain : f.pool.streamFifoPop.1 = -EAGAIN ↔ f.queued = []
  pop_empty : f.queued = [] → f.pool.streamFifoPop.2.links = f.pool.links

theorem Follows.isFifo (h : f.Follows q) : f.IsFifo := by
  have hq := h.queued_eq
  subst hq
  obtain ⟨hret, heagain, hempty⟩ := h.pop
  refine ⟨h.holds.isQueue, h.holds.nodup, fun z hz => ?_, ?_, h.pushed, hret, heagain, hempty⟩
  · exact h.holds.isQueue.chain.last (h.holds.isQueue.last_eq.symm.trans hz)
  · calc f.queued.map f.pool.pageNo = f.queued.map id := List.map_congr_left fun p hp =>
          h.holds.numbered p (h.holds.valid p hp).1 (h.holds.valid p hp).2
      _ = f.queued := List.map_id _

/-- From a clear on, the FIFO is the queue of the pages pushed and not yet
popped, whatever is pushed, popped, allocated and freed in between. -/
theorem fifo_refines_queue (P : Pool) {f : Fifo} (h : Reach step Ok (cleared P) f) : f.IsFifo := by
  have hfollows : f.Follows f.queued := by
    refine h.inv (I := fun f => f.Follows f.queued) (follows_cleared P) fun f op hf hok => ?_
    have hstep := hf.step hok
    rwa [← hstep.queued_eq] at hstep
  exact hfollows.isFifo

/-- Page 0 is pushed, popped and freed, allocated again and pushed behind page 5. -/
theorem fifo_refines_queue_again :
    ([.push 0, .pop, .free 0, .alloc 8, .push 5, .push 0].foldl step
      (cleared ⟨fun i => ⟨none, none, i, false⟩, none, none, 0, []⟩)).pool.links.IsQueue [5, 0] :=
  (fifo_refines_queue ⟨fun i => ⟨none, none, i, false⟩, none, none, 0, []⟩
    (.of_along _ (by decide))).links

end Fifo

end AjaDriver
