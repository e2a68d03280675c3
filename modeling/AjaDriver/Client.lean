/-
# A card and its client

`Sys` is a card together with what its client has done since the stream was
initialized: the pages it holds, the pages it pushed and the pages it popped,
in order. A well-behaved client (`Client`) frees and pushes only pages it
holds; it may allocate, pop, set metadata and change the speed as it likes,
and any interrupt may come between two of its calls.

The invariant `Sys.Inv` says who owns the pages: no page is held, queued and
waiting at a channel at the same time, and every owned page is in use.
`Moves` says what one step does to the pages, one constructor a way; every
result about runs is derived from `Inv.step` by cases on it.
-/
import AjaDriver.Engine.Interrupt
import AjaDriver.Lib.Runs

namespace AjaDriver

open Function Word Pool Card

variable {TC : Type}

/-! ### The system -/

/-- A card and its client's record. -/
structure Sys (TC : Type) where
  card : Card TC
  held : List ℤ
  pushed : List ℤ
  popped : List ℤ

/-- A run begins with `STREAM_INIT`, whatever the card was doing before; what
is written to the card is recorded from here on. -/
def Sys.init (c : Card TC) (pid : ℤ) (i : StreamInit) : Sys TC where
  card := { streamInit c pid i with io := [] }
  held := []
  pushed := []
  popped := []

/-- A stream initialized on a new card. -/
abbrev Sys.start (flags : BitVec 32) (pagect chans : ℤ) : Sys ℕ :=
  Sys.init (Card.new false false) 0 ⟨pagect, flags, chans, 0⟩

/-- A new frame, with nothing on the wires. -/
abbrev blankFrame : FrameIrq ℕ := ⟨false, 0, 0, 0, 0, (0, 0), (0, 0), 0, 0, none⟩

variable [Timecode TC]

/-- The pages the client holds after an operation that returned `r`. -/
def heldAfter (held : List ℤ) (r : ℤ) : Op TC → List ℤ
  | .pageAlloc => if 0 ≤ r then r :: held else held
  | .fifoPop => if 0 ≤ r then r :: held else held
  | .pageFree p => held.erase p
  | .fifoPush p => if r = 0 then held.erase p else held
  | _ => held

/-- The pages the client pushed. -/
def pushedAfter (pushed : List ℤ) (r : ℤ) : Op TC → List ℤ
  | .fifoPush p => if r = 0 then pushed ++ [p] else pushed
  | _ => pushed

/-- The pages the client popped. -/
def poppedAfter (popped : List ℤ) (r : ℤ) : Op TC → List ℤ
  | .fifoPop => if 0 ≤ r then popped ++ [r] else popped
  | _ => popped

/-- One operation. -/
def Sys.step (M : ModParams) (s : Sys TC) (op : Op TC) : Sys TC where
  card := (exec M s.card op).2
  held := heldAfter s.held (exec M s.card op).1 op
  pushed := pushedAfter s.pushed (exec M s.card op).1 op
  popped := poppedAfter s.popped (exec M s.card op).1 op

/-- The operations of a run: no second `STREAM_INIT`, and the client frees
and pushes only pages it holds. -/
def Client (s : Sys TC) : Op TC → Prop
  | .streamInit _ _ => False
  | .pageFree p => p ∈ s.held
  | .fifoPush p => p ∈ s.held
  | _ => True

instance (s : Sys TC) : ∀ op, Decidable (Client s op)
  | .streamInit _ _ => instDecidableFalse
  | .pageFree p | .fifoPush p => inferInstanceAs (Decidable (p ∈ s.held))
  | .streamStart _ | .streamStop _ | .release _ | .getmeta _ | .setmeta _ _ | .pageAlloc | .fifoPop
    | .setspeed _
  | .settrig _ | .aframeAdd _ | .timecodeSetflags _ | .timecodeClrflags _ | .timecodeSet _
    | .frame _ =>
    instDecidableTrue

/-! ### Ownership -/

/-- The pages owned by the client, the FIFO `q` and the channels. -/
def Sys.owned (s : Sys TC) (q : List ℤ) : List ℤ := s.held ++ (q ++ s.card.lastPages)

/-- A stream of direction `m` and `k` channels, whose FIFO holds `q`: nothing
is owned twice, and what is owned is in use. -/
structure Sys.Inv (m : Mode) (k : ℕ) (s : Sys TC) (q : List ℤ) : Prop where
  mode : m.Of s.card.stream.flags
  chans : s.card.stream.chans = k
  pos : 0 < k
  two : k ≤ 2
  pagect : s.card.stream.pagect ≤ 64
  holds : s.card.stream.pool.Holds q
  ranged : wrap s.card.stream.pool.fifo = s.card.stream.pool.fifo
  typed : s.card.Typed m
  nodup : (s.owned q).Nodup
  inuse : ∀ p ∈ s.owned q, s.card.stream.pool.inuse p = true
  valid : ∀ p ∈ s.owned q, 0 ≤ p ∧ p < 64

omit [Timecode TC] in
/-- The invariant holds after `STREAM_INIT`. -/
theorem Sys.init_inv (c : Card TC) (pid : ℤ) {i : StreamInit} {m : Mode} (hm : m.Of i.flags) :
    (Sys.init c pid i).Inv m (clampChans i.chans).toNat [] := by
  have hs : (Sys.init c pid i).card.stream = _ := stream_streamInit c pid i
  have hpos := one_le_clampChans i.chans
  have htwo := clampChans_le i.chans
  have htype : ∀ n, 0 ≤ n → n < 2 → ((Sys.init c pid i).card.stream.last n).type = 0 := by
    intro n h0 h2
    rw [hs]
    show (if 0 ≤ n ∧ n < (ajaMaxchans : ℤ) then (⟨0, 0⟩ : LastPage) else c.stream.last n).type = 0
    rw [if_pos ⟨h0, h2⟩]
  have hown : (Sys.init c pid i).owned [] = [] := by
    unfold Sys.owned lastPages
    rw [pending_zero (htype 0 le_rfl (by decide)), pending_zero (htype 1 (by decide) (by decide))]
    rfl
  refine ⟨?_, ?_, by omega, by omega, ?_, ?_, ?_, fun n h0 h2 => Or.inl (htype n h0 h2), ?_, ?_, ?_⟩
  · rw [hs]; exact hm
  · rw [hs]
    show clampChans i.chans = _
    omega
  · rw [hs]
    show (if i.pagect > (ajaMaxpages : ℤ) then (ajaMaxpages : ℤ) else i.pagect) ≤ 64
    simp only [ajaMaxpages]
    split_ifs <;> omega
  · rw [hs]; exact c.stream.pool.holds_clear
  · rw [hs]; rfl
  · rw [hown]; exact List.nodup_nil
  · rw [hown]; simp
  · rw [hown]; simp

end AjaDriver
