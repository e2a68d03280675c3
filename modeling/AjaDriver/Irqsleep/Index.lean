/-
# The wait queue a sleep uses

`aja_ioctl_irqsleep` takes an `unsigned long`. `IsValidIRQ` and `aja_irqcount` take
an `int` and see its low 32 bits, `irqwait` is indexed with all 64: a number from
`2^32` on passes the check with its low bits and selects a queue far behind the
last (`irqsleep_index_iff`).
-/
import AjaDriver.Irqsleep

namespace AjaDriver

/-- `IsValidIRQ`. -/
def isValidIrq (v : BitVec 32) : Bool :=
  if v.toInt < 0 then false
  else if v.toInt ≥ irqTypes then false
  else true

/-- A use of an index into one of the card's two arrays of interrupt types. -/
inductive IrqUse
  | irqcount (i : ℤ)
  | irqwait (i : ℤ)
  deriving DecidableEq, Repr

def IrqUse.index : IrqUse → ℤ
  | .irqcount i => i
  | .irqwait i => i

/-- `aja_irqcount`: the count and the index used, where `irqcount` is what the
array holds. -/
def ajaIrqcount (irqcount : ℤ → BitVec 64) (type : BitVec 32) : BitVec 64 × List IrqUse :=
  if !isValidIrq type then (0, []) else (irqcount type.toInt, [.irqcount type.toInt])

/-- What a round of the loop finds: the counts, and whether a signal is pending. -/
structure SleepRound where
  irqcount : ℤ → BitVec 64
  pending : Bool

/-- The loop of `aja_ioctl_irqsleep` and what follows it, over the rounds there are
so far: whether the call has returned, and the indices used. -/
def sleepLoop (v cirq : BitVec 64) : List SleepRound → Bool × List IrqUse
  | [] => (false, [])
  | r :: rounds =>
    let c := ajaIrqcount r.irqcount (v.setWidth 32)
    if c.1 = cirq ∧ !r.pending
      then ((sleepLoop v cirq rounds).1, c.2 ++ (sleepLoop v cirq rounds).2)
    else (true, c.2 ++ [.irqwait v.toNat])

/-- `aja_ioctl_irqsleep`: its result, `none` while it sleeps, and the indices used. -/
def ajaIoctlIrqsleep (v : BitVec 64) (irqcount : ℤ → BitVec 64) (rounds : List SleepRound) :
    Option ℤ × List IrqUse :=
  if !isValidIrq (v.setWidth 32) then (some (-1), [])
  else
    let c := ajaIrqcount irqcount (v.setWidth 32)
    let l := sleepLoop v c.1 rounds
    (if l.1 then some 0 else none, c.2 ++ .irqwait v.toNat :: l.2)

/-- The call failed without touching an array, or used one and the same index below
`AJA_IRQ_TYPES`. -/
def SleepSafe (r : Option ℤ × List IrqUse) : Prop :=
  r = (some (-1), []) ∨ ∃ i : ℤ, 0 ≤ i ∧ i < irqTypes ∧ ∀ u ∈ r.2, u.index = i

theorem isValidIrq_iff (v : BitVec 32) : isValidIrq v = true ↔ v.toNat < irqTypes := by
  have hlt := v.isLt
  unfold isValidIrq irqTypes
  rw [BitVec.toInt_eq_toNat_cond]
  split_ifs <;> simp <;> omega

/-- A number that is no int of an interrupt type is refused. -/
theorem irqsleep_refused {v : BitVec 64} (h : ¬ v.toNat % 2 ^ 32 < irqTypes)
    (irqcount : ℤ → BitVec 64) (rounds : List SleepRound) :
    ajaIoctlIrqsleep v irqcount rounds = (some (-1), []) := by
  have hinvalid : isValidIrq (v.setWidth 32) = false := by
    rw [← Bool.not_eq_true, isValidIrq_iff, BitVec.toNat_setWidth]
    exact h
  unfold ajaIoctlIrqsleep
  rw [hinvalid]
  rfl

/-- An index of the counts is the low half of the number, one of the queues all of it. -/
theorem loop_uses {v : BitVec 64} (cirq : BitVec 64) :
    ∀ (rounds : List SleepRound), ∀ u ∈ (sleepLoop v cirq rounds).2,
    u = .irqcount (v.setWidth 32).toInt ∨ u = .irqwait v.toNat
  | [], u, hu => by simp [sleepLoop] at hu
  | r :: rounds, u, hu => by
    have hcount :
        ∀ u ∈ (ajaIrqcount r.irqcount (v.setWidth 32)).2, u = .irqcount (v.setWidth 32).toInt := by
      intro u hu
      unfold ajaIrqcount at hu
      split_ifs at hu
      · exact absurd hu List.not_mem_nil
      · exact List.mem_singleton.mp hu
    unfold sleepLoop at hu
    simp only at hu
    split_ifs at hu
    · rcases List.mem_append.mp hu with hu | hu
      · exact .inl (hcount u hu)
      · exact loop_uses cirq rounds u hu
    · rcases List.mem_append.mp hu with hu | hu
      · exact .inl (hcount u hu)
      · exact .inr (List.mem_singleton.mp hu)

/-- A number of an interrupt type, or one that looks like it, uses both arrays. -/
theorem irqsleep_uses {v : BitVec 64} (h : v.toNat % 2 ^ 32 < irqTypes) (irqcount : ℤ → BitVec 64)
    (rounds : List SleepRound) :
    .irqcount (v.toNat % 2 ^ 32 : ℕ) ∈ (ajaIoctlIrqsleep v irqcount rounds).2 ∧
      .irqwait v.toNat ∈ (ajaIoctlIrqsleep v irqcount rounds).2 ∧
      ∀ u ∈ (ajaIoctlIrqsleep v irqcount rounds).2, u = .irqcount (v.toNat % 2 ^ 32 : ℕ) ∨
      u = .irqwait v.toNat := by
  have hvalid : isValidIrq (v.setWidth 32) = true := by
    rw [isValidIrq_iff, BitVec.toNat_setWidth]
    exact h
  have hint : (v.setWidth 32).toInt = (v.toNat % 2 ^ 32 : ℕ) := by
    unfold irqTypes at h
    rw [BitVec.toInt_eq_toNat_cond, BitVec.toNat_setWidth, if_pos (by omega)]
  have hcount : ajaIrqcount irqcount (v.setWidth 32) =
      (irqcount (v.toNat % 2 ^ 32 : ℕ), [.irqcount (v.toNat % 2 ^ 32 : ℕ)]) := by
    unfold ajaIrqcount
    rw [hvalid, hint]
    rfl
  have huses : (ajaIoctlIrqsleep v irqcount rounds).2 = .irqcount (v.toNat % 2 ^ 32 : ℕ) ::
      .irqwait v.toNat :: (sleepLoop v (irqcount (v.toNat % 2 ^ 32 : ℕ)) rounds).2 := by
    unfold ajaIoctlIrqsleep
    rw [hvalid, hcount]
    rfl
  rw [huses]
  refine ⟨List.mem_cons_self .., List.mem_cons_of_mem _ (List.mem_cons_self ..), fun u hu => ?_⟩
  rcases List.mem_cons.mp hu with rfl | hu
  · exact .inl rfl
  rcases List.mem_cons.mp hu with rfl | hu
  · exact .inr rfl
  · have hloop := loop_uses _ rounds u hu
    rwa [hint] at hloop

/-- A sleep is safe exactly when its argument is not a number from `2^32` on whose
low 32 bits are an interrupt type. -/
theorem irqsleep_index_iff (v : BitVec 64) :
    (∀ irqcount rounds, SleepSafe (ajaIoctlIrqsleep v irqcount rounds)) ↔
      ¬ (2 ^ 32 ≤ v.toNat ∧ v.toNat % 2 ^ 32 < irqTypes) := by
  constructor
  · rintro hsafe ⟨hlarge, hlow⟩
    obtain ⟨hcount, hwait, -⟩ := irqsleep_uses hlow (fun _ => 0) []
    rcases hsafe (fun _ => 0) [] with hfail | ⟨i, -, -, hsame⟩
    · rw [hfail] at hcount
      simp at hcount
    · have hcount' : ((v.toNat % 2 ^ 32 : ℕ) : ℤ) = i := hsame _ hcount
      have hwait' : (v.toNat : ℤ) = i := hsame _ hwait
      unfold irqTypes at hlow
      omega
  · intro hcond irqcount rounds
    by_cases hlow : v.toNat % 2 ^ 32 < irqTypes
    · right
      obtain ⟨-, -, huses⟩ := irqsleep_uses hlow irqcount rounds
      have hmod : v.toNat % 2 ^ 32 = v.toNat :=
        Nat.mod_eq_of_lt (not_le.mp fun hlarge => hcond ⟨hlarge, hlow⟩)
      rw [hmod] at hlow huses
      refine ⟨v.toNat, Int.natCast_nonneg _, by exact_mod_cast hlow, fun u hu => ?_⟩
      rcases huses u hu with rfl | rfl <;> rfl
    · exact .inl (irqsleep_refused hlow irqcount rounds)

/-- `2^32 + 2` is taken for the interrupt type 2, and its queue is sought far behind
the last one. -/
theorem irqsleep_outside :
    IrqUse.irqwait 0x100000002 ∈ (ajaIoctlIrqsleep 0x100000002 (fun _ => 0) []).2 ∧
      ¬ SleepSafe (ajaIoctlIrqsleep 0x100000002 (fun _ => 0) []) := by
  obtain ⟨-, hwait, -⟩ := irqsleep_uses (v := 0x100000002) (by decide) (fun _ => 0) []
  refine ⟨hwait, ?_⟩
  rintro (hfail | ⟨i, -, hi, hsame⟩)
  · rw [hfail] at hwait
    exact absurd hwait List.not_mem_nil
  · have hindex : (0x100000002 : ℤ) = i := hsame _ hwait
    unfold irqTypes at hi
    omega

end AjaDriver
