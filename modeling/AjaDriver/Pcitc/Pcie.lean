/-
# The board behind an SD host

The PCIe board is reached through an SD host, one command an access, and a
command can fail. A read whose command failed gives 0, and that it failed is
stored only where the caller asks for it; the reads of a timecode do not ask.
So a try can be taken although a read of it failed, and this says exactly when
(`reads_done_iff`).
-/
import AjaDriver.Pcitc.Sample

namespace AjaDriver

/-! ### A command -/

/-- What the SD host shows while a command runs: its state, and the polls of the
reset and of the interrupt status. -/
structure SdHost where
  state : BitVec 8
  reset : ℕ → BitVec 8
  status : ℕ → BitVec 16

/-- A register is read until `stop` holds, but no more than `n` times; `none`
when it never did. -/
def sdPoll {w : ℕ} (stop : BitVec w → Bool) (reg : ℕ → BitVec w) : ℕ → ℕ → Option (BitVec w)
  | 0, _ => none
  | n + 1, k => if stop (reg k) then some (reg k) else sdPoll stop reg n (k + 1)

theorem sdPoll_stop {w : ℕ} {stop : BitVec w → Bool} {reg : ℕ → BitVec w} {b : BitVec w} :
    ∀ {n k : ℕ}, sdPoll stop reg n k = some b → stop b
  | 0, _, h => nomatch h
  | n + 1, k, h => by
    unfold sdPoll at h
    by_cases hk : stop (reg k) = true
    · rw [if_pos hk] at h
      rwa [← Option.some.inj h]
    · rw [if_neg hk] at h
      exact sdPoll_stop h

/-- `pcitc_sdrw`: its result and the host registers it wrote. -/
def pcitcSdrw (host : SdHost) (sdcmd port data : ℕ) : ℤ × PcitcLog :=
  let mixcode := port % 256 * 0x10000 + data % 256 + sdcmd
  let log := [PcitcAccess.write32 0x34 0x000F0101]
  let busy := host.state &&& 0x01 ≠ 0
  let log := if busy then log ++ [.write8 0x2F 0x02] else log
  if busy ∧ sdPoll (fun b => b &&& 0x02 = 0) host.reset 100000 0 = none then (-ETIMEDOUT, log)
  else
    let log :=
      log ++ [.write32 0x30 0x000F0001, .write32 0x08 (BitVec.ofNat 32 mixcode), .write8 0x0E 0x1A,
      .write8 0x0F 0x34]
    match sdPoll (fun b => b &&& 0x8001 ≠ 0) host.status 200000 0 with
    | none => (-ETIMEDOUT, log)
    | some b2 =>
      (if b2 &&& 0x8000 ≠ 0 then -EBUSY else if b2 &&& 0x0001 ≠ 0 then 0 else -ENOMEM, log)

/-- The results of `pcitc_sdrw`. -/
inductive SdResult
  | done
  | timedOut
  | busy
  | noMem
  deriving DecidableEq, Repr

def SdResult.code : SdResult → ℤ
  | done => 0
  | timedOut => -ETIMEDOUT
  | busy => -EBUSY
  | noMem => -ENOMEM

theorem SdResult.code_ne_zero (r : SdResult) : r.code ≠ 0 ↔ r ≠ .done := by
  cases r <;> decide

/-- There is no other result; the last of the four needs a status that the poll
does not end with. -/
theorem sdrw_result (host : SdHost) (sdcmd port data : ℕ) :
    ∃ r : SdResult, r ≠ .noMem ∧ (pcitcSdrw host sdcmd port data).1 = r.code := by
  unfold pcitcSdrw
  simp only
  by_cases hreset :
    host.state &&& 0x01 ≠ 0 ∧ sdPoll (fun b => b &&& 0x02 = 0) host.reset 100000 0 = none
  · rw [if_pos hreset]
    exact ⟨.timedOut, by decide, rfl⟩
  · rw [if_neg hreset]
    cases hpoll : sdPoll (fun b => b &&& 0x8001 ≠ 0) host.status 200000 0 with
    | none => exact ⟨.timedOut, by decide, rfl⟩
    | some b2 =>
      have hstop : b2 &&& 0x8001 ≠ 0 := by simpa using sdPoll_stop hpoll
      by_cases hbusy : b2 &&& 0x8000 ≠ 0
      · exact ⟨.busy, by decide, if_pos hbusy⟩
      · have hdone : b2 &&& 0x0001 ≠ 0 := by
          intro hnot
          have hsplit : b2 &&& 0x8001 = (b2 &&& 0x8000) ||| (b2 &&& 0x0001) := by
            rw [← BitVec.and_or_distrib_left]
            rfl
          rw [hsplit, not_not.mp hbusy, hnot] at hstop
          exact hstop (by decide)
        exact ⟨.done, by decide, (if_neg hbusy).trans (if_pos hdone)⟩

/-! ### Reads -/

/-- `pcitc_pcie_read8` and `pcitc_pcie_read32`, when `pcitc_sdrw` returned `ret`
and the data register holds `reg`: what they return, and what they store at
`status` if it is not `NULL`. -/
def pcitcPcieRead {w : ℕ} (ret : ℤ) (reg : BitVec w) : BitVec w × ℤ :=
  if ret ≠ 0 then (0, ret) else (reg, 0)

/-- A board behind an SD host: the result of each access, and what its data
register holds after it. -/
structure PcieBoard where
  ret : ℕ → SdResult
  reg8 : ℕ → ℕ → BitVec 8
  reg32 : ℕ → ℕ → BitVec 32

/-- The reads of `pcitc_pcie_dops`, as the driver makes them: with `status` a
`NULL`. -/
def PcieBoard.bus (b : PcieBoard) : PcitcBus where
  read8 n off := (pcitcPcieRead (b.ret n).code (b.reg8 n off)).1
  read32 n off := (pcitcPcieRead (b.ret n).code (b.reg32 n off)).1

variable {b : PcieBoard}

theorem PcieBoard.read8_failed {n : ℕ} (h : b.ret n ≠ .done) (off : ℕ) : b.bus.read8 n off = 0 := by
  show (pcitcPcieRead _ _).1 = 0
  unfold pcitcPcieRead
  rw [if_pos ((SdResult.code_ne_zero _).mpr h)]

theorem PcieBoard.read8_done {n : ℕ} (h : b.ret n = .done) (off : ℕ) :
    b.bus.read8 n off = b.reg8 n off := by
  show (pcitcPcieRead _ _).1 = _
  rw [h]
  rfl

/-! ### What a timecode was taken from -/

/-- The accesses whose values are in a timecode read with `len` accesses made,
and the two validation reads: counted from the last, which is the frame rate. -/
def takenFrom (more : List ℕ) (len : ℕ) : List ℕ :=
  [len - 1, len - 2, len - 3 - more.length, len - 4 - more.length, len - 5 - more.length]

variable {TC : Type}

/-- A read that returns 0 took its timecode from accesses that succeeded. -/
def PcieBoard.Sound (b : PcieBoard) (more : List ℕ) (r : ℤ × TC × PcitcLog) : Prop :=
  r.1 = 0 → ∀ i ∈ takenFrom more r.2.2.length, b.ret i = .done

/-- In try `t` the validation byte, the timecode and the userbits were read, and
then the frame rate. -/
def PcieBoard.Through (b : PcieBoard) (more : List ℕ) (start t : ℕ) : Prop :=
  (∀ i < 3, b.ret (tryFirst more start t + i) = .done) ∧
    b.ret (tryLast more start t) = .done ∧ b.ret (tryLast more start t + 1) = .done

/-- No failed access in the first try that shows the same validation byte twice,
where one that could not be read shows 0. -/
def PcieBoard.Clean (b : PcieBoard) (vld : ℕ) (more : List ℕ) (start : ℕ) : Prop :=
  ∀ t < readTries, (∀ t' < t, ¬ Agrees b.bus vld more start t') → Agrees b.bus vld more start t →
    b.Through more start t

theorem PcieBoard.through_iff (b : PcieBoard) (more : List ℕ) {start t len : ℕ}
    (hlen : len = tryLast more start t + 2) :
    (∀ i ∈ takenFrom more len, b.ret i = .done) ↔ b.Through more start t := by
  have hlast : tryLast more start t = tryFirst more start t + more.length + 3 := rfl
  have hrate : len - 1 = tryLast more start t + 1 := by omega
  have hvld : len - 2 = tryLast more start t := by omega
  have hubits : len - 3 - more.length = tryFirst more start t + 2 := by omega
  have hcode : len - 4 - more.length = tryFirst more start t + 1 := by omega
  have hvld' : len - 5 - more.length = tryFirst more start t + 0 := by omega
  unfold takenFrom PcieBoard.Through
  rw [hrate, hvld, hubits, hcode, hvld']
  simp only [List.forall_mem_cons, List.not_mem_nil, false_imp_iff, implies_true, and_true]
  constructor
  · rintro ⟨h4, h3, h2, h1, h0⟩
    refine ⟨fun i hi => ?_, h3, h4⟩
    obtain rfl | rfl | rfl : i = 0 ∨ i = 1 ∨ i = 2 := by omega
    · exact h0
    · exact h1
    · exact h2
  · rintro ⟨h, h3, h4⟩
    exact ⟨h4, h3, h 2 (by decide), h 1 (by decide), h 0 (by decide)⟩

variable [Timecode TC]

theorem length_decode (bus : PcitcBus) (tc : TC) {r : Option (BitVec 32 × BitVec 32) × PcitcLog}
    (h : r.1 ≠ none) :
    (pcitcDecode bus tc r).2.2.length = r.2.length + 1 := by
  rcases r with ⟨_ | _, log⟩
  · exact absurd rfl h
  · exact List.length_append

theorem PcieBoard.decode_iff (b : PcieBoard) (vld code ubits : ℕ) (more : List ℕ) (log : PcitcLog)
    (tc : TC) :
    b.Sound more (pcitcDecode b.bus tc (pcitcTries b.bus vld code ubits more readTries log)) ↔
      b.Clean vld more log.length := by
  rcases tries_does b.bus vld code ubits more readTries log with
    ⟨hnot, hnone⟩ | ⟨t, ht, hbefore, hagrees, hsome, hlen⟩
  · constructor
    · intro _ t ht _ hagrees
      exact absurd hagrees (hnot t ht)
    · intro _ hret
      rw [decode_none hnone] at hret
      exact absurd hret (by simp [EAGAIN])
  · have hret := (decode_some b.bus tc hsome).1
    have hlen' := length_decode b.bus tc fun h => Option.some_ne_none _ (hsome.symm.trans h)
    rw [hlen] at hlen'
    have hiff := b.through_iff more hlen'
    constructor
    · intro hsound t' ht' hbefore' hagrees'
      -- there is one first try that agrees
      obtain rfl : t' = t := by
        rcases lt_trichotomy t' t with h | h | h
        · exact absurd hagrees' (hbefore t' h)
        · exact h
        · exact absurd hagrees (hbefore' t h)
      exact hiff.mp (hsound hret)
    · intro hclean _
      exact hiff.mpr (hclean t ht hbefore hagrees)

/-- Both reads take a timecode from failed accesses exactly when the first try
that shows the same validation byte twice was not read through; the reader's
only when the timecode was found valid first. -/
theorem reads_done_iff (b : PcieBoard) (log : PcitcLog) (tc : TC) :
    (b.Sound [] (pcitcReadtcgen b.bus log tc) ↔ b.Clean 0x4B [] log.length) ∧
    (b.Sound [0x18] (pcitcRead b.bus log tc) ↔
      (b.ret log.length = .done → b.reg8 log.length 0x0C &&& 0x10 ≠ 0 →
        b.Clean 0x1A [0x18] (log.length + 1))) := by
  refine ⟨b.decode_iff 0x4B 0x40 0x44 [] log (Timecode.init tc), ?_⟩
  have hlen :
    (log ++ [PcitcAccess.read8 0x0C (b.bus.read8 log.length 0x0C)]).length = log.length + 1 :=
    List.length_append
  unfold pcitcRead
  simp only
  by_cases hvalid : b.bus.read8 log.length 0x0C &&& 0x10 = 0
  · rw [if_pos hvalid]
    constructor
    · intro _ hdone hreg
      rw [PcieBoard.read8_done hdone] at hvalid
      exact absurd hvalid hreg
    · intro _ hret
      exact absurd hret (by simp [ENOTCONN])
  · rw [if_neg hvalid, b.decode_iff, hlen]
    have hdone : b.ret log.length = .done := by
      by_contra hfailed
      rw [PcieBoard.read8_failed hfailed] at hvalid
      exact hvalid (by decide)
    rw [PcieBoard.read8_done hdone] at hvalid
    exact ⟨fun h _ _ => h, fun h => h hdone hvalid⟩

/-- A host that stops answering after `n` accesses. -/
def PcieBoard.lost (n : ℕ) : PcieBoard where
  ret i := if i < n then .done else .timedOut
  reg8 _ _ := 0x10
  reg32 _ _ := 0x01000000

/-- With no access, or only the one at 0x0C, both reads return 0. -/
theorem reads_lost :
    ¬ (PcieBoard.lost 0).Sound [] (pcitcReadtcgen (PcieBoard.lost 0).bus [] (0 : ℕ)) ∧
    ¬ (PcieBoard.lost 1).Sound [0x18] (pcitcRead (PcieBoard.lost 1).bus [] (0 : ℕ)) := by
  constructor
  · intro hsound
    exact absurd (hsound (by decide +kernel) 0 (by decide +kernel)) (by decide)
  · intro hsound
    exact absurd (hsound (by decide +kernel) 1 (by decide +kernel)) (by decide)

end AjaDriver
