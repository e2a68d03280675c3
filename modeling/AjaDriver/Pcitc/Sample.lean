/-
# Timecodes read from a running board

The board replaces its timecode and userbits together and counts that in a
validation byte; the driver reads them in separate accesses and takes them when
the byte was the same before and after. With fewer than 256 replacements in a
try, what is taken was on the board at one instant of the try, and nothing is
taken exactly when each try saw a replacement (`samples_untorn`).
-/
import AjaDriver.Pcitc
import AjaDriver.Lib.Snapshot
import Mathlib.Data.List.Basic
import Mathlib.Tactic.Ring

namespace AjaDriver

open Snapshot

variable {bus : PcitcBus} {vld code ubits : ℕ} {more : List ℕ}

/-! ### The tries -/

theorem length_reads (more : List ℕ) (log : PcitcLog) :
    (more.foldl (fun log off => log ++ [.read8 off (bus.read8 log.length off)]) log).length =
      log.length + more.length := by
  induction more generalizing log with
  | nil => rfl
  | cons off more ih =>
    rw [List.foldl_cons, ih, List.length_append, List.length_cons]
    simp
    omega

/-- The number of accesses of a try. -/
def tryLength (more : List ℕ) : ℕ := more.length + 4

/-- The first access of try `t`, when the tries begin at `start`. -/
def tryFirst (more : List ℕ) (start t : ℕ) : ℕ := start + tryLength more * t

/-- The last one. -/
def tryLast (more : List ℕ) (start t : ℕ) : ℕ := tryFirst more start t + more.length + 3

/-- Try `t` finds the same validation byte twice. -/
def Agrees (bus : PcitcBus) (vld : ℕ) (more : List ℕ) (start t : ℕ) : Prop :=
  bus.read8 (tryFirst more start t) vld = bus.read8 (tryLast more start t) vld

theorem tryFirst_succ (start t : ℕ) :
    tryFirst more (start + tryLength more) t = tryFirst more start (t + 1) := by
  unfold tryFirst
  ring

theorem agrees_succ (start t : ℕ) :
    Agrees bus vld more (start + tryLength more) t ↔ Agrees bus vld more start (t + 1) := by
  unfold Agrees tryLast
  rw [tryFirst_succ]

variable (bus vld code ubits more) in
/-- The tries end with the first one that agrees. -/
theorem tries_does : ∀ (n : ℕ) (log : PcitcLog),
    (∀ t < n, ¬ Agrees bus vld more log.length t) ∧
      (pcitcTries bus vld code ubits more n log).1 = none ∨
      ∃ t < n, (∀ t' < t, ¬ Agrees bus vld more log.length t') ∧ Agrees bus vld more log.length t ∧
        (pcitcTries bus vld code ubits more n log).1 =
          some (bus.read32 (tryFirst more log.length t + 1) code,
            bus.read32 (tryFirst more log.length t + 2) ubits) ∧
        (pcitcTries bus vld code ubits more n log).2.length = tryLast more log.length t + 1
  | 0, log => .inl ⟨fun t ht => absurd ht (Nat.not_lt_zero t), rfl⟩
  | n + 1, log => by
    set d1 := bus.read8 log.length vld with hd1
    set log1 := log ++ [PcitcAccess.read8 vld d1]
    set tcode := bus.read32 log1.length code
    set log2 := log1 ++ [PcitcAccess.read32 code tcode]
    set bits := bus.read32 log2.length ubits
    set log3 := log2 ++ [PcitcAccess.read32 ubits bits]
    set log4 := more.foldl (fun log off => log ++ [.read8 off (bus.read8 log.length off)]) log3
    set d2 := bus.read8 log4.length vld
    set log5 := log4 ++ [PcitcAccess.read8 vld d2]
    have hstep : pcitcTries bus vld code ubits more (n + 1) log =
        if d1 = d2 then (some (tcode, bits), log5)
          else pcitcTries bus vld code ubits more n log5 := rfl
    have h1 : log1.length = tryFirst more log.length 0 + 1 := List.length_append
    have h2 : log2.length = tryFirst more log.length 0 + 2 :=
      List.length_append.trans (congrArg (· + 1) h1)
    have h3 : log3.length = tryFirst more log.length 0 + 3 :=
      List.length_append.trans (congrArg (· + 1) h2)
    have h4 : log4.length = tryLast more log.length 0 := by
      rw [length_reads, h3]
      unfold tryLast
      omega
    have h5 : log5.length = tryLast more log.length 0 + 1 :=
      List.length_append.trans (congrArg (· + 1) h4)
    have hsame : d1 = d2 ↔ Agrees bus vld more log.length 0 := by
      unfold Agrees
      rw [← h4]
      exact Iff.rfl
    rw [hstep]
    by_cases hagrees : Agrees bus vld more log.length 0
    · rw [if_pos (hsame.mpr hagrees)]
      exact .inr ⟨0, Nat.succ_pos n, fun t ht => absurd ht (Nat.not_lt_zero t),
        hagrees, by rw [← h1, ← h2], h5⟩
    · rw [if_neg (mt hsame.mp hagrees)]
      have hnext : log5.length = log.length + tryLength more := by
        rw [h5]
        unfold tryLast tryFirst tryLength
        omega
      have hbefore : ∀ t, (∀ t' < t, ¬ Agrees bus vld more (log.length + tryLength more) t') →
          ∀ t' < t + 1, ¬ Agrees bus vld more log.length t' := by
        intro t h t' ht'
        cases t' with
        | zero => exact hagrees
        | succ t' =>
          rw [← agrees_succ]
          exact h t' (by omega)
      have hrest := tries_does n log5
      rw [hnext] at hrest
      rcases hrest with ⟨hall, hnone⟩ | ⟨t, ht, hall, hag, hsome, hlen⟩
      · exact .inl ⟨hbefore n hall, hnone⟩
      · refine .inr ⟨t + 1, by omega, hbefore t hall, (agrees_succ ..).mp hag, ?_, ?_⟩
        · rw [hsome, tryFirst_succ]
        · rw [hlen]
          unfold tryLast
          rw [tryFirst_succ]

/-! ### The board -/

/-- What the board replaces together; its flags, which no read uses, are left
out. -/
structure LtcSample where
  timecode : BitVec 32
  userbits : BitVec 32

/-- A board that runs by itself: `ver n` is the number of replacements before
access `n`. -/
structure LtcBoard where
  sample : ℕ → LtcSample
  vld : BitVec 8
  ver : ℕ → ℕ

/-- The registers at `vld`, `code` and `ubits` show the board: its words, and the
validation byte, which counts the replacements. -/
structure LtcBoard.ShownAt (b : LtcBoard) (bus : PcitcBus) (vld code ubits : ℕ) : Prop where
  mono : Monotone b.ver
  vld : ∀ n, bus.read8 n vld = b.vld + BitVec.ofNat 8 (b.ver n)
  code : ∀ n, bus.read32 n code = (b.sample (b.ver n)).timecode
  ubits : ∀ n, bus.read32 n ubits = (b.sample (b.ver n)).userbits

/-- A replacement falls between the first and the last access of try `t`. -/
def LtcBoard.Updated (b : LtcBoard) (more : List ℕ) (start t : ℕ) : Prop :=
  b.ver (tryFirst more start t) < b.ver (tryLast more start t)

/-- Fewer than 256 fall inside each try. -/
def LtcBoard.Slow (b : LtcBoard) (more : List ℕ) (start : ℕ) : Prop :=
  ∀ t < readTries, b.ver (tryLast more start t) < b.ver (tryFirst more start t) + 256

theorem LtcBoard.ShownAt.agrees_iff {b : LtcBoard} (h : b.ShownAt bus vld code ubits) {start t : ℕ}
    (hslow : b.ver (tryLast more start t) < b.ver (tryFirst more start t) + 256) :
    Agrees bus vld more start t ↔ ¬ b.Updated more start t := by
  unfold Agrees LtcBoard.Updated
  rw [h.vld, h.vld]
  have hd : Distinct 256 fun i => b.vld + BitVec.ofNat 8 i := distinct_counter 8 b.vld
  have hle : tryFirst more start t ≤ tryLast more start t := by unfold tryLast; omega
  exact hd.stamp_eq_iff h.mono hle hslow

variable {TC : Type} [Timecode TC]

/-- The timecode is what the board held at one instant of the try that agreed. -/
def LtcBoard.Held (b : LtcBoard) (bus : PcitcBus) (vld : ℕ) (more : List ℕ) (start : ℕ) (tc : TC) :
    Prop :=
  ∃ t < readTries, (∀ t' < t, ¬ Agrees bus vld more start t') ∧ Agrees bus vld more start t ∧
    ∃ n, tryFirst more start t ≤ n ∧ n ≤ tryLast more start t ∧
      tc = Timecode.fromSmpte ⟨(b.sample (b.ver n)).timecode, (b.sample (b.ver n)).userbits,
        pcitcRate (bus.read8 (tryLast more start t + 1) 0x0D)⟩

theorem decode_none {tc : TC} {r : Option (BitVec 32 × BitVec 32) × PcitcLog} (h : r.1 = none) :
    pcitcDecode bus tc r = (-EAGAIN, tc, r.2) := by
  obtain ⟨_, log⟩ := r
  obtain rfl := h
  rfl

variable (bus) in
theorem decode_some (tc : TC) {r : Option (BitVec 32 × BitVec 32) × PcitcLog}
    {tcode bits : BitVec 32} (h : r.1 = some (tcode, bits)) :
    (pcitcDecode bus tc r).1 = 0 ∧
      (pcitcDecode bus tc r).2.1 = Timecode.fromSmpte
        ⟨tcode, bits, pcitcRate (bus.read8 r.2.length 0x0D)⟩ := by
  obtain ⟨_, log⟩ := r
  obtain rfl := h
  exact ⟨rfl, rfl⟩

/-- The end of a read: what is decoded was on the board, or each try saw a
replacement. -/
theorem LtcBoard.ShownAt.decode {b : LtcBoard} (h : b.ShownAt bus vld code ubits) {log : PcitcLog}
    (hslow : b.Slow more log.length) (tc : TC) :
    ((pcitcDecode bus tc (pcitcTries bus vld code ubits more readTries log)).1 = 0 →
      b.Held bus vld more log.length
        (pcitcDecode bus tc (pcitcTries bus vld code ubits more readTries log)).2.1) ∧
    ((pcitcDecode bus tc (pcitcTries bus vld code ubits more readTries log)).1 = -EAGAIN ∧
        (pcitcDecode bus tc (pcitcTries bus vld code ubits more readTries log)).2.1 = tc ↔
      ∀ t < readTries, b.Updated more log.length t) := by
  rcases tries_does bus vld code ubits more readTries log with
    ⟨hall, hnone⟩ | ⟨t, ht, hall, hag, hsome, hlen⟩
  · rw [decode_none hnone]
    refine ⟨fun h0 => by simp [EAGAIN] at h0, fun _ t ht => ?_, fun _ => ⟨rfl, rfl⟩⟩
    by_contra hnot
    exact hall t ht ((h.agrees_iff (hslow t ht)).mpr hnot)
  · obtain ⟨hret, htc⟩ := decode_some bus tc hsome
    have hstill := (h.agrees_iff (hslow t ht)).mp hag
    constructor
    · -- both words were read in the version of the try's first access
      intro _
      refine ⟨t, ht, hall, hag, tryFirst more log.length t + 1,
        Nat.le_succ _, by unfold tryLast; omega, ?_⟩
      have hword : ∀ i, i ≤ more.length + 3 →
          b.ver (tryFirst more log.length t + i) = b.ver (tryFirst more log.length t) := fun i hi =>
        ver_between h.mono (Nat.le_add_right _ i)
          (show _ ≤ tryLast more log.length t by unfold tryLast; omega) hstill
      rw [htc, hlen, h.code, h.ubits, hword 1 (by omega), hword 2 (by omega)]
    · rw [hret]
      exact ⟨fun h0 => by simp [EAGAIN] at h0, fun hupd => absurd (hupd t ht) hstill⟩

/-- A timecode read from the generator or from the reader was on the board at
one instant, and there is none exactly when no try could see it at rest. -/
theorem samples_untorn {gen ltc : LtcBoard} (hgen : gen.ShownAt bus 0x4B 0x40 0x44)
    (hltc : ltc.ShownAt bus 0x1A 0x10 0x14) {log : PcitcLog} (hslow : gen.Slow [] log.length)
    (hslow' : ltc.Slow [0x18] (log.length + 1)) (tc : TC) :
    (((pcitcReadtcgen bus log tc).1 = 0 →
        gen.Held bus 0x4B [] log.length (pcitcReadtcgen bus log tc).2.1) ∧
      ((pcitcReadtcgen bus log tc).1 = -EAGAIN ∧
          (pcitcReadtcgen bus log tc).2.1 = Timecode.init tc ↔
        ∀ t < readTries, gen.Updated [] log.length t)) ∧
    ((pcitcRead bus log tc).1 = 0 →
      ltc.Held bus 0x1A [0x18] (log.length + 1) (pcitcRead bus log tc).2.1) ∧
    ((pcitcRead bus log tc).1 = -EAGAIN ∧ (pcitcRead bus log tc).2.1 = Timecode.init tc ↔
      bus.read8 log.length 0x0C &&& 0x10 ≠ 0 ∧
        ∀ t < readTries, ltc.Updated [0x18] (log.length + 1) t) := by
  refine ⟨hgen.decode hslow (Timecode.init tc), ?_⟩
  unfold pcitcRead
  simp only
  by_cases hvalid : bus.read8 log.length 0x0C &&& 0x10 = 0
  · rw [if_pos hvalid]
    exact ⟨fun h0 => absurd h0 (by simp [ENOTCONN]),
      fun h0 => absurd h0.1 (by simp [ENOTCONN, EAGAIN]), fun h0 => absurd hvalid h0.1⟩
  · rw [if_neg hvalid]
    have hlen :
      (log ++ [PcitcAccess.read8 0x0C (bus.read8 log.length 0x0C)]).length = log.length + 1 :=
      List.length_append
    rw [← hlen] at hslow' ⊢
    obtain ⟨hheld, hagain⟩ := hltc.decode hslow' (Timecode.init tc)
    exact ⟨hheld, hagain.trans (and_iff_right hvalid).symm⟩

/-- A board that replaces its timecode before every tenth access. -/
def tickingBoard : LtcBoard := ⟨fun i => ⟨BitVec.ofNat 32 i, 0⟩, 0, fun n => n / 10⟩

/-- Reader and generator both show it. -/
def tickingBus : PcitcBus where
  read8 n off := if off = 0x4B ∨ off = 0x1A then BitVec.ofNat 8 (n / 10) else 0x10
  read32 n off := if off = 0x40 ∨ off = 0x10 then BitVec.ofNat 32 (n / 10) else 0

theorem ticking_shown {vld code ubits : ℕ} (hvld : vld = 0x4B ∨ vld = 0x1A)
    (hcode : code = 0x40 ∨ code = 0x10) (hubits : ubits ≠ 0x40 ∧ ubits ≠ 0x10) :
    tickingBoard.ShownAt tickingBus vld code ubits where
  mono _ _ hab := Nat.div_le_div_right hab
  vld _ := (if_pos hvld).trans (BitVec.zero_add _).symm
  code _ := if_pos hcode
  ubits _ := if_neg (not_or.mpr hubits)

theorem ticking_slow (more : List ℕ) (start : ℕ) (hlen : more.length ≤ 1) :
    tickingBoard.Slow more start := by
  intro t ht
  unfold tryLast tickingBoard
  simp only
  omega

/-- A read of the generator that begins just before a replacement. -/
theorem samples_untorn_ticking :
    tickingBoard.Held tickingBus 0x4B [] 8
      (pcitcReadtcgen tickingBus (List.replicate 8 (.read8 0 0)) (0 : ℕ)).2.1 := by
  have huntorn :=
    @samples_untorn tickingBus ℕ _ _ _ (ticking_shown (.inl rfl) (.inl rfl) (by decide))
    (ticking_shown (.inr rfl) (.inr rfl) (by decide))
    (List.replicate 8 (.read8 0 0)) (ticking_slow _ _ (by decide)) (ticking_slow _ _ (by decide)) 0
  exact huntorn.1.1 (by decide +kernel)

end AjaDriver
