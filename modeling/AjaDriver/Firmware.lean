/-
# Loading the firmware

The card's FPGA is programmed through one register: two commands, the bytes of the
firmware one write each, and a reset; between them the driver polls until the FPGA is
ready, until it is done, and until the line counter of the new firmware has moved
eleven times. Whatever the board answers, the polls end, and the load succeeds
exactly when each saw in time what it waits for (`firmware_load_iff`).
-/
import AjaDriver.Ioctls
import Mathlib.Data.List.Induction
import Mathlib.Tactic.SplitIfs

namespace AjaDriver

/-! ### The accesses -/

def ajaFirmwareTimeout : ℕ := 500

/-- What the load does to the card, at offsets of its registers. -/
inductive FwIo
  | ioread32 (off : ℕ) (value : ℕ)
  | iowrite32 (off : ℕ) (value : ℕ)
  | mdelay (ms : ℕ)
  | irqset (val : ℤ)
  deriving DecidableEq, Repr

/-- The card during a load: its firmware, the accesses so far, and the polls among them. -/
structure FwCard where
  fwid : ℤ
  io : List FwIo
  reads : ℕ
  deriving DecidableEq, Repr

namespace FwCard

/-- A poll; `ans n` is what the board answers to the `n`-th one. -/
def ioread32 (ans : ℕ → ℕ) (off : ℕ) (c : FwCard) : ℕ × FwCard :=
  (ans c.reads, { c with io := c.io ++ [.ioread32 off (ans c.reads)], reads := c.reads + 1 })

def iowrite32 (value off : ℕ) (c : FwCard) : FwCard :=
  { c with io := c.io ++ [.iowrite32 off value] }

def mdelay (ms : ℕ) (c : FwCard) : FwCard := { c with io := c.io ++ [.mdelay ms] }

/-- `aja_irqset`, one entry for all its reads and writes of the interrupt registers;
they are no polls. -/
def irqset (val : ℤ) (c : FwCard) : FwCard := { c with io := c.io ++ [.irqset val] }

end FwCard

/-! ### The waits -/

/-- The loop of `aja_firmware_ready_wait` and of `aja_firmware_done_wait`, with
`tries` left: whether it timed out. -/
def firmwareWait (ans : ℕ → ℕ) (stop : ℕ → Bool) : (tries : ℕ) → FwCard → Bool × FwCard
  | 0, c => (true, c)
  | tries + 1, c =>
    let r := c.ioread32 ans 0x44
    if stop r.1 then (false, r.2) else firmwareWait ans stop tries (r.2.mdelay 1)

/-- The program bit is clear. -/
def isReady (v : ℕ) : Bool := v &&& 0x100 = 0

/-- The done bit is set. -/
def isDone (v : ℕ) : Bool := v &&& 0x200 ≠ 0

/-- `aja_firmware_ready_wait`. -/
def firmwareReadyWait (ans : ℕ → ℕ) : FwCard → Bool × FwCard :=
  firmwareWait ans isReady ajaFirmwareTimeout

/-- `aja_firmware_done_wait`. -/
def firmwareDoneWait (ans : ℕ → ℕ) : FwCard → Bool × FwCard :=
  firmwareWait ans isDone ajaFirmwareTimeout

/-- `aja_firmware_upload`. -/
def firmwareUpload (data : List (BitVec 8)) (c : FwCard) : FwCard :=
  data.foldl (fun c b => c.iowrite32 b.toNat 0x44) c

/-- The loop of `aja_alive_wait`: what is left of its counter when it ends. -/
def aliveLoop (ans : ℕ → ℕ) : (i ok v1 : ℕ) → FwCard → ℕ × FwCard
  | 0, _, _, c => (0, c)
  | i + 1, ok, v1, c =>
    let r := c.ioread32 ans 0x70
    if v1 = r.1 then aliveLoop ans i ok v1 (r.2.mdelay 1)
    else if ok = 10 then (i + 1, r.2)
    else aliveLoop ans i (ok + 1) r.1 (r.2.mdelay 33)

/-- `aja_alive_wait`: whether it failed. -/
def aliveWait (ans : ℕ → ℕ) (c : FwCard) : Bool × FwCard :=
  let r := c.ioread32 ans 0x70
  let l := aliveLoop ans ajaFirmwareTimeout 0 r.1 r.2
  (l.1 = 0, l.2)

/-! ### The load -/

/-- The end of a load that failed: no firmware is loaded. -/
def FwCard.bail (c : FwCard) : ℤ × FwCard := (-EBUSY, { c with fwid := 0 })

/-- `aja_firmware_load`. -/
def firmwareLoad (ans : ℕ → ℕ) (id : ℤ) (data : List (BitVec 8)) (c : FwCard) : ℤ × FwCard :=
  let c := { c with fwid := id }.irqset 0
  let c := (c.iowrite32 0x2000000 0x44).iowrite32 0x100 0x44
  let ready := firmwareReadyWait ans c
  if ready.1 then ready.2.bail
  else
    let c := firmwareUpload data (ready.2.mdelay 50)
    let done := firmwareDoneWait ans c
    if done.1 then done.2.bail
    else
      let alive := aliveWait ans (done.2.iowrite32 0x400 0x44)
      if alive.1 then alive.2.bail else (0, alive.2.irqset 1)

/-! ### What is seen of a load -/

/-- The writes, each with its register. -/
def FwIo.written : FwIo → Option (ℕ × ℕ)
  | .iowrite32 off value => some (off, value)
  | _ => none

/-- The calls of `aja_irqset`. -/
def FwIo.irqs : FwIo → Option ℤ
  | .irqset val => some val
  | _ => none

/-- `d` is `c` with the writes `w` and the interrupts set to `v`, one after the other. -/
structure FwCard.Does (c d : FwCard) (w : List (ℕ × ℕ)) (v : List ℤ) : Prop where
  fwid : d.fwid = c.fwid
  written : d.io.filterMap FwIo.written = c.io.filterMap FwIo.written ++ w
  irqs : d.io.filterMap FwIo.irqs = c.io.filterMap FwIo.irqs ++ v

namespace FwCard

variable {c d e : FwCard}

theorem Does.trans {w w' : List (ℕ × ℕ)} {v v' : List ℤ} (h : c.Does d w v) (h' : d.Does e w' v') :
    c.Does e (w ++ w') (v ++ v') where
  fwid := h'.fwid.trans h.fwid
  written := by rw [h'.written, h.written, List.append_assoc]
  irqs := by rw [h'.irqs, h.irqs, List.append_assoc]

/-- Nothing is written. -/
abbrev Waits (c d : FwCard) : Prop := c.Does d [] []

theorem waits_refl (c : FwCard) : c.Waits c :=
  ⟨rfl, (List.append_nil _).symm, (List.append_nil _).symm⟩

theorem does_concat (c : FwCard) (x : FwIo) (n : ℕ) :
    c.Does { c with io := c.io ++ [x], reads := n } x.written.toList x.irqs.toList := by
  refine ⟨rfl, ?_, ?_⟩
  · rw [List.filterMap_append]
    cases x <;> rfl
  · rw [List.filterMap_append]
    cases x <;> rfl

theorem waits_read (ans : ℕ → ℕ) (off : ℕ) (c : FwCard) : c.Waits (c.ioread32 ans off).2 :=
  does_concat c _ _

theorem waits_mdelay (ms : ℕ) (c : FwCard) : c.Waits (c.mdelay ms) :=
  does_concat c (.mdelay ms) c.reads

theorem does_write (value off : ℕ) (c : FwCard) :
    c.Does (c.iowrite32 value off) [(off, value)] [] :=
  does_concat c (.iowrite32 off value) c.reads

theorem does_irqset (val : ℤ) (c : FwCard) : c.Does (c.irqset val) [] [val] :=
  does_concat c (.irqset val) c.reads

theorem does_upload : ∀ (data : List (BitVec 8)) (c : FwCard),
    c.Does (firmwareUpload data c) (data.map fun b => (0x44, b.toNat)) [] ∧
      (firmwareUpload data c).reads = c.reads
  | [], c => ⟨waits_refl c, rfl⟩
  | b :: data, c => by
    obtain ⟨hdoes, hreads⟩ := does_upload data (c.iowrite32 b.toNat 0x44)
    exact ⟨(does_write b.toNat 0x44 c).trans hdoes, hreads⟩

end FwCard

/-! ### The polls -/

/-- The `n`-th poll after poll `k` is the first one with `p`. -/
def FirstAt (p : ℕ → Bool) (ans : ℕ → ℕ) (k n : ℕ) : Prop :=
  (∀ j < n, p (ans (k + j)) = false) ∧ p (ans (k + n)) = true

/-- A wait ends at the first answer it waits for, or it polls as often as it may. -/
theorem firmwareWait_cases (ans : ℕ → ℕ) (stop : ℕ → Bool) : ∀ (tries : ℕ) (c : FwCard),
    let r := firmwareWait ans stop tries c
    c.Waits r.2 ∧
      ((r.1 = false ∧ ∃ n < tries, FirstAt stop ans c.reads n ∧ r.2.reads = c.reads + n + 1) ∨
        (r.1 = true ∧ (∀ n < tries, ¬ FirstAt stop ans c.reads n) ∧ r.2.reads = c.reads + tries))
  | 0, c => ⟨FwCard.waits_refl c, .inr ⟨rfl, nofun, rfl⟩⟩
  | tries + 1, c => by
    intro r
    have hr : r = if stop (ans c.reads) then (false, (c.ioread32 ans 0x44).2)
        else firmwareWait ans stop tries ((c.ioread32 ans 0x44).2.mdelay 1) := rfl
    cases hstop : stop (ans c.reads) with
    | true =>
      rw [hr, if_pos hstop]
      exact ⟨c.waits_read ans 0x44, .inl ⟨rfl, 0, Nat.succ_pos _, ⟨nofun, hstop⟩, rfl⟩⟩
    | false =>
      rw [hr, if_neg (Bool.eq_false_iff.mp hstop)]
      obtain ⟨hwaits, hcases⟩ :=
        firmwareWait_cases ans stop tries ((c.ioread32 ans 0x44).2.mdelay 1)
      refine ⟨((c.waits_read ans 0x44).trans (FwCard.waits_mdelay 1 _)).trans hwaits, ?_⟩
      have hreads : ((c.ioread32 ans 0x44).2.mdelay 1).reads = c.reads + 1 := rfl
      rw [hreads] at hcases
      -- the answers from the next one on
      have hfirst : ∀ n, FirstAt stop ans (c.reads + 1) n ↔ FirstAt stop ans c.reads (n + 1) := by
        intro n
        unfold FirstAt
        rw [show c.reads + 1 + n = c.reads + (n + 1) by omega]
        refine and_congr_left fun _ => ⟨fun h j hj => ?_, fun h j hj => ?_⟩
        · cases j with
          | zero => exact hstop
          | succ j =>
            rw [show c.reads + (j + 1) = c.reads + 1 + j by omega]
            exact h j (by omega)
        · rw [show c.reads + 1 + j = c.reads + (j + 1) by omega]
          exact h (j + 1) (by omega)
      rcases hcases with ⟨hok, n, hn, hat, hend⟩ | ⟨htime, hnone, hend⟩
      · exact .inl ⟨hok, n + 1, by omega, (hfirst n).mp hat, by omega⟩
      · refine .inr ⟨htime, fun n hn hat => ?_, by omega⟩
        cases n with
        | zero =>
          have hzero : stop (ans c.reads) = true := hat.2
          rw [hstop] at hzero
          cases hzero
        | succ n => exact hnone n (by omega) ((hfirst n).mpr hat)

/-- How often the answers change in the `n` polls after poll `k`. -/
def changes (ans : ℕ → ℕ) : (n k : ℕ) → ℕ
  | 0, _ => 0
  | n + 1, k => (if ans k = ans (k + 1) then 0 else 1) + changes ans n (k + 1)

/-- The line counter is alive when it changes eleven times within the polls left. -/
theorem aliveLoop_spec (ans : ℕ → ℕ) :
    ∀ (i : ℕ) {ok k : ℕ} (c : FwCard), ok ≤ 10 → c.reads = k + 1 →
    let l := aliveLoop ans i ok (ans k) c
    c.Waits l.2 ∧ l.2.reads ≤ k + 1 + i ∧ (l.1 ≠ 0 ↔ 11 ≤ ok + changes ans i k)
  | 0, ok, k, c, hok, hk => by
    refine ⟨FwCard.waits_refl c, hk.le, ?_⟩
    unfold aliveLoop changes
    omega
  | i + 1, ok, k, c, hok, hk => by
    intro l
    have hl : l = if ans k = ans (k + 1) then aliveLoop ans i ok (ans k)
      ((c.ioread32 ans 0x70).2.mdelay 1)
        else if ok = 10 then (i + 1, (c.ioread32 ans 0x70).2)
        else aliveLoop ans i (ok + 1) (ans (k + 1)) ((c.ioread32 ans 0x70).2.mdelay 33) := by
      have hread : (c.ioread32 ans 0x70).1 = ans (k + 1) := congrArg ans hk
      rw [← hread]
      rfl
    have hreads : (c.ioread32 ans 0x70).2.reads = k + 1 + 1 := congrArg (· + 1) hk
    rw [hl]
    unfold changes
    split_ifs with hsame hlast
    · obtain ⟨hwaits, hle, hiff⟩ :=
        aliveLoop_spec ans i ((c.ioread32 ans 0x70).2.mdelay 1) hok hreads
      rw [hsame]
      refine ⟨((c.waits_read ans 0x70).trans (FwCard.waits_mdelay 1 _)).trans hwaits, by omega, ?_⟩
      rw [hiff]
      omega
    · refine ⟨c.waits_read ans 0x70, hreads.le.trans (by omega), ?_⟩
      exact iff_of_true (Nat.succ_ne_zero i) (by omega)
    · have hok' : ok + 1 ≤ 10 := by omega
      obtain ⟨hwaits, hle, hiff⟩ :=
        aliveLoop_spec ans i ((c.ioread32 ans 0x70).2.mdelay 33) hok' hreads
      refine ⟨((c.waits_read ans 0x70).trans (FwCard.waits_mdelay 33 _)).trans hwaits, by omega, ?_⟩
      rw [hiff]
      omega

theorem aliveWait_spec (ans : ℕ → ℕ) (c : FwCard) :
    c.Waits (aliveWait ans c).2 ∧ (aliveWait ans c).2.reads ≤ c.reads + 1 + ajaFirmwareTimeout ∧
      ((aliveWait ans c).1 = false ↔ 11 ≤ changes ans ajaFirmwareTimeout c.reads) := by
  obtain ⟨hwaits, hle, hiff⟩ :=
    aliveLoop_spec ans ajaFirmwareTimeout (k := c.reads)
      (c.ioread32 ans 0x70).2 (Nat.zero_le 10) rfl
  rw [Nat.zero_add] at hiff
  refine ⟨(c.waits_read ans 0x70).trans hwaits, hle, ?_⟩
  rw [← hiff]
  exact decide_eq_false_iff_not

/-! ### Loads -/

namespace FwCard

/-- What was written. -/
def written (c : FwCard) : List (ℕ × ℕ) := c.io.filterMap FwIo.written

/-- What the interrupts were set to. -/
def irqs (c : FwCard) : List ℤ := c.io.filterMap FwIo.irqs

end FwCard

/-- The programming mode and the start of the program. -/
def fwStart : List (ℕ × ℕ) := [(0x44, 0x2000000), (0x44, 0x100)]

/-- The bytes, each at the programming register. -/
def fwData (data : List (BitVec 8)) : List (ℕ × ℕ) := data.map fun b => (0x44, b.toNat)

/-- All a load writes: the start, the bytes, and the reset. -/
def fwWrites (data : List (BitVec 8)) : List (ℕ × ℕ) := fwStart ++ fwData data ++ [(0x44, 0x400)]

/-- What the board must answer, from poll `k` on. -/
def Alive (ans : ℕ → ℕ) (k : ℕ) : Prop := 11 ≤ changes ans ajaFirmwareTimeout k

/-- It is ready, done and alive, each in time. -/
def Answers (ans : ℕ → ℕ) (k : ℕ) : Prop :=
  ∃ a < ajaFirmwareTimeout, FirstAt isReady ans k a ∧
    ∃ b < ajaFirmwareTimeout, FirstAt isDone ans (k + a + 1) b ∧ Alive ans (k + a + 1 + b + 1)

/-- What a load writes to a board that does not answer in time, from poll `k` on: it
is never ready, or ready and never done, or both and not alive. -/
inductive Cut (ans : ℕ → ℕ) (data : List (BitVec 8)) (k : ℕ) : List (ℕ × ℕ) → Prop
  | ready (hnone : ∀ a < ajaFirmwareTimeout, ¬ FirstAt isReady ans k a) : Cut ans data k fwStart
  | done {a : ℕ} (ha : a < ajaFirmwareTimeout) (hat : FirstAt isReady ans k a)
      (hnone : ∀ b < ajaFirmwareTimeout, ¬ FirstAt isDone ans (k + a + 1) b) :
      Cut ans data k (fwStart ++ fwData data)
  | alive {a b : ℕ} (ha : a < ajaFirmwareTimeout) (hat : FirstAt isReady ans k a)
      (hb : b < ajaFirmwareTimeout) (hbt : FirstAt isDone ans (k + a + 1) b)
      (hdead : ¬ Alive ans (k + a + 1 + b + 1)) : Cut ans data k (fwWrites data)

theorem fwStart_begins (data : List (BitVec 8)) : fwStart <+: fwWrites data :=
  (List.prefix_append fwStart _).trans (List.prefix_append _ _)

/-- It is a part of what it would have written. -/
theorem Cut.begins {ans : ℕ → ℕ} {data : List (BitVec 8)} {k : ℕ} {w : List (ℕ × ℕ)}
    (h : Cut ans data k w) :
    w <+: fwWrites data := by
  cases h with
  | ready _ => exact fwStart_begins data
  | done _ _ _ => exact List.prefix_append _ _
  | alive _ _ _ _ _ => exact List.prefix_rfl

/-- How a load ends: with the firmware in the card, or without it. -/
structure LoadEnd (ans : ℕ → ℕ) (id : ℤ) (data : List (BitVec 8)) (c : FwCard)
    (r : ℤ × FwCard) : Prop where
  code : r.1 = 0 ∨ r.1 = -EBUSY
  loaded : r.1 = 0 → r.2.fwid = id ∧ r.2.written = c.written ++ fwWrites data ∧
    r.2.irqs = c.irqs ++ [0, 1]
  failed : r.1 = -EBUSY → r.2.fwid = 0 ∧ r.2.irqs = c.irqs ++ [0] ∧
    ∃ w, Cut ans data c.reads w ∧ r.2.written = c.written ++ w
  reads : r.2.reads ≤ c.reads + 3 * ajaFirmwareTimeout + 1

namespace FwCard

variable {ans : ℕ → ℕ} {id : ℤ} {data : List (BitVec 8)} {c d : FwCard}

/-- A load that gives up. -/
theorem Does.bail {w : List (ℕ × ℕ)} (h : { c with fwid := id }.Does d w [0])
    (hcut : Cut ans data c.reads w) (hreads : d.reads ≤ c.reads + 3 * ajaFirmwareTimeout + 1) :
    LoadEnd ans id data c d.bail where
  code := .inr rfl
  loaded hzero := by cases hzero
  failed _ := ⟨rfl, h.irqs, w, hcut, h.written⟩
  reads := hreads

/-- A load that is through. -/
theorem Does.loaded (h : { c with fwid := id }.Does d (fwWrites data) [0])
    (hreads : d.reads ≤ c.reads + 3 * ajaFirmwareTimeout + 1) :
    LoadEnd ans id data c (0, d.irqset 1) where
  code := .inl rfl
  loaded _ := by
    have hall := h.trans (d.does_irqset 1)
    rw [List.append_nil] at hall
    exact ⟨hall.fwid, hall.written, hall.irqs⟩
  failed hfail := by cases hfail
  reads := hreads

end FwCard

theorem FirstAt.unique {p : ℕ → Bool} {ans : ℕ → ℕ} {k n m : ℕ} (h : FirstAt p ans k n)
    (h' : FirstAt p ans k m) :
    n = m := by
  rcases Nat.lt_trichotomy n m with hlt | heq | hgt
  · exact absurd (h.2.symm.trans (h'.1 n hlt)) nofun
  · exact heq
  · exact absurd (h'.2.symm.trans (h.1 m hgt)) nofun

/-! The load, from its last stage to its first. -/

theorem bail_ne (c : FwCard) : c.bail.1 ≠ 0 := show (-EBUSY : ℤ) ≠ 0 by decide

/-- Up to the first wait. -/
def firmwareBegin (id : ℤ) (c : FwCard) : FwCard :=
  (({ c with fwid := id }.irqset 0).iowrite32 0x2000000 0x44).iowrite32 0x100 0x44

/-- From the reset on. -/
def firmwareReset (ans : ℕ → ℕ) (c : FwCard) : ℤ × FwCard :=
  let alive := aliveWait ans (c.iowrite32 0x400 0x44)
  if alive.1 then alive.2.bail else (0, alive.2.irqset 1)

/-- From the bytes on. -/
def firmwareSend (ans : ℕ → ℕ) (data : List (BitVec 8)) (c : FwCard) : ℤ × FwCard :=
  let done := firmwareDoneWait ans (firmwareUpload data (c.mdelay 50))
  if done.1 then done.2.bail else firmwareReset ans done.2

theorem firmwareLoad_eq (ans : ℕ → ℕ) (id : ℤ) (data : List (BitVec 8)) (c : FwCard) :
    firmwareLoad ans id data c =
      if (firmwareReadyWait ans (firmwareBegin id c)).1
        then (firmwareReadyWait ans (firmwareBegin id c)).2.bail
      else firmwareSend ans data (firmwareReadyWait ans (firmwareBegin id c)).2 := rfl

section stages

variable {ans : ℕ → ℕ} {id : ℤ} {data : List (BitVec 8)} {c d : FwCard} {a b : ℕ}

/-- From the reset on, when the board was ready with poll `a` and done with poll `b`. -/
theorem firmwareReset_spec (h : { c with fwid := id }.Does d (fwStart ++ fwData data) [0])
    (ha : a < ajaFirmwareTimeout) (hat : FirstAt isReady ans c.reads a)
    (hb : b < ajaFirmwareTimeout) (hbt : FirstAt isDone ans (c.reads + a + 1) b)
    (hreads : d.reads = c.reads + a + 1 + b + 1) :
    LoadEnd ans id data c (firmwareReset ans d) ∧
      ((firmwareReset ans d).1 = 0 ↔ Alive ans d.reads) := by
  obtain ⟨hwaits, hle, hiff⟩ := aliveWait_spec ans (d.iowrite32 0x400 0x44)
  have hall := (h.trans (d.does_write 0x400 0x44)).trans hwaits
  rw [List.append_nil, List.append_nil, List.append_nil] at hall
  have hle' :
    (aliveWait ans (d.iowrite32 0x400 0x44)).2.reads ≤ c.reads + 3 * ajaFirmwareTimeout + 1 :=
    hle.trans (by change d.reads + 1 + ajaFirmwareTimeout ≤ _; omega)
  unfold firmwareReset
  cases hfail : (aliveWait ans (d.iowrite32 0x400 0x44)).1 with
  | true =>
    have hdead : ¬ Alive ans d.reads :=
      fun halive => absurd ((hiff.mpr halive).symm.trans hfail) nofun
    rw [if_pos hfail]
    exact ⟨hall.bail (.alive ha hat hb hbt (hreads ▸ hdead)) hle', iff_of_false (bail_ne _) hdead⟩
  | false =>
    rw [if_neg (Bool.eq_false_iff.mp hfail)]
    exact ⟨hall.loaded hle', iff_of_true rfl (hiff.mp hfail)⟩

/-- From the bytes on, when the board was ready with poll `a`. -/
theorem firmwareSend_spec (h : { c with fwid := id }.Does d fwStart [0])
    (ha : a < ajaFirmwareTimeout) (hat : FirstAt isReady ans c.reads a)
    (hreads : d.reads = c.reads + a + 1) :
    LoadEnd ans id data c (firmwareSend ans data d) ∧
      ((firmwareSend ans data d).1 = 0 ↔
        ∃ b < ajaFirmwareTimeout, FirstAt isDone ans d.reads b ∧ Alive ans (d.reads + b + 1)) := by
  obtain ⟨hup, hsame⟩ := FwCard.does_upload data (d.mdelay 50)
  obtain ⟨hwaits, hdone⟩ :=
    firmwareWait_cases ans isDone ajaFirmwareTimeout (firmwareUpload data (d.mdelay 50))
  have hall := ((h.trans (FwCard.waits_mdelay 50 d)).trans hup).trans hwaits
  rw [List.append_nil, List.append_nil, List.append_nil, List.append_nil, List.append_nil] at hall
  have hsame' : (firmwareUpload data (d.mdelay 50)).reads = d.reads := hsame
  rw [hsame'] at hdone
  rcases hdone with ⟨hok, b, hb, hbt, hend⟩ | ⟨htime, hnone, hend⟩
  · have heq : firmwareSend ans data d =
      firmwareReset ans (firmwareDoneWait ans (firmwareUpload data (d.mdelay 50))).2 :=
      if_neg (Bool.eq_false_iff.mp hok)
    rw [heq]
    obtain ⟨hload, hiff⟩ :=
      firmwareReset_spec hall ha hat hb (hreads ▸ hbt) (hend.trans (by rw [hreads]))
    refine ⟨hload, hiff.trans ?_⟩
    rw [hend]
    refine ⟨fun halive => ⟨b, hb, hbt, halive⟩, ?_⟩
    rintro ⟨b', -, hbt', halive⟩
    rw [hbt.unique hbt']
    exact halive
  · have heq : firmwareSend ans data d =
        (firmwareDoneWait ans (firmwareUpload data (d.mdelay 50))).2.bail := if_pos htime
    rw [heq]
    refine ⟨hall.bail (.done ha hat (hreads ▸ hnone)) (hend.le.trans (by omega)), ?_⟩
    exact iff_of_false (bail_ne _) fun ⟨b, hb, hbt, _⟩ => hnone b hb hbt

end stages

theorem firmwareLoad_spec (ans : ℕ → ℕ) (id : ℤ) (data : List (BitVec 8)) (c : FwCard) :
    LoadEnd ans id data c (firmwareLoad ans id data c) ∧
      ((firmwareLoad ans id data c).1 = 0 ↔ Answers ans c.reads) := by
  have hstart : { c with fwid := id }.Does (firmwareBegin id c) fwStart [0] :=
    ((FwCard.does_irqset 0 _).trans (FwCard.does_write _ _ _)).trans (FwCard.does_write _ _ _)
  have hfrom : (firmwareBegin id c).reads = c.reads := rfl
  obtain ⟨hwaits, hready⟩ := firmwareWait_cases ans isReady ajaFirmwareTimeout (firmwareBegin id c)
  have hall := hstart.trans hwaits
  rw [List.append_nil, List.append_nil] at hall
  rw [hfrom] at hready
  rw [firmwareLoad_eq]
  unfold Answers firmwareReadyWait
  rcases hready with ⟨hok, a, ha, hat, hend⟩ | ⟨htime, hnone, hend⟩
  · rw [if_neg (Bool.eq_false_iff.mp hok)]
    obtain ⟨hload, hiff⟩ := firmwareSend_spec hall ha hat hend
    refine ⟨hload, hiff.trans ?_⟩
    rw [hend]
    refine ⟨fun hrest => ⟨a, ha, hat, hrest⟩, ?_⟩
    rintro ⟨a', -, hat', hrest⟩
    rw [hat.unique hat']
    exact hrest
  · rw [if_pos htime]
    refine ⟨hall.bail (.ready hnone) (hend.le.trans (by omega)), ?_⟩
    exact iff_of_false (bail_ne _) fun ⟨a, ha, hat, _⟩ => hnone a ha hat

/-- A load answers 0 exactly when the board is ready, done and alive in time. Then its
firmware is in the card and the start, every byte and the reset were written, in order;
otherwise the answer is `-EBUSY`, no firmware is, the interrupts are left off and what
was written is the start, or the start and the bytes, or all, after the wait that timed
out. It never polls more than 1501 times. -/
theorem firmware_load_iff (ans : ℕ → ℕ) (id : ℤ) (data : List (BitVec 8)) (c : FwCard) :
    ((firmwareLoad ans id data c).1 = 0 ↔ Answers ans c.reads) ∧
      LoadEnd ans id data c (firmwareLoad ans id data c) :=
  (firmwareLoad_spec ans id data c).symm

/-! ### The card's calls -/

/-- A load a caller asks for; whether its two copies and its allocation go through. -/
structure FwReq where
  id : ℤ
  data : List (BitVec 8)
  infoCopied : Bool
  allocated : Bool
  dataCopied : Bool
  deriving DecidableEq, Repr

/-- `aja_ioctl_firmware_load`. -/
def ioctlFirmwareLoad (ans : ℕ → ℕ) (q : FwReq) (c : FwCard) : ℤ × FwCard :=
  if q.infoCopied = false then (-ENOMEM, c)
  else if q.allocated = false then (-ENOMEM, c)
  else if q.dataCopied = false then (-ENOMEM, c)
  else firmwareLoad ans q.id q.data c

/-- `aja_ioctl_firmware_queryid`: the answer, and what is put at the caller's address. -/
def ioctlFirmwareQueryid (faults : Bool) (c : FwCard) : ℤ × Option ℤ :=
  if faults then (-EFAULT, none) else (0, some c.fwid)

/-- The calls that reach the firmware or the interrupts. -/
inductive FwCall
  | load (q : FwReq)
  | irqenable (val : ℤ)
  | opened
  deriving DecidableEq, Repr

def FwCall.step (ans : ℕ → ℕ) (c : FwCard) : FwCall → FwCard
  | .load q => (ioctlFirmwareLoad ans q c).2
  | .irqenable val => c.irqset val
  | .opened => c.irqset 1

/-- As `aja_card_create` makes it. -/
def FwCard.init : FwCard := ⟨0, [], 0⟩

/-- The card after these calls. -/
def FwCard.after (ans : ℕ → ℕ) (es : List FwCall) : FwCard := es.foldl (FwCall.step ans) .init

/-- The call has its firmware in the kernel. -/
def FwCall.Reaches : FwCall → Prop
  | .load q => q.infoCopied = true ∧ q.allocated = true ∧ q.dataCopied = true
  | _ => False

/-- The firmware of the last load with one is in the card, whole, or none is. -/
inductive FwCard.Holds (ans : ℕ → ℕ) (es : List FwCall) (c : FwCard) : Prop
  | none (hnone : ∀ e ∈ es, ¬ e.Reaches) (hid : ioctlFirmwareQueryid false c = (0, some 0))
      (hw : c.written = [])
  | loaded (l : List FwCall) (q : FwReq) (l' : List FwCall) (hes : es = l ++ .load q :: l')
      (hq : (FwCall.load q).Reaches) (hl' : ∀ e ∈ l', ¬ e.Reaches)
      (hans : Answers ans (after ans l).reads) (hid : ioctlFirmwareQueryid false c = (0, some q.id))
      (hw : c.written = (after ans l).written ++ fwWrites q.data)
  | lost (l : List FwCall) (q : FwReq) (l' : List FwCall) (hes : es = l ++ .load q :: l')
      (hq : (FwCall.load q).Reaches) (hl' : ∀ e ∈ l', ¬ e.Reaches)
      (hans : ¬ Answers ans (after ans l).reads) (hid : ioctlFirmwareQueryid false c = (0, some 0))
      (hw : ∃ w, w <+: fwWrites q.data ∧ c.written = (after ans l).written ++ w)

/-- A call without a firmware leaves the card's firmware and its programming register. -/
theorem FwCall.step_other {e : FwCall} (he : ¬ e.Reaches) (ans : ℕ → ℕ) (c : FwCard) :
    (e.step ans c).fwid = c.fwid ∧ (e.step ans c).written = c.written := by
  have hirq : ∀ v, (c.irqset v).written = c.written := fun v => by
    have h := (c.does_irqset v).written
    rwa [List.append_nil] at h
  cases e with
  | load q =>
    have hsame : ioctlFirmwareLoad ans q c = (-ENOMEM, c) := by
      unfold ioctlFirmwareLoad
      split_ifs with hinfo halloc hdata
      · rfl
      · rfl
      · rfl
      · exact absurd ⟨Bool.of_not_eq_false hinfo, Bool.of_not_eq_false halloc,
          Bool.of_not_eq_false hdata⟩ he
    rw [show (FwCall.load q).step ans c = c from congrArg Prod.snd hsame]
    exact ⟨rfl, rfl⟩
  | irqenable val => exact ⟨rfl, hirq val⟩
  | opened => exact ⟨rfl, hirq 1⟩

theorem FwCall.step_load {q : FwReq} (hq : (FwCall.load q).Reaches) (ans : ℕ → ℕ) (c : FwCard) :
    (FwCall.load q).step ans c = (firmwareLoad ans q.id q.data c).2 := by
  obtain ⟨hinfo, halloc, hdata⟩ := hq
  have hsame : ioctlFirmwareLoad ans q c = firmwareLoad ans q.id q.data c := by
    unfold ioctlFirmwareLoad
    rw [if_neg (by rw [hinfo]; exact nofun), if_neg (by rw [halloc]; exact nofun),
      if_neg (by rw [hdata]; exact nofun)]
  exact congrArg Prod.snd hsame

namespace FwCard

theorem after_concat (ans : ℕ → ℕ) (es : List FwCall) (e : FwCall) :
    after ans (es ++ [e]) = e.step ans (after ans es) := List.foldl_concat ..

theorem Holds.other {ans : ℕ → ℕ} {es : List FwCall} {e : FwCall} {c d : FwCard}
    (h : c.Holds ans es) (he : ¬ e.Reaches) (hid : d.fwid = c.fwid) (hw : d.written = c.written) :
    d.Holds ans (es ++ [e]) := by
  have hquery : ioctlFirmwareQueryid false d = ioctlFirmwareQueryid false c :=
    congrArg (fun id => (0, some id)) hid
  have hconcat : ∀ {l : List FwCall}, (∀ x ∈ l, ¬ x.Reaches) → ∀ x ∈ l ++ [e], ¬ x.Reaches :=
    fun hl =>
    List.forall_mem_append.mpr ⟨hl, List.forall_mem_singleton.mpr he⟩
  cases h with
  | none hnone hid' hw' => exact .none (hconcat hnone) (hquery.trans hid') (hw.trans hw')
  | loaded l q l' hes hq hl' hans hid' hw' =>
    refine .loaded l q (l' ++ [e]) ?_ hq (hconcat hl') hans (hquery.trans hid') (hw.trans hw')
    rw [hes, List.append_assoc, List.cons_append]
  | lost l q l' hes hq hl' hans hid' hw' =>
    refine .lost l q (l' ++ [e]) ?_ hq (hconcat hl') hans (hquery.trans hid') (hw ▸ hw')
    rw [hes, List.append_assoc, List.cons_append]

end FwCard

/-- Whatever calls came, a query gives the id of the last load that had its firmware, and
that firmware is what was written last, whole; or that load failed, or there was none,
and it gives 0. -/
theorem firmware_queried (ans : ℕ → ℕ) (es : List FwCall) : (FwCard.after ans es).Holds ans es := by
  induction es using List.reverseRecOn with
  | nil => exact .none nofun rfl rfl
  | append_singleton es e ih =>
    rw [FwCard.after_concat]
    by_cases he : e.Reaches
    · cases e with
      | irqenable val => exact he.elim
      | opened => exact he.elim
      | load q =>
        rw [FwCall.step_load he]
        obtain ⟨hload, hiff⟩ := firmwareLoad_spec ans q.id q.data (FwCard.after ans es)
        rcases hload.code with hzero | hbusy
        · obtain ⟨hid, hw, -⟩ := hload.loaded hzero
          exact .loaded es q [] rfl he nofun (hiff.mp hzero)
            (congrArg (fun id => (0, some id)) hid) hw
        · obtain ⟨hid, -, w, hcut, hw⟩ := hload.failed hbusy
          refine .lost es q [] rfl he nofun (fun hans => ?_)
            (congrArg (fun id => (0, some id)) hid) ⟨w, hcut.begins, hw⟩
          exact absurd ((hiff.mpr hans).symm.trans hbusy) (by decide)
    · obtain ⟨hid, hw⟩ := FwCall.step_other he ans (FwCard.after ans es)
      exact ih.other he hid hw

end AjaDriver
