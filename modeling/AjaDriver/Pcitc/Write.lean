/-
# A register write, on both boards

The PCI board takes a word in one little-endian store. The PCIe board takes it
a byte at a time: `pcitc_pcie_write32` shifts the value and packs offset and
byte into one command word by addition, which nothing carries out of
(`sdWord_bytes`). If the board does what the command words say, the registers
end the same (`pcie_write32_agrees`), and a write that fails leaves the bytes
before it stored.
-/
import AjaDriver.Pcitc.Pcie

namespace AjaDriver

open Function

/-! ### The PCI board -/

/-- The registers, by their offset. -/
abbrev RegFile := ℕ → BitVec 8

/-- The low `n` bytes of `val`, stored from `off` on, the lowest first. -/
def RegFile.storeLow (file : RegFile) (off : ℕ) (val : BitVec 32) (n : ℕ) : RegFile := fun o =>
  if off ≤ o ∧ o < off + n then (val >>> (8 * (o - off))).setWidth 8 else file o

/-- `pcitc_pci_write8`. -/
def pcitcPciWrite8 (file : RegFile) (off : ℕ) (val : BitVec 8) : ℤ × RegFile :=
  (0, update file off val)

/-- `pcitc_pci_write32`. -/
def pcitcPciWrite32 (file : RegFile) (off : ℕ) (val : BitVec 32) : ℤ × RegFile :=
  (0, file.storeLow off val 4)

/-! ### The PCIe board -/

/-- What a board behind an SD host makes of its registers: `after file host log`
is what is left of `file` by a command that wrote `log` to the host. -/
structure SdBoard where
  after : RegFile → SdHost → PcitcLog → RegFile

variable (board : SdBoard)

/-- `pcitc_sdrw`, with the registers it leaves. -/
def sdrwOn (host : SdHost) (file : RegFile) (sdcmd port data : ℕ) : ℤ × RegFile :=
  let r := pcitcSdrw host sdcmd port data
  (r.1, board.after file host r.2)

/-- `pcitc_pcie_write8`. -/
def pcitcPcieWrite8 (host : SdHost) (file : RegFile) (off : ℕ) (val : BitVec 8) : ℤ × RegFile :=
  sdrwOn board host file 0x84000000 off val.toNat

/-- The loop of `pcitc_pcie_write32`, with `n` bytes left; `host i` is the host
at the `i`-th command from here on. -/
def pcieWriteLoop : ℕ → (ℕ → SdHost) → RegFile → ℕ → BitVec 32 → ℤ × RegFile
  | 0, _, file, _, _ => (0, file)
  | n + 1, host, file, off, val =>
    let r := sdrwOn board (host 0) file 0x84000000 off val.toNat
    if r.1 ≠ 0 then r else pcieWriteLoop n (fun i => host (i + 1)) r.2 (off + 1) (val >>> 8)

/-- `pcitc_pcie_write32`. -/
def pcitcPcieWrite32 (host : ℕ → SdHost) (file : RegFile) (off : ℕ) (val : BitVec 32) :
    ℤ × RegFile :=
  pcieWriteLoop board 4 host file off val

/-! ### The command word -/

/-- The write a command word asks for: byte 3 is the command, 0x84 to write a
byte, byte 2 the offset and byte 0 the data. -/
def sdWord (w : BitVec 32) (file : RegFile) : RegFile :=
  if w.extractLsb' 24 8 = 0x84 then update file (w.extractLsb' 16 8).toNat (w.extractLsb' 0 8)
    else file

/-- A command that succeeds does the write of the word it put in the host. -/
def SdBoard.Performs : Prop := ∀ (file : RegFile) (host : SdHost) (sdcmd port data : ℕ),
  (pcitcSdrw host sdcmd port data).1 = 0 →
    ∀ w, .write32 0x08 w ∈ (pcitcSdrw host sdcmd port data).2 →
    board.after file host (pcitcSdrw host sdcmd port data).2 = sdWord w file

/-- What a write command puts in the host. -/
theorem sdWord_bytes (port data : ℕ) (file : RegFile) :
    sdWord (BitVec.ofNat 32 (port % 256 * 0x10000 + data % 256 + 0x84000000)) file =
      update file (port % 256) (BitVec.ofNat 8 data) := by
  set n := port % 256 * 0x10000 + data % 256 + 0x84000000 with hn
  have hlt : n < 2 ^ 32 := by omega
  have hbyte : ∀ start, ((BitVec.ofNat 32 n).extractLsb' start 8).toNat = n / 2 ^ start % 256 :=
    fun start => by
    rw [BitVec.extractLsb'_toNat, BitVec.toNat_ofNat, Nat.mod_eq_of_lt hlt,
      Nat.shiftRight_eq_div_pow]
  have hcmd : (BitVec.ofNat 32 n).extractLsb' 24 8 = 0x84 := by
    apply BitVec.eq_of_toNat_eq
    rw [hbyte]
    show n / 2 ^ 24 % 256 = 132
    omega
  have hdata : (BitVec.ofNat 32 n).extractLsb' 0 8 = BitVec.ofNat 8 data := by
    apply BitVec.eq_of_toNat_eq
    rw [hbyte, BitVec.toNat_ofNat]
    omega
  unfold sdWord
  rw [if_pos hcmd, hbyte, hdata]
  congr 1
  omega

/-- The host registers a command that succeeds wrote: its word is among them,
and no other. -/
theorem sdrw_done {host : SdHost} {sdcmd port data : ℕ}
    (h : (pcitcSdrw host sdcmd port data).1 = 0) :
    ∃ reset : PcitcLog, (reset = [] ∨ reset = [.write8 0x2F 0x02]) ∧
      (pcitcSdrw host sdcmd port data).2 = .write32 0x34 0x000F0101 :: reset ++
        [.write32 0x30 0x000F0001,
          .write32 0x08 (BitVec.ofNat 32 (port % 256 * 0x10000 + data % 256 + sdcmd)),
          .write8 0x0E 0x1A, .write8 0x0F 0x34] := by
  unfold pcitcSdrw at h ⊢
  simp only at h ⊢
  by_cases htimeout :
    host.state &&& 0x01 ≠ 0 ∧ sdPoll (fun b => b &&& 0x02 = 0) host.reset 100000 0 = none
  · rw [if_pos htimeout] at h
    exact absurd h (show -ETIMEDOUT ≠ 0 by decide)
  · rw [if_neg htimeout] at h ⊢
    cases hpoll : sdPoll (fun b => b &&& 0x8001 ≠ 0) host.status 200000 0 with
    | none =>
      rw [hpoll] at h
      exact absurd h (show -ETIMEDOUT ≠ 0 by decide)
    | some b2 =>
      by_cases hbusy : host.state &&& 0x01 ≠ 0
      · exact ⟨_, .inr rfl, by rw [if_pos hbusy]; rfl⟩
      · exact ⟨_, .inl rfl, by rw [if_neg hbusy]⟩

/-! ### A byte -/

variable {board}

/-- A write that succeeds stores its byte. -/
theorem SdBoard.Performs.write (hperf : board.Performs) {host : SdHost} (file : RegFile)
    {off data : ℕ} (hoff : off < 256) (h : (pcitcSdrw host 0x84000000 off data).1 = 0) :
    sdrwOn board host file 0x84000000 off data = (0, update file off (BitVec.ofNat 8 data)) := by
  obtain ⟨reset, -, hlog⟩ := sdrw_done h
  have hafter := hperf file host 0x84000000 off data h
    (BitVec.ofNat 32 (off % 256 * 0x10000 + data % 256 + 0x84000000)) (by rw [hlog]; simp)
  rw [sdWord_bytes, Nat.mod_eq_of_lt hoff] at hafter
  unfold sdrwOn
  simp only
  rw [h, hafter]

/-- A byte written ends as the PCI board stores it. -/
theorem pcie_write8_agrees (hperf : board.Performs) {host : SdHost} (file : RegFile) {off : ℕ}
    (hoff : off < 256) {val : BitVec 8} (h : (pcitcPcieWrite8 board host file off val).1 = 0) :
    pcitcPcieWrite8 board host file off val = pcitcPciWrite8 file off val := by
  have hwrite := hperf.write file hoff h
  rw [BitVec.ofNat_toNat, BitVec.setWidth_eq] at hwrite
  exact hwrite

/-- The first of the bytes to store, and the others. -/
theorem storeLow_succ (file : RegFile) (off : ℕ) (val : BitVec 32) (n : ℕ) :
    file.storeLow off val (n + 1) =
      RegFile.storeLow (update file off (BitVec.ofNat 8 val.toNat)) (off + 1) (val >>> 8) n := by
  funext o
  unfold RegFile.storeLow
  by_cases h0 : o = off
  · subst h0
    rw [if_pos (by omega), if_neg (by omega), update_self, Nat.sub_self]
    rfl
  · rw [update_of_ne h0]
    by_cases hin : off ≤ o ∧ o < off + (n + 1)
    · rw [if_pos hin, if_pos (by omega), ← BitVec.shiftRight_add]
      congr 2
      omega
    · rw [if_neg hin, if_neg (by omega)]

/-! ### A word -/

/-- The result of the command that writes byte `i` of `val`. -/
def writeRet (host : ℕ → SdHost) (off : ℕ) (val : BitVec 32) (i : ℕ) : ℤ :=
  (pcitcSdrw (host i) 0x84000000 (off + i) (val >>> (8 * i)).toNat).1

theorem writeRet_succ (host : ℕ → SdHost) (off : ℕ) (val : BitVec 32) (i : ℕ) :
    writeRet (fun j => host (j + 1)) (off + 1) (val >>> 8) i = writeRet host off val (i + 1) := by
  unfold writeRet
  rw [← BitVec.shiftRight_add, Nat.mul_succ, Nat.add_comm (8 * i), Nat.add_right_comm,
    Nat.add_assoc]

theorem storeLow_zero (file : RegFile) (off : ℕ) (val : BitVec 32) :
    file.storeLow off val 0 = file := by
  funext o
  unfold RegFile.storeLow
  rw [if_neg (by omega)]

/-- The loop after its first `k` writes succeeded. -/
theorem SdBoard.Performs.writeLoop (hperf : board.Performs) (m : ℕ) :
    ∀ (k : ℕ) (host : ℕ → SdHost) (file : RegFile)
    (off : ℕ) (val : BitVec 32), off + k ≤ 256 → (∀ j < k, writeRet host off val j = 0) →
    pcieWriteLoop board (k + m) host file off val =
      pcieWriteLoop board m (fun j => host (k + j)) (file.storeLow off val k) (off + k)
      (val >>> (8 * k))
  | 0, host, file, off, val, _, _ => by
    simp only [storeLow_zero, Nat.zero_add]
    rfl
  | k + 1, host, file, off, val, hoff, h => by
    have hret : (pcitcSdrw (host 0) 0x84000000 off val.toNat).1 = 0 := h 0 (Nat.succ_pos k)
    have hrest : ∀ j < k, writeRet (fun j => host (j + 1)) (off + 1) (val >>> 8) j = 0 :=
      fun j hj => by
      rw [writeRet_succ]
      exact h (j + 1) (Nat.succ_lt_succ hj)
    rw [Nat.succ_add, pcieWriteLoop, hperf.write file (by omega) hret]
    simp only
    rw [if_neg (by simp), hperf.writeLoop m k _ _ _ _ (by omega) hrest, storeLow_succ,
      ← BitVec.shiftRight_add,
      Nat.mul_succ, Nat.add_comm (8 * k), Nat.add_assoc off, Nat.add_comm 1 k]
    simp only [Nat.add_right_comm k _ 1]

/-- A command that leaves the registers alone. -/
def SdBoard.Keeps (board : SdBoard) (host : SdHost) (log : PcitcLog) : Prop :=
  ∀ file, board.after file host log = file

/-- A byte ends as the PCI board stores it, and so does a word written a byte at a
time. If byte `k` of the word is the first that fails, its command met the registers
with exactly the bytes before it stored, was the last one, and its error is returned. -/
theorem pcie_write32_agrees (hperf : board.Performs) (host : ℕ → SdHost) (file : RegFile)
    {off : ℕ} (hoff : off + 3 ≤ 0xFF) (val : BitVec 32) :
    (∀ (host : SdHost) (val : BitVec 8), (pcitcPcieWrite8 board host file off val).1 = 0 →
      pcitcPcieWrite8 board host file off val = pcitcPciWrite8 file off val) ∧
    ((∀ i < 4, writeRet host off val i = 0) →
      pcitcPcieWrite32 board host file off val = pcitcPciWrite32 file off val) ∧
    ∀ k < 4, (∀ i < k, writeRet host off val i = 0) → writeRet host off val k ≠ 0 →
      pcitcPcieWrite32 board host file off val =
         sdrwOn board (host k) (file.storeLow off val k) 0x84000000 (off + k)
            (val >>> (8 * k)).toNat ∧
        (pcitcPcieWrite32 board host file off val).1 = writeRet host off val k ∧
        (board.Keeps (host k) (pcitcSdrw (host k) 0x84000000 (off + k) (val >>> (8 * k)).toNat).2 →
          (pcitcPcieWrite32 board host file off val).2 = file.storeLow off val k) := by
  refine ⟨fun _ _ h => pcie_write8_agrees hperf file (by omega) h,
    fun h => hperf.writeLoop 0 4 host file off val (by omega) h, fun k hk h hfail => ?_⟩
  have hloop := hperf.writeLoop (3 - k + 1) k host file off val (by omega) h
  rw [show k + (3 - k + 1) = 4 by omega] at hloop
  have hlast : pcitcPcieWrite32 board host file off val =
      sdrwOn board (host k) (file.storeLow off val k) 0x84000000 (off + k)
        (val >>> (8 * k)).toNat :=
    hloop.trans (if_pos hfail)
  rw [hlast]
  exact ⟨rfl, rfl, fun hkeeps => hkeeps _⟩

/-- A board that does every command word it is given. -/
def SdBoard.direct : SdBoard where
  after file _ log := log.foldl (fun file a => match a with
    | .write32 0x08 w => sdWord w file
    | _ => file) file

theorem direct_performs : SdBoard.direct.Performs := by
  intro file host sdcmd port data h w hw
  obtain ⟨reset, hreset, hlog⟩ := sdrw_done h
  rw [hlog] at hw ⊢
  rcases hreset with rfl | rfl
  · obtain rfl : w = _ := by simpa using hw
    rfl
  · obtain rfl : w = _ := by simpa using hw
    rfl

/-- A host that is ready takes the four bytes of a word; one that finds the third in
error says so, and does not go on to the fourth. -/
theorem pcie_write32_agrees_ready :
    let ready : SdHost := ⟨0, fun _ => 0, fun _ => 1⟩
    let host : ℕ → SdHost := fun i => if i = 2 then ⟨0, fun _ => 0, fun _ => 0x8000⟩ else ready
    pcitcPcieWrite32 .direct (fun _ => ready) (fun _ => 0) 0x60 0x12345678 =
        pcitcPciWrite32 (fun _ => 0) 0x60 0x12345678 ∧
      (pcitcPcieWrite32 .direct host (fun _ => 0) 0x60 0x12345678).1 = -EBUSY ∧
      pcitcPcieWrite32 .direct host (fun _ => 0) 0x60 0x12345678 =
        sdrwOn .direct (host 2) (RegFile.storeLow (fun _ => 0) 0x60 0x12345678 2) 0x84000000 0x62
          0x1234 := by
  intro ready host
  obtain ⟨-, hall, -⟩ :=
    pcie_write32_agrees direct_performs (fun _ => ready) (fun _ => 0)
      (show 0x60 + 3 ≤ 0xFF by decide) 0x12345678
  obtain ⟨-, -, hfails⟩ :=
    pcie_write32_agrees direct_performs host (fun _ => 0)
      (show 0x60 + 3 ≤ 0xFF by decide) 0x12345678
  obtain ⟨hlast, hret, -⟩ := hfails 2 (by decide) (by decide) (by decide)
  exact ⟨hall (by decide), hret.trans (by decide), hlast⟩

end AjaDriver
