/-
# The LTC board

The Adrienne PCI-TC board: its mailbox, its setup for a frame rate, the write of
a timecode and the two reads. The board is reached through byte and word
accesses at register offsets; what the reads return is a function of how many
accesses came before (`PcitcBus`), and the accesses made are kept in order. The
messages to the kernel log and the delays are left out.
-/
import AjaDriver.Ioctls

namespace AjaDriver

def mboxDelay : ℕ := 5000
def readTries : ℕ := 15

/-! ### The bus -/

/-- An access to the board; a read with the value it gave. -/
inductive PcitcAccess
  | read8 (off : ℕ) (val : BitVec 8)
  | read32 (off : ℕ) (val : BitVec 32)
  | write8 (off : ℕ) (val : BitVec 8)
  | write32 (off : ℕ) (val : BitVec 32)
  deriving DecidableEq, Repr

/-- What the read operations of `struct pcitc_dops_t` give: `read8 n off` is the
byte at `off` when `n` accesses were made before. -/
structure PcitcBus where
  read8 : ℕ → ℕ → BitVec 8
  read32 : ℕ → ℕ → BitVec 32

/-- The accesses made so far. -/
abbrev PcitcLog := List PcitcAccess

variable (bus : PcitcBus)

/-! ### The mailbox -/

/-- A wait for the status register: it is read until `stop` holds, but no more
than `n + 1` times. -/
def pcitcWait (stop : BitVec 8 → Bool) : ℕ → PcitcLog → Bool × PcitcLog
  | 0, log => (stop (bus.read8 log.length 0xFE), log ++ [.read8 0xFE (bus.read8 log.length 0xFE)])
  | n + 1, log =>
    let status := bus.read8 log.length 0xFE
    if stop status then (true, log ++ [.read8 0xFE status])
    else pcitcWait stop n (log ++ [.read8 0xFE status])

/-- `pcitc_mailbox_send`. -/
def pcitcMailboxSend (log : PcitcLog) (cmd : BitVec 8) : ℤ × PcitcLog :=
  -- bit 2 of the status register goes low
  let w := pcitcWait bus (fun status => status &&& 0x04 = 0) mboxDelay log
  if !w.1 then (-1, w.2)
  else
    -- bit 0 goes high
    let w := pcitcWait bus (fun status => status &&& 0x01 ≠ 0) mboxDelay (w.2 ++ [.write8 0x2F cmd])
    if !w.1 then (-2, w.2)
    else
      let ret := bus.read8 w.2.length 0x0F
      let w := pcitcWait bus (fun status => status &&& 0x04 = 0) mboxDelay
        (w.2 ++ [.read8 0x0F ret])
      if !w.1 then (-3, w.2)
      else (ret.toNat, w.2 ++ [.write8 0x2F 0x00])

/-! ### Setup and write -/

/-- The mailbox command for a frame rate. -/
def rateCmd (fps : ℤ) : Option (BitVec 8) :=
  if fps = 24 then some 0x05
  else if fps = 25 then some 0x04
  else if fps = 30 then some 0x03
  else none

/-- The registers `pcitc_setup` writes first. -/
def setupWrites : PcitcLog :=
  [.write8 0x2C 0x06, .write8 0x6A 0x02, .write8 0x2E 0x00, .write8 0x69 0x04]

/-- `pcitc_setup`. -/
def pcitcSetup (log : PcitcLog) (fps : ℤ) : ℤ × PcitcLog :=
  let log := log ++ setupWrites
  match rateCmd fps with
  | none => (-1, log)
  | some cmd =>
    let r := pcitcMailboxSend bus log cmd
    if r.1 < 0 then (-2, r.2)
    else
      let r := pcitcMailboxSend bus r.2 0x25
      if r.1 < 0 then (-3, r.2)
      else
        let r := pcitcMailboxSend bus (r.2 ++ [.write32 0x60 0, .write32 0x64 0]) 0x40
        if r.1 < 0 then (-4, r.2)
        else
          let r := pcitcMailboxSend bus r.2 0x4B
          if r.1 < 0 then (-5, r.2)
          else
            let r := pcitcMailboxSend bus r.2 0x4D
            if r.1 < 0 then (-6, r.2) else (0, r.2)

/-- `struct pcitc_t`, with the accesses made to the board. -/
structure Pcitc where
  cfps : ℤ
  log : PcitcLog

variable {TC : Type} [Timecode TC]

/-- `pcitc_write`. -/
def pcitcWrite (card : Pcitc) (tc : TC) : ℤ × Pcitc :=
  let card :=
    if card.cfps ≠ Timecode.fps tc then
      let r := pcitcSetup bus card.log (Timecode.fps tc)
      if r.1 < 0 then { card with log := r.2 } else { cfps := Timecode.fps tc, log := r.2 }
    else card
  let stc := Timecode.toSmpte tc
  let r := pcitcMailboxSend bus (card.log ++
    [.write32 0x60 stc.timecode, .write32 0x64 stc.userbits]) 0x40
  (if r.1 < 0 then - EIO else 0, { card with log := r.2 })

/-! ### Reads -/

/-- The tries to read a timecode: the validation byte at `vld`, the timecode at
`code`, the userbits at `ubits`, the bytes at `more` and the validation byte
again, until both are the same. -/
def pcitcTries (vld code ubits : ℕ) (more : List ℕ) :
    ℕ → PcitcLog → Option (BitVec 32 × BitVec 32) × PcitcLog
  | 0, log => (none, log)
  | n + 1, log =>
    let d1 := bus.read8 log.length vld
    let log := log ++ [.read8 vld d1]
    let tcode := bus.read32 log.length code
    let log := log ++ [.read32 code tcode]
    let bits := bus.read32 log.length ubits
    let log := log ++ [.read32 ubits bits]
    let log := more.foldl (fun log off => log ++ [.read8 off (bus.read8 log.length off)]) log
    let d2 := bus.read8 log.length vld
    let log := log ++ [.read8 vld d2]
    if d1 = d2 then (some (tcode, bits), log) else pcitcTries vld code ubits more n log

/-- The frame rate in the byte at 0x0D. -/
def pcitcRate (d1 : BitVec 8) : ℤ :=
  if d1 &&& 0x10 ≠ 0 then 25 else if d1 &&& 0x40 ≠ 0 then 24 else 30

/-- The end of both reads: the result, the timecode and the accesses. -/
def pcitcDecode (tc : TC) : Option (BitVec 32 × BitVec 32) × PcitcLog → ℤ × TC × PcitcLog
  | (none, log) => (-EAGAIN, tc, log)
  | (some (tcode, bits), log) =>
    let d1 := bus.read8 log.length 0x0D
    (0, Timecode.fromSmpte ⟨tcode, bits, pcitcRate d1⟩, log ++ [.read8 0x0D d1])

/-- `pcitc_readtcgen`. -/
def pcitcReadtcgen (log : PcitcLog) (tc : TC) : ℤ × TC × PcitcLog :=
  pcitcDecode bus (Timecode.init tc) (pcitcTries bus 0x4B 0x40 0x44 [] readTries log)

/-- `pcitc_read`. -/
def pcitcRead (log : PcitcLog) (tc : TC) : ℤ × TC × PcitcLog :=
  let d1 := bus.read8 log.length 0x0C
  let log := log ++ [.read8 0x0C d1]
  if d1 &&& 0x10 = 0 then (-ENOTCONN, Timecode.init tc, log)
  else pcitcDecode bus (Timecode.init tc) (pcitcTries bus 0x1A 0x10 0x14 [0x18] readTries log)

end AjaDriver
