/-
# The P2 slave

The device that answers the requests from the serial port: its data, the ring
of packets it keeps for userspace, and `p2slaveHandlePkt`, which writes the
reply to a request. A packet buffer is a function of the place in it; the time
and what lies behind the status bytes come from outside (`P2SlaveIn`). The
debug log is left out.
-/
import AjaDriver.Ioctls

namespace AjaDriver

open Function

/-! ### Buffers -/

abbrev Byte := BitVec 8

/-- A packet buffer. -/
abbrev Buf := ℕ → Byte

/-- `data[from]`, `data[from + 1]`, .. after `l` was stored there. -/
def Buf.store (data : Buf) : ℕ → List Byte → Buf
  | _, [] => data
  | i, b :: l => Buf.store (update data i b) (i + 1) l

/-- The buffer begins with the bytes `l`. -/
def Buf.Begins (data : Buf) (l : List Byte) : Prop :=
  ∀ (j : ℕ) (b : Byte), l[j]? = some b → data j = b

theorem store_of_lt : ∀ (l : List Byte) (data : Buf) {i j : ℕ}, j < i → data.store i l j = data j
  | [], _, _, _, _ => rfl
  | b :: l, data, i, j, h => by
    rw [Buf.store, store_of_lt l _ (by omega), update_of_ne (by omega)]

theorem store_get : ∀ (l : List Byte) (data : Buf) (i j : ℕ) {b : Byte}, l[j]? = some b →
    data.store i l (i + j) = b
  | a :: l, data, i, 0, b, h => by
    obtain rfl : a = b := by simpa using h
    rw [Buf.store, store_of_lt l _ (by omega), Nat.add_zero, update_self]
  | a :: l, data, i, j + 1, b, h => by
    have ih := store_get l (update data i a) (i + 1) j (by simpa using h)
    rwa [Nat.add_assoc, Nat.add_comm 1] at ih

theorem store_of_ge : ∀ (l : List Byte) (data : Buf) {i j : ℕ}, i + l.length ≤ j →
    data.store i l j = data j
  | [], _, _, _, _ => rfl
  | b :: l, data, i, j, h => by
    rw [List.length_cons] at h
    rw [Buf.store, store_of_ge l _ (by omega), update_of_ne (by omega)]

theorem Buf.store_append : ∀ (l m : List Byte) (data : Buf) (i : ℕ),
    data.store i (l ++ m) = (data.store i l).store (i + l.length) m
  | [], _, _, _ => rfl
  | b :: l, m, data, i => by
    rw [List.cons_append, Buf.store, Buf.store_append l m _ (i + 1), Buf.store, List.length_cons,
      Nat.add_right_comm, Nat.add_assoc]

theorem Buf.Begins.store {data : Buf} {got : List Byte} (h : data.Begins got) (l : List Byte) :
    (data.store got.length l).Begins (got ++ l) := by
  intro j b hj
  by_cases hlt : j < got.length
  · rw [List.getElem?_append_left hlt] at hj
    rw [store_of_lt l data hlt]
    exact h j b hj
  · rw [List.getElem?_append_right (not_lt.mp hlt)] at hj
    have hget := store_get l data got.length (j - got.length) hj
    rwa [Nat.add_sub_cancel' (not_lt.mp hlt)] at hget

/-- What was stored is what is read back. -/
theorem map_store (l : List Byte) (data : Buf) :
    (List.range l.length).map (data.store 0 l) = l := by
  apply List.ext_getElem (by simp)
  intro j _ hj
  have hget := store_get l data 0 j (List.getElem?_eq_getElem hj)
  rw [Nat.zero_add] at hget
  simp [hget]

/-! ### Packets -/

/-- The low nibble of a byte. -/
theorem lowNibble_le (b : Byte) : (b &&& 0x0F).toNat ≤ 15 := by
  rw [BitVec.toNat_and]
  exact Nat.and_le_right

/-- The first byte of a reply keeps the length it is given. -/
theorem sense_nibble (b : Byte) : (0x70 ||| (b &&& 0x0F)) &&& 0x0F = b &&& 0x0F := by
  rw [BitVec.and_or_distrib_right, BitVec.and_assoc, BitVec.and_self]
  exact BitVec.zero_or

/-- `p2slave_pkt_size`. -/
def p2slavePktSize (data : Buf) : ℕ := (data 0 &&& 0x0F).toNat + 3

theorem p2slavePktSize_le (data : Buf) : p2slavePktSize data ≤ 18 :=
  Nat.add_le_add_right (lowNibble_le _) 3

/-- `p2slave_checksum`. -/
def p2slaveChecksum (data : Buf) (size : ℕ) : Byte :=
  (List.range size).foldl (fun csum i => csum + data i) 0#8

/-- `p2slave_checksum_add`. -/
def p2slaveChecksumAdd (data : Buf) : Buf :=
  let size := (data 0 &&& 0x0F).toNat + 2
  update data size (p2slaveChecksum data size)

/-- `p2slave_checksum_verify`: is the checksum wrong? -/
def p2slaveChecksumVerify (data : Buf) : Bool :=
  let size := (data 0 &&& 0x0F).toNat + 2
  p2slaveChecksum data size ≠ data size

def pktAck : List Byte := [0x10, 0x01]
def pktNakCsum : List Byte := [0x11, 0x12, 0x04, 0x27]

/-- The four bytes of an integer, as `SETPKT_INT` lays them out. -/
def intBytes (i : BitVec 32) : List Byte :=
  [i.setWidth 8, (i >>> 8).setWidth 8, (i >>> 16).setWidth 8, (i >>> 24).setWidth 8]

/-- `SETPKT_INT`. -/
def setpktInt (b1 b2 : Byte) (i1 : BitVec 32) : List Byte := [b1, b2] ++ intBytes i1

/-- `SETPKT_2INT`. -/
def setpkt2int (b1 b2 : Byte) (i1 i2 : BitVec 32) : List Byte :=
  [b1, b2] ++ intBytes i1 ++ intBytes i2

/-! ### The device -/

def p2slaveBufsize : ℕ := 128

/-- `struct p2slave_pkt_t`. -/
structure P2SlavePkt where
  tstamp : ℤ
  data : Buf

/-- `struct p2slave_buffer_t`. -/
structure P2SlaveBuffer where
  read : ℕ
  write : ℕ
  buf : ℕ → P2SlavePkt

/-- `struct p2slave_data_t`; `status` has its sixteen bytes. -/
structure P2SlaveData (TC : Type) where
  id : BitVec 16
  status : Fin 16 → Byte
  tcgen : TC
  tc : TC
  tcIn : TC
  tcOut : TC
  ain : TC
  aout : TC
  preroll : TC
  speed : ℤ

/-- `struct p2slave_stat_t`; its counters are integers without a bound. -/
structure P2SlaveStat where
  count : ℤ
  err_crc : ℤ

/-- `struct p2slave_t`. -/
structure P2Slave (TC : Type) where
  stats : P2SlaveStat
  opens : ℤ
  data : P2SlaveData TC
  buffer : P2SlaveBuffer

/-- What a call finds besides its arguments: the time, and the bytes on the
stack behind its copy of the status. -/
structure P2SlaveIn where
  now : ℤ
  stack : Buf

variable {TC : Type}

/-- Byte `i` from the start of the copy of the status. -/
def statusByte (x : P2SlaveIn) (status : Fin 16 → Byte) (i : ℕ) : Byte :=
  if h : i < 16 then status ⟨i, h⟩ else x.stack (i - 16)

/-- `p2slave_pushpkt`. -/
def p2slavePushpkt (x : P2SlaveIn) (dev : P2Slave TC) (data : Buf) (size : ℕ) : P2Slave TC :=
  if dev.opens ≠ 0 then
    let wp := dev.buffer.write
    let pkt : P2SlavePkt := ⟨x.now, (dev.buffer.buf wp).data.store 0 ((List.range size).map data)⟩
    { dev with
      buffer := { dev.buffer with
        buf := update dev.buffer.buf wp pkt
        write := if wp + 1 ≥ p2slaveBufsize then 0 else wp + 1 } }
  else dev

/-! ### Requests -/

/-- What the `switch` of `p2slave_handle_pkt` leaves: the device, the reply
buffer, and whether the default ACK is still to be sent and the request to be
forwarded. -/
structure P2SlaveRet (TC : Type) where
  dev : P2Slave TC
  pout : Buf
  sendack : Bool
  usersend : Bool

/-- A request answered with the packet `l`, which is not forwarded. -/
def p2slaveSense (dev : P2Slave TC) (pout : Buf) (l : List Byte) : P2SlaveRet TC :=
  ⟨dev, pout.store 0 l, false, false⟩

variable [Timecode TC]

/-- Edit On and Edit Off: the packet forwarded is given the timecode. -/
def p2slaveEdit (x : P2SlaveIn) (dev : P2Slave TC) (pout : Buf) (b2 : Byte) : P2SlaveRet TC :=
  let npkt := Buf.store (fun _ => 0) 0 (setpktInt 0x24 b2 (Timecode.toSmpte dev.data.tc).timecode)
  ⟨p2slavePushpkt x dev npkt 6, pout, true, false⟩

/-- The `switch` of `p2slave_handle_pkt`. -/
def p2slaveSwitch (x : P2SlaveIn) (dev : P2Slave TC) (pout pin : Buf) : P2SlaveRet TC :=
  match ((pin 0 &&& 0xF0).setWidth 16 <<< 8 ||| (pin 1).setWidth 16 : BitVec 16) with
  | 0x0011 =>
    p2slaveSense dev pout [0x12, 0x11, (dev.data.id >>> 8).setWidth 8, dev.data.id.setWidth 8]
  | 0x600A =>
    let stc := Timecode.toSmpte dev.data.tcgen
    match pin 2 with
    | 0x01 => p2slaveSense dev pout (setpktInt 0x74 0x08 stc.timecode)
    | 0x10 => p2slaveSense dev pout (setpktInt 0x74 0x09 stc.userbits)
    | 0x11 => p2slaveSense dev pout (setpkt2int 0x78 0x08 stc.timecode stc.userbits)
    | _ => ⟨dev, pout, true, false⟩
  | 0x600C =>
    let stc := Timecode.toSmpte dev.data.tc
    match pin 2 with
    | 0x01 | 0x03 => p2slaveSense dev pout (setpktInt 0x74 0x04 stc.timecode)
    | 0x02 => p2slaveSense dev pout (setpktInt 0x74 0x06 stc.timecode)
    | 0x04 => p2slaveSense dev pout (setpktInt 0x74 0x00 stc.timecode)
    | 0x10 | 0x30 => p2slaveSense dev pout (setpktInt 0x74 0x05 stc.userbits)
    | 0x20 => p2slaveSense dev pout (setpktInt 0x74 0x07 stc.userbits)
    | 0x11 | 0x33 => p2slaveSense dev pout (setpkt2int 0x78 0x04 stc.timecode stc.userbits)
    | 0x22 => p2slaveSense dev pout (setpkt2int 0x78 0x06 stc.timecode stc.userbits)
    | _ => ⟨dev, pout, true, false⟩
  | 0x6010 => p2slaveSense dev pout (setpktInt 0x74 0x10 (Timecode.toSmpte dev.data.tcIn).timecode)
  | 0x6011 => p2slaveSense dev pout (setpktInt 0x74 0x11 (Timecode.toSmpte dev.data.tcOut).timecode)
  | 0x6012 => p2slaveSense dev pout (setpktInt 0x74 0x12 (Timecode.toSmpte dev.data.ain).timecode)
  | 0x6013 => p2slaveSense dev pout (setpktInt 0x74 0x13 (Timecode.toSmpte dev.data.aout).timecode)
  | 0x6020 =>
    let start := ((pin 2 &&& 0xF0) >>> 4).toNat
    let len := (pin 2 &&& 0x0F).toNat
    let bytes := (List.range len).map fun i => statusByte x dev.data.status (start + i)
    -- always forwarded, so that userspace knows to update the status
    ⟨dev, pout.store 0 ([0x70 ||| (pin 2 &&& 0x0F), 0x20] ++ bytes), false, true⟩
  | 0x602E => p2slaveSense dev pout [0x71, 0x2E, BitVec.ofInt 8 dev.data.speed]
  | 0x6031 =>
    p2slaveSense dev pout (setpktInt 0x74 0x31 (Timecode.toSmpte dev.data.preroll).timecode)
  | 0x6036 => p2slaveSense dev pout [0x71, 0x36, 0x00]
  | 0x2064 => p2slaveEdit x dev pout 0x64
  | 0x2065 => p2slaveEdit x dev pout 0x65
  | _ => ⟨dev, pout, true, true⟩

/-- `p2slave_handle_pkt`: the reply buffer and the device after the request `pin`. -/
def p2slaveHandlePkt (x : P2SlaveIn) (dev : P2Slave TC) (pout pin : Buf) : Buf × P2Slave TC :=
  let dev := { dev with stats := { dev.stats with count := dev.stats.count + 1 } }
  if p2slaveChecksumVerify pin then
    (pout.store 0 pktNakCsum,
      { dev with stats := { dev.stats with err_crc := dev.stats.err_crc + 1 } })
  else
    let r := p2slaveSwitch x dev pout pin
    let pout := if r.sendack then r.pout.store 0 pktAck else r.pout
    let dev := if r.usersend then p2slavePushpkt x r.dev pin (p2slavePktSize pin) else r.dev
    (p2slaveChecksumAdd pout, dev)

/-- A device just allocated: every byte 0. -/
def P2Slave.new : P2Slave TC where
  stats := ⟨0, 0⟩
  opens := 0
  data := ⟨0, fun _ => 0, Timecode.zero, Timecode.zero, Timecode.zero, Timecode.zero, Timecode.zero,
    Timecode.zero, Timecode.zero, 0⟩
  buffer := ⟨0, 0, fun _ => ⟨0, fun _ => 0⟩⟩

end AjaDriver
