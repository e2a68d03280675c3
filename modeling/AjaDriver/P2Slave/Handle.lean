/-
# What a request does

Every request is answered with one packet whose checksum is right, and is
handed on to userspace at most once (`one_reply_one_forward`): a request that
only asks for data is not handed on, Edit On and Edit Off are replaced by a
packet that carries the timecode, and everything else goes on as it came.
What the `switch` does to the device is said once, in `SwitchDoes`.
-/
import AjaDriver.P2Slave

namespace AjaDriver

open Function

/-! ### The checksum -/

theorem checksum_succ (data : Buf) (size : ℕ) :
    p2slaveChecksum data (size + 1) = p2slaveChecksum data size + data size := by
  unfold p2slaveChecksum
  rw [List.range_succ, List.foldl_append]
  rfl

/-- The checksum is of the bytes before `size`. -/
theorem checksum_congr {data data' : Buf} : ∀ {size : ℕ}, (∀ i < size, data i = data' i) →
    p2slaveChecksum data size = p2slaveChecksum data' size
  | 0, _ => rfl
  | size + 1, h => by
    rw [checksum_succ, checksum_succ, checksum_congr fun i hi => h i (by omega),
      h size (Nat.lt_succ_self size)]

theorem verify_iff (data : Buf) :
    p2slaveChecksumVerify data = false ↔ p2slaveChecksum data ((data 0 &&& 0x0F).toNat + 2) =
      data ((data 0 &&& 0x0F).toNat + 2) := by
  unfold p2slaveChecksumVerify
  simp

/-- The check looks at the packet only. -/
theorem verify_congr {data data' : Buf} (h : ∀ i < p2slavePktSize data, data' i = data i) :
    p2slaveChecksumVerify data' = p2slaveChecksumVerify data := by
  have hfirst : data' 0 = data 0 := h 0 (Nat.succ_pos _)
  rw [Bool.eq_iff_iff, ← not_iff_not, Bool.not_eq_true, Bool.not_eq_true, verify_iff,
    verify_iff, hfirst,
    h _ (Nat.lt_succ_self _), checksum_congr fun i hi => h i (hi.trans (Nat.lt_succ_self _))]

/-- A packet that was given its checksum passes the check. -/
theorem verify_checksumAdd (data : Buf) :
    p2slaveChecksumVerify (p2slaveChecksumAdd data) = false := by
  set size := (data 0 &&& 0x0F).toNat + 2 with hsize
  have hadd : p2slaveChecksumAdd data = update data size (p2slaveChecksum data size) := rfl
  have hfirst : p2slaveChecksumAdd data 0 = data 0 := by
    rw [hadd, update_of_ne (by omega)]
  rw [verify_iff, hfirst, ← hsize, hadd, update_self]
  exact checksum_congr fun i hi => update_of_ne (by omega) ..

/-! ### The ring of packets -/

/-- The ring after a packet with the bytes `l` came in. -/
def P2SlaveBuffer.received (b : P2SlaveBuffer) (now : ℤ) (l : List Byte) : P2SlaveBuffer where
  read := b.read
  write := if b.write + 1 ≥ p2slaveBufsize then 0 else b.write + 1
  buf := update b.buf b.write ⟨now, (b.buf b.write).data.store 0 l⟩

variable {TC : Type}

/-- The device after the packet `l`, if there is one, was handed on. -/
def P2Slave.forward (dev : P2Slave TC) (now : ℤ) : Option (List Byte) → P2Slave TC
  | none => dev
  | some l => if dev.opens ≠ 0 then { dev with buffer := dev.buffer.received now l } else dev

theorem pushpkt_forward (x : P2SlaveIn) (dev : P2Slave TC) (data : Buf) (size : ℕ) :
    p2slavePushpkt x dev data size = dev.forward x.now (some ((List.range size).map data)) := rfl

theorem pushpkt_open (x : P2SlaveIn) {dev : P2Slave TC} (h : dev.opens ≠ 0) (data : Buf)
    (size : ℕ) :
    p2slavePushpkt x dev data size =
      { dev with buffer := dev.buffer.received x.now ((List.range size).map data) } := by
  rw [pushpkt_forward]
  exact if_pos h

/-! ### Requests -/

/-- `cmd` in `p2slave_handle_pkt`. -/
def p2slaveCmd (pin : Buf) : BitVec 16 := (pin 0 &&& 0xF0).setWidth 16 <<< 8 ||| (pin 1).setWidth 16

/-- The commands that only ask for data. -/
def senseCmds : List (BitVec 16) :=
  [0x0011, 0x600A, 0x600C, 0x6010, 0x6011, 0x6012, 0x6013, 0x602E, 0x6031, 0x6036]

/-- Edit On and Edit Off. -/
def editCmds : List (BitVec 16) := [0x2064, 0x2065]

variable [Timecode TC]

theorem edit_not_sense {cmd : BitVec 16} (h : cmd ∈ editCmds) : cmd ∉ senseCmds := by
  simp only [editCmds, List.mem_cons, List.not_mem_nil, or_false] at h
  rcases h with rfl | rfl <;> decide

/-- The packet handed on for Edit On or Edit Off. -/
def editPacket (dev : P2Slave TC) (cmd : BitVec 16) : List Byte :=
  setpktInt 0x24 (cmd.setWidth 8) (Timecode.toSmpte dev.data.tc).timecode

/-- What the `switch` does to the device, and whether the request goes on. -/
inductive SwitchDoes (x : P2SlaveIn) (dev : P2Slave TC) (cmd : BitVec 16) (r : P2SlaveRet TC) : Prop
  | sense (hcmd : cmd ∈ senseCmds) (hdev : r.dev = dev) (huser : r.usersend = false)
  | edit (hcmd : cmd ∈ editCmds) (hdev : r.dev = dev.forward x.now (some (editPacket dev cmd)))
      (huser : r.usersend = false)
  | other (hsense : cmd ∉ senseCmds) (hedit : cmd ∉ editCmds) (hdev : r.dev = dev)
      (huser : r.usersend = true)

theorem edit_forward (x : P2SlaveIn) (dev : P2Slave TC) (pout : Buf) (b2 : Byte) :
    (p2slaveEdit x dev pout b2).dev =
      dev.forward x.now (some (setpktInt 0x24 b2 (Timecode.toSmpte dev.data.tc).timecode)) := by
  have hbytes := map_store (setpktInt 0x24 b2 (Timecode.toSmpte dev.data.tc).timecode) fun _ => 0
  unfold p2slaveEdit
  simp only
  rw [pushpkt_forward,
    show 6 = (setpktInt 0x24 b2 (Timecode.toSmpte dev.data.tc).timecode).length from rfl, hbytes]

theorem switch_does (x : P2SlaveIn) (dev : P2Slave TC) (pout pin : Buf) :
    SwitchDoes x dev (p2slaveCmd pin) (p2slaveSwitch x dev pout pin) := by
  unfold p2slaveSwitch
  split
  case h_2 _ hcmd | h_3 _ hcmd =>
    -- a kind the command does not know is answered with the default ACK
    rw [show p2slaveCmd pin = _ from hcmd]
    simp only
    split <;> exact .sense (by decide) rfl rfl
  case h_8 _ hcmd =>
    rw [show p2slaveCmd pin = _ from hcmd]
    exact .other (by decide) (by decide) rfl rfl
  case h_12 _ hcmd | h_13 _ hcmd =>
    rw [show p2slaveCmd pin = _ from hcmd]
    exact .edit (by decide) (edit_forward x dev pout _) rfl
  case h_14 =>
    refine .other (fun h => ?_) (fun h => ?_) rfl rfl
    · simp only [senseCmds, List.mem_cons, List.not_mem_nil, or_false] at h
      rcases h with h | h | h | h | h | h | h | h | h | h <;> exact absurd h ‹_›
    · simp only [editCmds, List.mem_cons, List.not_mem_nil, or_false] at h
      rcases h with h | h <;> exact absurd h ‹_›
  all_goals
    rename_i hcmd
    rw [show p2slaveCmd pin = _ from hcmd]
    exact .sense (by decide) rfl rfl

/-! ### The whole packet -/

/-- The packet a request with a right checksum has the device hand on. -/
def forwarded (dev : P2Slave TC) (pin : Buf) : Option (List Byte) :=
  if p2slaveCmd pin ∈ senseCmds then none
  else if p2slaveCmd pin ∈ editCmds then some (editPacket dev (p2slaveCmd pin))
  else some ((List.range (p2slavePktSize pin)).map pin)

/-- A request with a wrong checksum. -/
theorem handle_bad (x : P2SlaveIn) (dev : P2Slave TC) (pout : Buf) {pin : Buf}
    (h : p2slaveChecksumVerify pin = true) :
    p2slaveHandlePkt x dev pout pin =
      (pout.store 0 pktNakCsum,
        { dev with stats := ⟨dev.stats.count + 1, dev.stats.err_crc + 1⟩ }) := by
  unfold p2slaveHandlePkt
  simp only
  rw [if_pos h]

/-- A request with a right one. -/
theorem handle_good (x : P2SlaveIn) (dev : P2Slave TC) (pout : Buf) {pin : Buf}
    (h : p2slaveChecksumVerify pin = false) :
    (∃ data, (p2slaveHandlePkt x dev pout pin).1 = p2slaveChecksumAdd data) ∧
      (p2slaveHandlePkt x dev pout pin).2 =
        P2Slave.forward { dev with stats := { dev.stats with count := dev.stats.count + 1 } } x.now
          (forwarded dev pin) := by
  unfold p2slaveHandlePkt
  simp only
  rw [if_neg (by rw [h]; decide)]
  set counted : P2Slave TC := { dev with stats := { dev.stats with count := dev.stats.count + 1 } }
  refine ⟨⟨_, rfl⟩, ?_⟩
  simp only
  unfold forwarded
  cases switch_does x counted pout pin with
  | sense hcmd hdev huser => rw [huser, if_neg (by decide), if_pos hcmd, hdev]; rfl
  | edit hcmd hdev huser =>
    rw [huser, if_neg (by decide), if_neg (edit_not_sense hcmd), if_pos hcmd, hdev]
    rfl
  | other hsense hedit hdev huser =>
    rw [huser, if_pos rfl, if_neg hsense, if_neg hedit, hdev, pushpkt_forward]

/-- The NAK is a packet with its checksum. -/
theorem nak_wellformed (pout : Buf) :
    p2slaveChecksumVerify (pout.store 0 pktNakCsum) = false ∧
      (List.range (p2slavePktSize (pout.store 0 pktNakCsum))).map (pout.store 0 pktNakCsum) =
        pktNakCsum := by
  have hbytes := map_store pktNakCsum pout
  have hfirst : pout.store 0 pktNakCsum 0 = 0x11 := store_get pktNakCsum pout 0 0 rfl
  have hsize : p2slavePktSize (pout.store 0 pktNakCsum) = pktNakCsum.length := by
    unfold p2slavePktSize
    rw [hfirst]
    rfl
  constructor
  · rw [verify_iff, hfirst]
    have hsum : p2slaveChecksum (pout.store 0 pktNakCsum) 3 = 0x11 + 0x12 + 0x04 := by
      rw [checksum_succ, checksum_succ, checksum_succ, hfirst, store_get pktNakCsum pout 0 1 rfl,
        store_get pktNakCsum pout 0 2 rfl]
      rfl
    have hlast : pout.store 0 pktNakCsum 3 = 0x27 := store_get pktNakCsum pout 0 3 rfl
    exact hsum.trans hlast.symm
  · rw [hsize, hbytes]

theorem forwarded_length {dev : P2Slave TC} {pin : Buf} {l : List Byte}
    (h : forwarded dev pin = some l) :
    l.length ≤ 18 := by
  unfold forwarded at h
  split_ifs at h
  · obtain rfl := Option.some.inj h
    show 6 ≤ 18
    decide
  · obtain rfl := Option.some.inj h
    rw [List.length_map, List.length_range]
    exact p2slavePktSize_le pin

/-- No request writes behind the first 18 bytes of a record. -/
theorem handle_record (x : P2SlaveIn) (dev : P2Slave TC) (pout pin : Buf) (i : ℕ) {j : ℕ}
    (hj : 18 ≤ j) :
    ((p2slaveHandlePkt x dev pout pin).2.buffer.buf i).data j = (dev.buffer.buf i).data j := by
  cases hpin : p2slaveChecksumVerify pin with
  | true => rw [handle_bad x dev pout hpin]
  | false =>
    rw [(handle_good x dev pout hpin).2]
    cases hl : forwarded dev pin with
    | none => rfl
    | some l =>
      have hlen := forwarded_length hl
      unfold P2Slave.forward
      simp only
      split_ifs
      · unfold P2SlaveBuffer.received
        simp only
        rcases eq_or_ne i dev.buffer.write with rfl | hne
        · rw [update_self]
          exact store_of_ge l _ (by omega)
        · rw [update_of_ne hne]
      · rfl

/-- Every request to an open device is answered with one packet that passes
the check, and handed on at most once. -/
theorem one_reply_one_forward (x : P2SlaveIn) {dev : P2Slave TC} (hopen : dev.opens ≠ 0)
    (pout pin : Buf) :
    p2slaveChecksumVerify (p2slaveHandlePkt x dev pout pin).1 = false ∧
      p2slavePktSize (p2slaveHandlePkt x dev pout pin).1 ≤ 18 ∧
      (p2slaveChecksumVerify pin = true →
        (List.range (p2slavePktSize (p2slaveHandlePkt x dev pout pin).1)).map
            (p2slaveHandlePkt x dev pout pin).1 = pktNakCsum ∧
          (p2slaveHandlePkt x dev pout pin).2 =
            { dev with stats := ⟨dev.stats.count + 1, dev.stats.err_crc + 1⟩ }) ∧
      (p2slaveChecksumVerify pin = false →
        (p2slaveCmd pin ∈ senseCmds → (p2slaveHandlePkt x dev pout pin).2.buffer = dev.buffer) ∧
        (p2slaveCmd pin ∈ editCmds → (p2slaveHandlePkt x dev pout pin).2.buffer =
          dev.buffer.received x.now (editPacket dev (p2slaveCmd pin))) ∧
        (p2slaveCmd pin ∉ senseCmds → p2slaveCmd pin ∉ editCmds →
          (p2slaveHandlePkt x dev pout pin).2.buffer =
            dev.buffer.received x.now ((List.range (p2slavePktSize pin)).map pin))) := by
  cases hpin : p2slaveChecksumVerify pin with
  | true =>
    rw [handle_bad x dev pout hpin]
    obtain ⟨hverify, hbytes⟩ := nak_wellformed pout
    exact ⟨hverify, p2slavePktSize_le _, fun _ => ⟨hbytes, rfl⟩, fun h => by simp at h⟩
  | false =>
    obtain ⟨⟨data, hdata⟩, hdev⟩ := handle_good x dev pout hpin
    refine ⟨?_, p2slavePktSize_le _, fun h => by simp at h, fun _ => ?_⟩
    · rw [hdata]
      exact verify_checksumAdd data
    have hring : ∀ l, forwarded dev pin = some l →
        (p2slaveHandlePkt x dev pout pin).2.buffer = dev.buffer.received x.now l := fun l hl => by
      rw [hdev, hl]
      unfold P2Slave.forward
      simp only
      rw [if_pos hopen]
    refine ⟨fun h => ?_, fun h => hring _ ?_, fun hsense hedit => hring _ ?_⟩
    · rw [hdev]
      unfold forwarded
      rw [if_pos h]
      rfl
    · unfold forwarded
      rw [if_neg (edit_not_sense h), if_pos h]
    · unfold forwarded
      rw [if_neg hsense, if_neg hedit]

/-- Edit Off, to a device that is open. -/
theorem one_reply_one_forward_edit :
    (p2slaveHandlePkt ⟨0, fun _ => 0⟩ { (P2Slave.new : P2Slave ℕ) with opens := 1 } (fun _ => 0)
      (Buf.store (fun _ => 0) 0 [0x20, 0x65, 0x85])).2.buffer.write = 1 := by
  have hcmd : p2slaveCmd (Buf.store (fun _ => 0) 0 [0x20, 0x65, 0x85]) = 0x2065 := by decide
  have hgood : p2slaveChecksumVerify (Buf.store (fun _ => 0) 0 [0x20, 0x65, 0x85]) = false := by
    decide
  obtain ⟨-, -, -, h⟩ :=
    @one_reply_one_forward ℕ _ ⟨0, fun _ => 0⟩ { (P2Slave.new : P2Slave ℕ) with opens := 1 }
    (by decide) (fun _ => 0) (Buf.store (fun _ => 0) 0 [0x20, 0x65, 0x85])
  rw [(h hgood).2.1 (by rw [hcmd]; decide)]
  rfl

end AjaDriver
