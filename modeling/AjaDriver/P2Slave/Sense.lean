/-
# Status Sense

A Status Sense request names the first status byte and how many follow in the two
nibbles of its data byte, and `p2slave_handle_pkt` copies them from its copy of the
status without a look at the sixteen there are. The reply is right exactly when
the bytes asked for end with the status (`status_sense_iff`).
-/
import AjaDriver.P2Slave.Handle

namespace AjaDriver

open Function

/-- `start` in `p2slave_handle_pkt`. -/
def senseStart (pin : Buf) : ℕ := ((pin 2 &&& 0xF0) >>> 4).toNat

/-- `len`. -/
def senseLen (pin : Buf) : ℕ := (pin 2 &&& 0x0F).toNat

variable {TC : Type}

/-- The packet of the reply, without its checksum. -/
def sensePacket (x : P2SlaveIn) (dev : P2Slave TC) (pin : Buf) : List Byte :=
  [0x70 ||| (pin 2 &&& 0x0F), 0x20] ++
    (List.range (senseLen pin)).map fun i => statusByte x dev.data.status (senseStart pin + i)

theorem sensePacket_length (x : P2SlaveIn) (dev : P2Slave TC) (pin : Buf) :
    (sensePacket x dev pin).length = senseLen pin + 2 := by
  simp [sensePacket]

/-- Data byte `i`. -/
theorem sensePacket_get (x : P2SlaveIn) (dev : P2Slave TC) (pin : Buf) {i : ℕ}
    (hi : i < senseLen pin) :
    (sensePacket x dev pin)[2 + i]? = some (statusByte x dev.data.status (senseStart pin + i)) := by
  unfold sensePacket
  rw [List.getElem?_append_right (by simp)]
  simp [hi]

variable [Timecode TC]

/-- The reply to a request whose checksum is right is that packet with its checksum. -/
theorem handle_sense (x : P2SlaveIn) (dev : P2Slave TC) (pout : Buf) {pin : Buf}
    (hgood : p2slaveChecksumVerify pin = false) (hcmd : p2slaveCmd pin = 0x6020) :
    (p2slaveHandlePkt x dev pout pin).1 =
      p2slaveChecksumAdd (pout.store 0 (sensePacket x dev pin)) := by
  have hswitch : ∀ d : P2Slave TC, d.data = dev.data →
      p2slaveSwitch x d pout pin = ⟨d, pout.store 0 (sensePacket x dev pin), false, true⟩ := by
    intro d hd
    unfold p2slaveCmd at hcmd
    unfold p2slaveSwitch
    rw [hcmd, hd]
    rfl
  unfold p2slaveHandlePkt
  simp only
  set counted : P2Slave TC := { dev with stats := { dev.stats with count := dev.stats.count + 1 } }
  rw [if_neg (by rw [hgood]; decide), hswitch counted rfl]
  rfl

/-- The request is answered as it should: the head, the data bytes that the status
has, the checksum, and nothing that lies behind the status. -/
structure SenseRight (x : P2SlaveIn) (dev : P2Slave TC) (pout pin : Buf) : Prop where
  first : (p2slaveHandlePkt x dev pout pin).1 0 = 0x70 ||| (pin 2 &&& 0x0F)
  second : (p2slaveHandlePkt x dev pout pin).1 1 = 0x20
  size : p2slavePktSize (p2slaveHandlePkt x dev pout pin).1 = senseLen pin + 3
  checksum : p2slaveChecksumVerify (p2slaveHandlePkt x dev pout pin).1 = false
  data : ∀ i < senseLen pin, ∀ h : senseStart pin + i < 16,
    (p2slaveHandlePkt x dev pout pin).1 (2 + i) = dev.data.status ⟨senseStart pin + i, h⟩
  inside : ∀ stack, (p2slaveHandlePkt { x with stack := stack } dev pout pin).1 =
    (p2slaveHandlePkt x dev pout pin).1

section Reply

variable {x : P2SlaveIn} {dev : P2Slave TC} {pout pin : Buf}
    (hgood : p2slaveChecksumVerify pin = false)
  (hcmd : p2slaveCmd pin = 0x6020)
include hgood hcmd

/-- The reply begins with the packet. -/
theorem sense_get {j : ℕ} {b : Byte} (hj : (sensePacket x dev pin)[j]? = some b) :
    (p2slaveHandlePkt x dev pout pin).1 j = b := by
  have hlt : j < senseLen pin + 2 := by
    rw [← sensePacket_length x dev pin]
    exact (List.getElem?_eq_some_iff.mp hj).1
  have hget := store_get (sensePacket x dev pin) pout 0
  simp only [zero_add] at hget
  have hfirst : pout.store 0 (sensePacket x dev pin) 0 = 0x70 ||| (pin 2 &&& 0x0F) := hget 0 rfl
  rw [handle_sense x dev pout hgood hcmd]
  unfold p2slaveChecksumAdd
  rw [hfirst, sense_nibble]
  exact (update_of_ne (Nat.ne_of_lt hlt) ..).trans (hget j hj)

theorem sense_data {i : ℕ} (hi : i < senseLen pin) :
    (p2slaveHandlePkt x dev pout pin).1 (2 + i) = statusByte x dev.data.status
      (senseStart pin + i) :=
  sense_get hgood hcmd (sensePacket_get x dev pin hi)

/-- Status Sense is answered right exactly when the bytes asked for are bytes of the
status. -/
theorem status_sense_iff : SenseRight x dev pout pin ↔ senseStart pin + senseLen pin ≤ 16 := by
  constructor
  · intro h
    by_contra hover
    -- the last byte asked for comes from behind the status
    obtain ⟨i, hi, hbehind⟩ : ∃ i < senseLen pin, ¬ senseStart pin + i < 16 := by
      have hlen : senseLen pin ≤ 15 := lowNibble_le _
      have hstart : senseStart pin ≤ 15 := by
        unfold senseStart
        rw [BitVec.toNat_ushiftRight, BitVec.toNat_and, Nat.shiftRight_eq_div_pow]
        have : (pin 2).toNat &&& 0xF0 ≤ 0xF0 := Nat.and_le_right
        show ((pin 2).toNat &&& 0xF0) / 2 ^ 4 ≤ 15
        omega
      exact ⟨senseLen pin - 1, by omega, by omega⟩
    have hbyte : ∀ stack : Buf, (p2slaveHandlePkt x dev pout pin).1 (2 + i) =
        stack (senseStart pin + i - 16) := by
      intro stack
      rw [← h.inside stack, sense_data hgood hcmd hi, statusByte, dif_neg hbehind]
    exact absurd ((hbyte fun _ => 0).symm.trans (hbyte fun _ => 1)) (by decide)
  · intro hle
    have hfirst : (p2slaveHandlePkt x dev pout pin).1 0 = 0x70 ||| (pin 2 &&& 0x0F) :=
      sense_get hgood hcmd rfl
    refine ⟨hfirst, sense_get hgood hcmd rfl, ?_, ?_, fun i hi h => ?_, fun stack => ?_⟩
    · unfold p2slavePktSize
      rw [hfirst, sense_nibble]
      rfl
    · rw [handle_sense x dev pout hgood hcmd]
      exact verify_checksumAdd _
    · rw [sense_data hgood hcmd hi, statusByte, dif_pos h]
    · have hpacket : sensePacket { x with stack := stack } dev pin = sensePacket x dev pin := by
        unfold sensePacket
        congr 1
        apply List.map_congr_left
        intro i hi
        have hi := List.mem_range.mp hi
        rw [statusByte, statusByte, dif_pos (by omega), dif_pos (by omega)]
      rw [handle_sense _ dev pout hgood hcmd, handle_sense x dev pout hgood hcmd, hpacket]

end Reply

/-- A request for four bytes from the third one on. -/
theorem status_sense_iff_four :
    let data : P2SlaveData ℕ :=
  { (P2Slave.new : P2Slave ℕ).data with status := fun i => BitVec.ofNat 8 (i.val + 1) }
    let dev : P2Slave ℕ := { (P2Slave.new : P2Slave ℕ) with data := data }
    let pin := Buf.store (fun _ => 0) 0 [0x61, 0x20, 0x24, 0xA5]
    SenseRight ⟨0, fun _ => 0⟩ dev (fun _ => 0) pin ∧
      (p2slaveHandlePkt ⟨0, fun _ => 0⟩ dev (fun _ => 0) pin).1 5 = 6 := by
  intro data dev pin
  have hright : SenseRight ⟨0, fun _ => 0⟩ dev (fun _ => 0) pin :=
    (status_sense_iff (by decide) (by decide)).mpr (by decide)
  exact ⟨hright, (hright.data 3 (by decide) (by decide)).trans (by decide)⟩

/-- A request for fifteen bytes from the last one on brings fourteen bytes of the
stack. -/
theorem status_sense_behind :
    let pin := Buf.store (fun _ => 0) 0 [0x61, 0x20, 0xFF, 0x80]
    p2slaveChecksumVerify pin = false ∧ p2slaveCmd pin = 0x6020 ∧
      (p2slaveHandlePkt ⟨0, fun _ => 0xAA⟩ (P2Slave.new : P2Slave ℕ) (fun _ => 0) pin).1 3 = 0xAA ∧
      ¬ SenseRight ⟨0, fun _ => 0xAA⟩ (P2Slave.new : P2Slave ℕ) (fun _ => 0) pin := by
  intro pin
  have hleak : ∀ b : Byte, b = 0xAA ∨ b = 0 →
      (p2slaveHandlePkt ⟨0, fun _ => b⟩ (P2Slave.new : P2Slave ℕ) (fun _ => 0) pin).1 3 = b := by
    rintro b (rfl | rfl)
    · decide +kernel
    · decide +kernel
  refine ⟨by decide, by decide, hleak _ (.inl rfl), fun h => ?_⟩
  have hsame := congrFun (h.inside fun _ => 0) 3
  rw [hleak _ (.inl rfl)] at hsame
  exact absurd ((hleak 0 (.inr rfl)).symm.trans hsame) (by decide)

end AjaDriver
