/-
# The checksum of a packet

`p2slaveChecksumAdd` writes one byte, the one behind the data the packet
announces, and the packet passes the check from then on. The checksum is a
sum, so a byte that changes moves it by what the byte moved: a packet with one
wrong byte is found, as long as its first byte still announces the same length
(`checksum_seals_and_detects`).
-/
import AjaDriver.P2Slave.Handle

namespace AjaDriver

open Function

/-- A byte behind what is summed does not count. -/
theorem checksum_update_of_ge (data : Buf) {i size : ℕ} (h : size ≤ i) (b : Byte) :
    p2slaveChecksum (update data i b) size = p2slaveChecksum data size :=
  checksum_congr fun _ hj => update_of_ne (by omega) ..

/-- A byte that is summed moves the checksum by what it moved. -/
theorem checksum_update_of_lt (data : Buf) {i : ℕ} (b : Byte) : ∀ {size : ℕ}, i < size →
    p2slaveChecksum (update data i b) size = p2slaveChecksum data size + (b - data i)
  | size + 1, h => by
    rw [checksum_succ, checksum_succ]
    rcases Nat.lt_succ_iff_lt_or_eq.mp h with hlt | rfl
    · rw [checksum_update_of_lt data b hlt, update_of_ne (by omega)]
      -- the last byte is not the one that changed
      exact add_right_comm ..
    · rw [checksum_update_of_ge data le_rfl b, update_self, add_assoc, add_sub_cancel]

/-- The packet says how long it is in the byte that stays. -/
theorem checksumAdd_of_ne (data : Buf) {j : ℕ} (h : j ≠ p2slavePktSize data - 1) :
    p2slaveChecksumAdd data j = data j :=
  update_of_ne (show j ≠ (data 0 &&& 0x0F).toNat + 2 from h) ..

theorem verify_eq_true_iff (data : Buf) :
    p2slaveChecksumVerify data = true ↔ p2slaveChecksum data ((data 0 &&& 0x0F).toNat + 2) ≠
      data ((data 0 &&& 0x0F).toNat + 2) := by
  rw [ne_eq, ← verify_iff, Bool.not_eq_false]

/-- A byte of the packet that is not what it was is found. -/
theorem verify_update {data : Buf} (h : p2slaveChecksumVerify data = false) {i : ℕ}
    (hi : i < p2slavePktSize data) {b : Byte} (hb : b ≠ data i)
    (hfirst : update data i b 0 &&& 0x0F = data 0 &&& 0x0F) :
    p2slaveChecksumVerify (update data i b) = true := by
  rw [verify_iff] at h
  rw [verify_eq_true_iff, hfirst]
  set size := (data 0 &&& 0x0F).toNat + 2 with hsize
  have hi : i < size + 1 := hi
  rcases Nat.lt_succ_iff_lt_or_eq.mp hi with hlt | rfl
  · -- the sum moves, the checksum does not
    rw [checksum_update_of_lt data b hlt, update_of_ne (by omega), h]
    intro heq
    exact hb (sub_eq_zero.mp (add_eq_left.mp heq))
  · -- the checksum moves, the sum does not
    rw [checksum_update_of_ge data le_rfl b, update_self, h]
    exact hb.symm

/-- `p2slaveChecksumAdd` changes only the byte behind the data and makes the
packet pass the check; in a packet that passes, every byte counts. -/
theorem checksum_seals_and_detects :
    (∀ data : Buf, (∀ j, j ≠ p2slavePktSize data - 1 → p2slaveChecksumAdd data j = data j) ∧
      p2slaveChecksumVerify (p2slaveChecksumAdd data) = false) ∧
    ∀ data : Buf, p2slaveChecksumVerify data = false →
      ∀ i < p2slavePktSize data, ∀ b : Byte, b ≠ data i →
        update data i b 0 &&& 0x0F = data 0 &&& 0x0F →
          p2slaveChecksumVerify (update data i b) = true :=
  ⟨fun data => ⟨fun _ hj => checksumAdd_of_ne data hj, verify_checksumAdd data⟩,
    fun _ h _ hi _ hb hfirst => verify_update h hi hb hfirst⟩

/-- Edit Off whose command became Edit On on the way. -/
theorem checksum_seals_and_detects_edit :
    p2slaveChecksumVerify (update (Buf.store (fun _ => 0) 0 [0x20, 0x65, 0x85]) 1 0x64) = true :=
  checksum_seals_and_detects.2 (Buf.store (fun _ => 0) 0 [0x20, 0x65, 0x85])
    (by decide) 1 (by decide) 0x64 (by decide)
    (by decide)

end AjaDriver
