/-
# The P2 slave, packet by packet

Seen from the line, the P2 slave answers one packet with another. `respond`
is that function: the bytes of a request in, the bytes of the reply and the
device out. The driver works on buffers that still hold the bytes of earlier
packets; none of them shows in what it does (`handle_respond`), because every
reply says its own length and a request is only looked at as far as it goes.

Key theorems: `switch_writes` (what the `switch` leaves in the reply buffer),
`handle_respond`, `respond_sealed` (a reply is a whole packet with its
checksum).
-/
import AjaDriver.P2Slave.Handle
import AjaDriver.Serial.Reply

namespace AjaDriver

open Function

/-! ### Packets as lists -/

/-- A packet without its checksum: its first byte tells how much data follows
the command. -/
def Body (l : List Byte) : Prop := ∃ b, l[0]? = some b ∧ l.length = (b &&& 0x0F).toNat + 2

/-- The packet `l` with its checksum. -/
def sealPacket (l : List Byte) : List Byte := l ++ [l.sum]

/-- The bytes of the packet a buffer begins with. -/
def packetBytes (data : Buf) : List Byte := (List.range (p2slavePktSize data)).map data

/-- A body with its checksum is a whole packet. -/
theorem Body.whole {l : List Byte} (h : Body l) : WholePacket (sealPacket l) := by
  obtain ⟨b, hb, hlen⟩ := h
  refine ⟨b, ?_, ?_⟩
  · rw [sealPacket, List.getElem?_append_left (by omega), hb]
  · rw [sealPacket, List.length_append, hlen, List.length_singleton]

theorem checksum_sum (data : Buf) :
    ∀ size : ℕ, p2slaveChecksum data size = ((List.range size).map data).sum
  | 0 => rfl
  | size + 1 => by
    rw [checksum_succ, checksum_sum data size, List.range_succ, List.map_append, List.sum_append]
    simp

/-- What is stored at the start is what the buffer begins with. -/
theorem begins_store (data : Buf) (l : List Byte) : (data.store 0 l).Begins l := fun j b hj => by
  have hget := store_get l data 0 j hj
  rwa [Nat.zero_add] at hget

theorem Buf.Begins.map {data : Buf} {l : List Byte} (h : data.Begins l) :
    (List.range l.length).map data = l := by
  apply List.ext_getElem (by simp)
  intro j _ hj
  simp [h j _ (List.getElem?_eq_getElem hj)]

/-- The packet of a buffer that begins with a whole one. -/
theorem Buf.Begins.packetBytes {data : Buf} {r : List Byte} (h : data.Begins r)
    (hr : WholePacket r) :
    packetBytes data = r := by
  obtain ⟨b, hb, hlen⟩ := hr
  have hsize : p2slavePktSize data = r.length := by rw [p2slavePktSize, h 0 b hb, hlen]
  rw [AjaDriver.packetBytes, hsize, h.map]

/-- The checksum goes behind the body. -/
theorem checksumAdd_store {l : List Byte} (h : Body l) (data : Buf) :
    p2slaveChecksumAdd (data.store 0 l) = data.store 0 (sealPacket l) := by
  obtain ⟨b, hb, hlen⟩ := h
  have hbegins := begins_store data l
  have hsize : (data.store 0 l 0 &&& 0x0F).toNat + 2 = l.length := by rw [hbegins 0 b hb, hlen]
  unfold p2slaveChecksumAdd
  simp only
  rw [hsize, checksum_sum, hbegins.map, sealPacket, Buf.store_append, Nat.zero_add]
  rfl

/-- A buffer a packet was stored in begins with it. -/
theorem packetBytes_seal {l : List Byte} (h : Body l) (data : Buf) :
    packetBytes (data.store 0 (sealPacket l)) = sealPacket l :=
  (begins_store data _).packetBytes h.whole

/-! ### What the `switch` writes -/

variable {TC : Type}

/-- The reply buffer after the `switch`: as it was, for the default ACK, or
with a packet's body stored. -/
def written (pout : Buf) : Option (List Byte) → Buf
  | none => pout
  | some l => pout.store 0 l

theorem Body.cons {b : Byte} {l : List Byte} (h : l.length = (b &&& 0x0F).toNat + 1) :
    Body (b :: l) :=
  ⟨b, rfl, congrArg (· + 1) h⟩

theorem body_int (b2 : Byte) (i : BitVec 32) : Body (setpktInt 0x74 b2 i) :=
  ⟨0x74, rfl, show 6 = _ by decide⟩

theorem body_2int (b2 : Byte) (i j : BitVec 32) : Body (setpkt2int 0x78 b2 i j) :=
  ⟨0x78, rfl, show 10 = _ by decide⟩

variable [Timecode TC]

/-- Whatever was in the reply buffer, the `switch` leaves a packet's body in it
or asks for the ACK. -/
def Writes (x : P2SlaveIn) (dev : P2Slave TC) (pin : Buf) : Prop :=
  ∃ (dev' : P2Slave TC) (l : Option (List Byte)) (usersend : Bool), (∀ b ∈ l, Body b) ∧
    ∀ pout, p2slaveSwitch x dev pout pin = ⟨dev', written pout l, l.isNone, usersend⟩

theorem Writes.body {x : P2SlaveIn} {dev dev' : P2Slave TC} {pin : Buf} {l : List Byte}
    {usersend : Bool} (hl : Body l)
    (h : ∀ pout, p2slaveSwitch x dev pout pin = ⟨dev', pout.store 0 l, false, usersend⟩) :
    Writes x dev pin :=
  ⟨dev', some l, usersend, by simpa using hl, h⟩

theorem Writes.ack {x : P2SlaveIn} {dev dev' : P2Slave TC} {pin : Buf} {usersend : Bool}
    (h : ∀ pout, p2slaveSwitch x dev pout pin = ⟨dev', pout, true, usersend⟩) : Writes x dev pin :=
  ⟨dev', none, usersend, by simp, h⟩

theorem switch_writes (x : P2SlaveIn) (dev : P2Slave TC) (pin : Buf) : Writes x dev pin := by
  obtain ⟨r, hr⟩ : ∃ r, p2slaveSwitch x dev (fun _ => 0) pin = r := ⟨_, rfl⟩
  unfold p2slaveSwitch at hr
  split at hr
  case h_2 _ hcmd =>
    simp only at hr
    split at hr
    -- a kind the command does not know
    case h_4 => exact .ack fun pout => by unfold p2slaveSwitch; rw [hcmd]; simp only; rfl
    all_goals
      rename_i hkind
      refine .body ?_ fun pout => by unfold p2slaveSwitch; rw [hcmd, hkind]; rfl
      first | exact body_int _ _ | exact body_2int _ _ _
  case h_3 _ hcmd =>
    simp only at hr
    split at hr
    case h_11 => exact .ack fun pout => by unfold p2slaveSwitch; rw [hcmd]; simp only; rfl
    all_goals
      rename_i hkind
      refine .body ?_ fun pout => by unfold p2slaveSwitch; rw [hcmd, hkind]; rfl
      first | exact body_int _ _ | exact body_2int _ _ _
  case h_8 _ hcmd =>
    refine .body ?_ fun pout => by unfold p2slaveSwitch; rw [hcmd]; rfl
    refine .cons ?_
    rw [sense_nibble]
    simp
  case h_12 _ hcmd => exact .ack fun pout => by unfold p2slaveSwitch; rw [hcmd]; rfl
  case h_13 _ hcmd => exact .ack fun pout => by unfold p2slaveSwitch; rw [hcmd]; rfl
  case h_14 => exact .ack fun pout => by unfold p2slaveSwitch; simp only; rfl
  all_goals
    rename_i hcmd
    refine .body ?_ fun pout => by unfold p2slaveSwitch; rw [hcmd]; rfl
    first | exact body_int _ _ | exact .cons (by simp)

/-! ### A packet for a packet -/

/-- Whatever is in the reply buffer, the same packet is stored at its start, and the
device is left the same. -/
theorem handle_stores (x : P2SlaveIn) (dev : P2Slave TC) (pin : Buf) :
    ∃ (l : List Byte) (dev' : P2Slave TC), Body l ∧
      ∀ pout, p2slaveHandlePkt x dev pout pin = (pout.store 0 (sealPacket l), dev') := by
  cases hpin : p2slaveChecksumVerify pin with
  | true =>
    exact ⟨[0x11, 0x12, 0x04], { dev with stats := ⟨dev.stats.count + 1, dev.stats.err_crc + 1⟩ },
      .cons (by simp), fun pout => handle_bad x dev pout hpin⟩
  | false =>
    obtain ⟨dev', l, usersend, hl, hswitch⟩ :=
      switch_writes x { dev with stats := { dev.stats with count := dev.stats.count + 1 } } pin
    have hhandle : ∀ pout, p2slaveHandlePkt x dev pout pin =
        (p2slaveChecksumAdd (if l.isNone then (written pout l).store 0 pktAck else written pout l),
          if usersend then p2slavePushpkt x dev' pin (p2slavePktSize pin) else dev') :=
            fun pout => by
      unfold p2slaveHandlePkt
      simp only [hpin, hswitch]
      rfl
    -- the device the request leaves, whatever is in the reply buffer
    set after := if usersend then p2slavePushpkt x dev' pin (p2slavePktSize pin) else dev'
    cases l with
    | none =>
      have hack : Body pktAck := .cons (by simp)
      refine ⟨pktAck, after, hack, fun pout => ?_⟩
      rw [hhandle, ← checksumAdd_store hack]
      rfl
    | some b =>
      refine ⟨b, after, hl b rfl, fun pout => ?_⟩
      rw [hhandle, ← checksumAdd_store (hl b rfl)]
      rfl

/-- The packet the reply buffer begins with afterwards. -/
theorem handle_packet (x : P2SlaveIn) (dev : P2Slave TC) (pin : Buf) :
    ∃ (l : List Byte) (dev' : P2Slave TC), Body l ∧
      ∀ pout, packetBytes (p2slaveHandlePkt x dev pout pin).1 = sealPacket l ∧
      (p2slaveHandlePkt x dev pout pin).2 = dev' := by
  obtain ⟨l, dev', hl, h⟩ := handle_stores x dev pin
  refine ⟨l, dev', hl, fun pout => ?_⟩
  rw [h]
  exact ⟨packetBytes_seal hl pout, rfl⟩

/-- A request is looked at as far as it goes. -/
theorem handle_congr (x : P2SlaveIn) (dev : P2Slave TC) (pout : Buf) {pin pin' : Buf}
    (h : ∀ i < p2slavePktSize pin, pin i = pin' i) :
    p2slaveHandlePkt x dev pout pin = p2slaveHandlePkt x dev pout pin' := by
  have hat : ∀ i < 3, pin i = pin' i :=
    fun i hi => h i (Nat.lt_of_lt_of_le hi (Nat.le_add_left 3 _))
  have hsize : p2slavePktSize pin = p2slavePktSize pin' := by
    rw [p2slavePktSize, p2slavePktSize, hat 0 (by decide)]
  have hswitch : ∀ dev : P2Slave TC, p2slaveSwitch x dev pout pin = p2slaveSwitch x dev pout pin' :=
    fun dev => by
    unfold p2slaveSwitch
    rw [hat 0 (by decide), hat 1 (by decide), hat 2 (by decide)]
  have hpush : ∀ dev : P2Slave TC,
      p2slavePushpkt x dev pin (p2slavePktSize pin) =
        p2slavePushpkt x dev pin' (p2slavePktSize pin') := fun dev => by
    have hbytes : (List.range (p2slavePktSize pin)).map pin =
        (List.range (p2slavePktSize pin')).map pin' := by
      rw [← hsize]
      exact List.map_congr_left fun i hi => h i (List.mem_range.mp hi)
    rw [pushpkt_forward, pushpkt_forward, hbytes]
  unfold p2slaveHandlePkt
  simp only [← verify_congr fun i hi => (h i hi).symm, hswitch, hpush]

/-- The bytes of the reply to the request `r`, and the device after it. -/
def respond (x : P2SlaveIn) (dev : P2Slave TC) (r : List Byte) : List Byte × P2Slave TC :=
  let h := p2slaveHandlePkt x dev (fun _ => 0) (Buf.store (fun _ => 0) 0 r)
  (packetBytes h.1, h.2)

/-- Every reply is a whole packet with its checksum. -/
theorem respond_sealed (x : P2SlaveIn) (dev : P2Slave TC) (r : List Byte) :
    ∃ l, Body l ∧ (respond x dev r).1 = sealPacket l := by
  obtain ⟨l, dev', hl, h⟩ := handle_packet x dev (Buf.store (fun _ => 0) 0 r)
  exact ⟨l, hl, (h _).1⟩

/-- What is in the buffers besides the request shows in nothing. -/
theorem handle_respond (x : P2SlaveIn) (dev : P2Slave TC) {r : List Byte} (hr : WholePacket r)
    (pout : Buf) {pin : Buf} (h : pin.Begins r) :
    packetBytes (p2slaveHandlePkt x dev pout pin).1 = (respond x dev r).1 ∧
      (p2slaveHandlePkt x dev pout pin).2 = (respond x dev r).2 := by
  have hzero := begins_store (fun _ => 0) r
  have hsame : ∀ i < p2slavePktSize pin, pin i = Buf.store (fun _ => 0) 0 r i := fun i hi => by
    have hlen : i < r.length := by
      rw [← h.packetBytes hr]
      simpa [packetBytes] using hi
    rw [h i _ (List.getElem?_eq_getElem hlen), hzero i _ (List.getElem?_eq_getElem hlen)]
  obtain ⟨l, dev', -, hpacket⟩ := handle_packet x dev (Buf.store (fun _ => 0) 0 r)
  rw [handle_congr x dev pout hsame]
  exact ⟨(hpacket pout).1.trans (hpacket _).1.symm, (hpacket pout).2.trans (hpacket _).2.symm⟩

end AjaDriver
