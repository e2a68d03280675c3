/-
# What was set last is what is sensed

The data of the P2 slave comes from two sides: the driver and userspace set a
field each (`p2slave_set_in`, `P2SLAVE_IOC_SETIN`, ..), and the line asks for
them. `senses` lists the requests for a timecode, each with the field it is
about; whatever requests, opens, reads and settings of other fields came in
between, the reply carries the value the field was set to last
(`senses_last_set`), and the asker gets all 32 bits of it back.
-/
import AjaDriver.P2Slave.Respond
import AjaDriver.P2Slave.Ring

namespace AjaDriver

open Function

/-! ### Integers in packets -/

/-- The integer the first four bytes stand for, the lowest first. -/
def intOf : List Byte → BitVec 32
  | b0 :: b1 :: b2 :: b3 :: _ =>
    BitVec.ofNat 32 (b0.toNat + 256 * b1.toNat + 256 ^ 2 * b2.toNat + 256 ^ 3 * b3.toNat)
  | _ => 0

/-- `SETPKT_INT` loses nothing. -/
theorem intOf_intBytes (i : BitVec 32) (l : List Byte) : intOf (intBytes i ++ l) = i := by
  have hi := i.isLt
  apply BitVec.eq_of_toNat_eq
  simp only [intOf, intBytes, List.cons_append, BitVec.toNat_ofNat, BitVec.toNat_setWidth,
    BitVec.toNat_ushiftRight, Nat.shiftRight_eq_div_pow]
  omega

/-! ### Setting a field -/

/-- The timecodes of `struct p2slave_data_t`. -/
inductive TcField
  | tcgen
  | tc
  | tcIn
  | tcOut
  | ain
  | aout
  | preroll
  deriving DecidableEq, Repr

variable {TC : Type}

def TcField.get (data : P2SlaveData TC) : TcField → TC
  | .tcgen => data.tcgen
  | .tc => data.tc
  | .tcIn => data.tcIn
  | .tcOut => data.tcOut
  | .ain => data.ain
  | .aout => data.aout
  | .preroll => data.preroll

/-- A field and the value it is set to. -/
inductive P2Set (TC : Type)
  | id (v : BitVec 16)
  | status (v : Fin 16 → Byte)
  | timecode (field : TcField) (v : TC)
  | speed (v : ℤ)

/-- `dev->data.name = data`, of `FUNC_SET` and of `FUNC_GET_USER`. -/
def P2SlaveData.set (data : P2SlaveData TC) : P2Set TC → P2SlaveData TC
  | .id v => { data with id := v }
  | .status v => { data with status := v }
  | .timecode .tcgen v => { data with tcgen := v }
  | .timecode .tc v => { data with tc := v }
  | .timecode .tcIn v => { data with tcIn := v }
  | .timecode .tcOut v => { data with tcOut := v }
  | .timecode .ain v => { data with ain := v }
  | .timecode .aout v => { data with aout := v }
  | .timecode .preroll v => { data with preroll := v }
  | .speed v => { data with speed := v }

/-- `p2slave_set_id`, `p2slave_set_status`, .. -/
def p2slaveSet (dev : P2Slave TC) (s : P2Set TC) : P2Slave TC := { dev with data := dev.data.set s }

def ENOTTY : ℤ := 25

/-- `p2slave_ioctl`; the call names no field when its command is unknown, and otherwise
the field with what is in it after `copy_from_user`, which returns the number `left` of
the bytes it did not copy. -/
def p2slaveIoctl (dev : P2Slave TC) (left : ℕ) : Option (P2Set TC) → ℤ × P2Slave TC
  | none => (-ENOTTY, dev)
  | some s => (left, { dev with data := dev.data.set s })

/-- Does it set the field? -/
def P2Set.sets (field : TcField) : P2Set TC → Bool
  | .timecode f _ => f = field
  | _ => false

theorem get_set (data : P2SlaveData TC) (field : TcField) (v : TC) :
    field.get (data.set (.timecode field v)) = v := by
  cases field <;> rfl

theorem get_set_of_not {field : TcField} {s : P2Set TC} (h : s.sets field = false)
    (data : P2SlaveData TC) :
    field.get (data.set s) = field.get data := by
  cases s with
  | id v => cases field <;> rfl
  | status v => cases field <;> rfl
  | speed v => cases field <;> rfl
  | timecode f v =>
    have hne : f ≠ field := by simpa [P2Set.sets] using h
    cases f <;> cases field <;> first | exact absurd rfl hne | rfl

/-! ### Asking for it -/

/-- A request for a timecode: its bytes, those the reply begins with, the field
it is about, and whether the timecode and the userbits are sent. -/
structure TcSense where
  request : List Byte
  header : List Byte
  field : TcField
  time : Bool
  user : Bool
  deriving DecidableEq, Repr

variable [Timecode TC]

/-- What the reply carries. -/
def TcSense.words (q : TcSense) (v : TC) : List Byte :=
  (if q.time then intBytes (Timecode.toSmpte v).timecode else []) ++
    if q.user then intBytes (Timecode.toSmpte v).userbits else []

/-- The requests for a timecode. -/
def tcSenses : List TcSense :=
  [⟨[0x61, 0x0A, 0x01], [0x74, 0x08], .tcgen, true, false⟩,
    ⟨[0x61, 0x0A, 0x10], [0x74, 0x09], .tcgen, false, true⟩,
    ⟨[0x61, 0x0A, 0x11], [0x78, 0x08], .tcgen, true, true⟩,
    ⟨[0x61, 0x0C, 0x01], [0x74, 0x04], .tc, true, false⟩,
    ⟨[0x61, 0x0C, 0x03], [0x74, 0x04], .tc, true, false⟩,
    ⟨[0x61, 0x0C, 0x02], [0x74, 0x06], .tc, true, false⟩,
    ⟨[0x61, 0x0C, 0x04], [0x74, 0x00], .tc, true, false⟩,
    ⟨[0x61, 0x0C, 0x10], [0x74, 0x05], .tc, false, true⟩,
    ⟨[0x61, 0x0C, 0x30], [0x74, 0x05], .tc, false, true⟩,
    ⟨[0x61, 0x0C, 0x20], [0x74, 0x07], .tc, false, true⟩,
    ⟨[0x61, 0x0C, 0x11], [0x78, 0x04], .tc, true, true⟩,
    ⟨[0x61, 0x0C, 0x33], [0x78, 0x04], .tc, true, true⟩,
    ⟨[0x61, 0x0C, 0x22], [0x78, 0x06], .tc, true, true⟩,
    ⟨[0x60, 0x10], [0x74, 0x10], .tcIn, true, false⟩,
    ⟨[0x60, 0x11], [0x74, 0x11], .tcOut, true, false⟩,
    ⟨[0x60, 0x12], [0x74, 0x12], .ain, true, false⟩,
    ⟨[0x60, 0x13], [0x74, 0x13], .aout, true, false⟩,
    ⟨[0x60, 0x31], [0x74, 0x31], .preroll, true, false⟩]

theorem tcSenses_shape (q : TcSense) (hq : q ∈ tcSenses) :
    q.header.length = 2 ∧ Body q.request := by
  have hall : ∀ q ∈ tcSenses, q.header.length = 2 ∧ 0 < q.request.length ∧
      q.request.length = (q.request.headD 0 &&& 0x0F).toNat + 2 := by
    decide
  obtain ⟨hheader, hpos, hlen⟩ := hall q hq
  refine ⟨hheader, q.request.headD 0, ?_, hlen⟩
  cases hr : q.request with
  | nil => simp [hr] at hpos
  | cons b l => rfl

/-- The device once the request is counted. -/
def P2Slave.counted (dev : P2Slave TC) : P2Slave TC :=
  { dev with stats := { dev.stats with count := dev.stats.count + 1 } }

/-- A request for a timecode is answered with it. -/
theorem respond_sense {q : TcSense} (hq : q ∈ tcSenses) (x : P2SlaveIn) (dev : P2Slave TC) :
    Body (q.header ++ q.words (q.field.get dev.data)) ∧
    respond x dev (sealPacket q.request) =
      (sealPacket (q.header ++ q.words (q.field.get dev.data)), dev.counted) := by
  have hstored : ∀ {l : List Byte}, Body l → (∀ pout, p2slaveHandlePkt x dev pout
      (Buf.store (fun _ => 0) 0 (sealPacket q.request)) =
        (p2slaveChecksumAdd (pout.store 0 l), dev.counted)) →
      Body l ∧ respond x dev (sealPacket q.request) = (sealPacket l, dev.counted) :=
        fun {l} hl h => by
    refine ⟨hl, ?_⟩
    unfold respond
    simp only [h]
    rw [checksumAdd_store hl, packetBytes_seal hl]
  simp only [tcSenses, List.mem_cons, List.not_mem_nil, or_false] at hq
  rcases hq with rfl | rfl | rfl | rfl | rfl | rfl | rfl | rfl | rfl | rfl | rfl | rfl | rfl | rfl
    | rfl | rfl | rfl | rfl
  all_goals
    refine hstored ?_ fun pout => rfl
    first | exact body_int _ _ | exact body_2int _ _ _

/-! ### The life of a device -/

omit [Timecode TC] in
theorem data_forward (dev : P2Slave TC) (now : ℤ) (l : Option (List Byte)) :
    (dev.forward now l).data = dev.data := by
  cases l with
  | none => rfl
  | some l =>
    unfold P2Slave.forward
    simp only
    split_ifs <;> rfl

/-- No request changes the data. -/
theorem data_handle (x : P2SlaveIn) (dev : P2Slave TC) (pout pin : Buf) :
    (p2slaveHandlePkt x dev pout pin).2.data = dev.data := by
  cases hpin : p2slaveChecksumVerify pin with
  | true => rw [handle_bad x dev pout hpin]
  | false => rw [(handle_good x dev pout hpin).2, data_forward]

omit [Timecode TC] in
theorem data_read (x : P2ReadIn) (dev : P2Slave TC) (call : P2Read) :
    (p2slaveRead x dev call).1.data = dev.data := by
  cases call with
  | waiting count nonblock =>
    rw [p2slaveRead]
    split_ifs <;> rfl
  | copying count rp got =>
    rw [p2slaveRead]
    split_ifs <;> rfl
  | ending rp got => rfl

/-- `p2slave_release`. -/
def p2slaveRelease (dev : P2Slave TC) : P2Slave TC := { dev with opens := dev.opens - 1 }

/-- What happens to a device: the driver or userspace sets a field, a request
comes in, it is opened or released, a reader's call makes a step. -/
inductive DeckEvent (TC : Type)
  | set (s : P2Set TC)
  | ioctl (left : ℕ) (s : Option (P2Set TC))
  | request (x : P2SlaveIn) (pout pin : Buf)
  | opened
  | released
  | read (x : P2ReadIn) (call : P2Read)

def DeckEvent.step (dev : P2Slave TC) : DeckEvent TC → P2Slave TC
  | .set s => p2slaveSet dev s
  | .ioctl left s => (p2slaveIoctl dev left s).2
  | .request x pout pin => (p2slaveHandlePkt x dev pout pin).2
  | .opened => p2slaveOpen dev
  | .released => p2slaveRelease dev
  | .read x call => (p2slaveRead x dev call).1

/-- The field and the value an event sets. -/
def DeckEvent.given : DeckEvent TC → Option (P2Set TC)
  | .set s => some s
  | .ioctl _ s => s
  | _ => none

/-- The data of the device is changed by what is set and by nothing else. -/
theorem data_step (dev : P2Slave TC) (e : DeckEvent TC) :
    (e.step dev).data = match e.given with
      | none => dev.data
      | some s => dev.data.set s := by
  cases e with
  | set s => rfl
  | ioctl left s => cases s <;> rfl
  | request x pout pin => exact data_handle x dev pout pin
  | opened => rfl
  | released => rfl
  | read x call => exact data_read x dev call

/-- The settings of other fields leave a field alone. -/
theorem get_run {field : TcField} : ∀ (events : List (DeckEvent TC)) (dev : P2Slave TC),
    (∀ e ∈ events, ∀ s, e.given = some s → s.sets field = false) →
    field.get (events.foldl DeckEvent.step dev).data = field.get dev.data
  | [], _, _ => rfl
  | e :: events, dev, h => by
    have hone : field.get (e.step dev).data = field.get dev.data := by
      rw [data_step]
      cases hs : e.given with
      | none => rfl
      | some s => exact get_set_of_not (h e (List.mem_cons_self ..) s hs) dev.data
    rw [List.foldl_cons, get_run events _ fun e he => h e (List.mem_cons_of_mem _ he), hone]

/-- A field is set, by the driver or by userspace, and not set again; whatever
else happens to the device, the reply to a request for it is the packet with the
value set, from which all of it can be read, and the request leaves the data and
the ring as they are. -/
theorem senses_last_set {q : TcSense} (hq : q ∈ tcSenses) (dev : P2Slave TC)
    (before after : List (DeckEvent TC)) {e : DeckEvent TC} {v : TC}
    (he : e.given = some (.timecode q.field v))
    (hafter : ∀ e ∈ after, ∀ s, e.given = some s → s.sets q.field = false) (x : P2SlaveIn)
    (pout : Buf) {pin : Buf} (hpin : pin.Begins (sealPacket q.request)) :
    let d := (before ++ e :: after).foldl DeckEvent.step dev
    let h := p2slaveHandlePkt x d pout pin
    packetBytes h.1 = sealPacket (q.header ++ q.words v) ∧
      (q.time = true → intOf ((packetBytes h.1).drop 2) = (Timecode.toSmpte v).timecode) ∧
      (q.user = true →
        intOf ((packetBytes h.1).drop (if q.time then 6 else 2)) = (Timecode.toSmpte v).userbits) ∧
      h.2.data = d.data ∧ h.2.buffer = d.buffer := by
  intro d h
  have hget : q.field.get d.data = v := by
    show q.field.get ((before ++ e :: after).foldl DeckEvent.step dev).data = v
    rw [List.foldl_append, List.foldl_cons, get_run after _ hafter, data_step, he]
    exact get_set _ _ _
  obtain ⟨hlen, hbody⟩ := tcSenses_shape q hq
  obtain ⟨hbytes, hdev⟩ := handle_respond x d hbody.whole pout hpin
  obtain ⟨-, hrespond⟩ := respond_sense hq x d
  rw [hrespond, hget] at hbytes
  rw [hrespond] at hdev
  have hdrop : (packetBytes h.1).drop 2 = q.words v ++ [(q.header ++ q.words v).sum] := by
    show (packetBytes (p2slaveHandlePkt x d pout pin).1).drop 2 = _
    rw [hbytes, sealPacket, List.append_assoc, ← hlen, List.drop_left]
  refine ⟨hbytes, fun ht => ?_, fun hu => ?_, ?_, ?_⟩
  · rw [hdrop, TcSense.words, if_pos ht, List.append_assoc, intOf_intBytes]
  · cases ht : q.time with
    | false =>
      rw [if_neg (by decide), hdrop, TcSense.words, if_neg (by rw [ht]; decide), if_pos hu,
        List.nil_append, intOf_intBytes]
    | true =>
      rw [if_pos rfl, show 6 = 2 + 4 from rfl, ← List.drop_drop, hdrop, TcSense.words,
        if_pos ht, if_pos hu]
      exact intOf_intBytes _ _
  · show (p2slaveHandlePkt x d pout pin).2.data = _
    rw [hdev]
    rfl
  · show (p2slaveHandlePkt x d pout pin).2.buffer = _
    rw [hdev]
    rfl

/-- Userspace sets the in point, the driver the out point, and the line asks for
the in point. -/
theorem senses_last_set_in :
    packetBytes (p2slaveHandlePkt ⟨0, fun _ => 0⟩
        (([] ++ DeckEvent.ioctl 0 (some (.timecode .tcIn 0x01020304)) ::
          [DeckEvent.set (.timecode .tcOut 5), .opened]).foldl DeckEvent.step
            (P2Slave.new : P2Slave ℕ))
        (fun _ => 0xFF) (Buf.store (fun _ => 0xEE) 0 [0x60, 0x10, 0x70])).1 =
      sealPacket [0x74, 0x10, 0x04, 0x03, 0x02, 0x01] := by
  have hq : (⟨[0x60, 0x10], [0x74, 0x10], .tcIn, true, false⟩ : TcSense) ∈ tcSenses := by decide
  have hafter : ∀ e ∈ ([DeckEvent.set (.timecode .tcOut 5), .opened] : List (DeckEvent ℕ)), ∀ s,
    e.given = some s →
      s.sets .tcIn = false := by
    simp [DeckEvent.given, P2Set.sets]
  have hpin : Buf.Begins (Buf.store (fun _ => 0xEE) 0 [0x60, 0x10, 0x70])
    (sealPacket [0x60, 0x10]) :=
    begins_store _ _
  have h := (senses_last_set hq P2Slave.new [] [DeckEvent.set (.timecode .tcOut 5), .opened]
    (e := .ioctl 0 (some (.timecode .tcIn 0x01020304))) rfl hafter ⟨0, fun _ => 0⟩
      (fun _ => 0xFF) hpin).1
  rw [h]
  rfl

end AjaDriver
