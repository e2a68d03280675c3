/-
# The packets userspace is handed

A record holds a packet and what was in its slot before. A request handed on as
it came is a whole packet, checksum included; the packet handed on for Edit On
and Edit Off announces seven bytes and has six, so its checksum is whatever the
slot held there. Every record `p2slave_read` delivers is a packet whose checksum
verifies as long as no such request comes to a slot that holds another byte
(`delivers_packets`), and the first Edit On of a fresh device is one
(`delivers_part_of_packet`).
-/
import AjaDriver.P2Slave.Ring

namespace AjaDriver

open Function

/-- The record begins with a packet of the length its first byte announces. -/
def P2SlavePkt.Complete (pkt : P2SlavePkt) : Prop := p2slaveChecksumVerify pkt.data = false

instance (pkt : P2SlavePkt) : Decidable pkt.Complete := inferInstanceAs (Decidable (_ = _))

/-! ### A service -/

/-- A device that is open, the call of its reader, if one is under way, and the
calls that have returned. -/
structure P2Service (TC : Type) where
  dev : P2Slave TC
  call : Option P2Read
  calls : List (ℤ × List P2SlavePkt)

/-- What happens: a request comes in, the driver sets the data of the device, a
call begins, or the call under way makes a step. -/
inductive P2Event (TC : Type)
  | request (x : P2SlaveIn) (pout pin : Buf)
  | set (data : P2SlaveData TC)
  | read (count : ℕ) (nonblock : Bool)
  | go (x : P2ReadIn)

variable {TC : Type}

/-- A service begins. -/
def P2Service.opened (dev : P2Slave TC) : P2Service TC := ⟨p2slaveOpen dev, none, []⟩

/-- What was copied to userspace. -/
def P2Service.delivered (s : P2Service TC) : List P2SlavePkt :=
  s.calls.flatMap Prod.snd ++ ((s.call.bind P2Read.progress).map Prod.snd).getD []

/-! ### The slots written -/

/-- `n` packets came in since the open, every slot written holds a packet, and
the reader is at none of the others. -/
structure P2Service.Serves (s : P2Service TC) (n : ℕ) : Prop where
  opens : s.dev.opens ≠ 0
  slots : RingBuf.Written p2slaveBufsize P2SlavePkt.Complete s.dev.buffer.buf s.dev.buffer.write n
  read : s.dev.buffer.read < p2slaveBufsize ∧ s.dev.buffer.read ≤ n
  call : ∀ call rp got, s.call = some call → call.progress = some (rp, got) →
    (rp < p2slaveBufsize ∧ rp ≤ n) ∧ ∀ pkt ∈ got, pkt.Complete
  calls : ∀ ret ∈ s.calls, ∀ pkt ∈ ret.2, pkt.Complete

theorem P2Service.Serves.opened {dev : P2Slave TC} (h : 0 ≤ dev.opens) :
    (P2Service.opened dev).Serves 0 where
  opens := by
    show dev.opens + 1 ≠ 0
    omega
  slots := .zero
  read := ⟨show 0 < 128 by decide, le_rfl⟩
  call call rp got hcall := by cases hcall
  calls ret hret := absurd hret (List.not_mem_nil)

/-- A step of a call that leaves the device alone: it goes on. -/
theorem P2Service.Serves.goOn {s : P2Service TC} {n : ℕ} (h : s.Serves n) {call : P2Read}
    (hcall : ∀ rp got, call.progress = some (rp, got) →
      (rp < p2slaveBufsize ∧ rp ≤ n) ∧ ∀ pkt ∈ got, P2SlavePkt.Complete pkt) :
    ({ s with call := some call } : P2Service TC).Serves n where
  opens := h.opens
  slots := h.slots
  read := h.read
  call c rp got hc hp := by
    obtain rfl : call = c := Option.some.inj hc
    exact hcall rp got hp
  calls := h.calls

/-- The call returns. -/
theorem P2Service.Serves.stop {s : P2Service TC} {n : ℕ} (h : s.Serves n)
    {ret : ℤ × List P2SlavePkt} (hret : ∀ pkt ∈ ret.2, P2SlavePkt.Complete pkt) :
    P2Service.Serves ⟨s.dev, none, s.calls ++ [ret]⟩ n where
  opens := h.opens
  slots := h.slots
  read := h.read
  call call rp got hcall := by cases hcall
  calls r hr := by
    rcases List.mem_append.mp hr with hr | hr
    · exact h.calls r hr
    · rw [List.mem_singleton.mp hr]
      exact hret

theorem P2Service.Serves.delivered {s : P2Service TC} {n : ℕ} (h : s.Serves n) :
    ∀ pkt ∈ s.delivered, pkt.Complete := by
  intro pkt hpkt
  unfold P2Service.delivered at hpkt
  rcases List.mem_append.mp hpkt with hpkt | hpkt
  · obtain ⟨ret, hret, hpkt⟩ := List.mem_flatMap.mp hpkt
    exact h.calls ret hret pkt hpkt
  · cases hcall : s.call.bind P2Read.progress with
    | none => simp [hcall] at hpkt
    | some p =>
      obtain ⟨call, hc, hp⟩ := Option.bind_eq_some_iff.mp hcall
      exact (h.call call p.1 p.2 hc hp).2 pkt (by simpa [hcall] using hpkt)

/-! ### Events -/

variable [Timecode TC]

def P2Service.step (s : P2Service TC) : P2Event TC → P2Service TC
  | .request x pout pin => { s with dev := (p2slaveHandlePkt x s.dev pout pin).2 }
  | .set data => { s with dev := { s.dev with data := data } }
  | .read count nonblock =>
    match s.call with
    | none => { s with call := some (.waiting count nonblock) }
    | some _ => s
  | .go x =>
    match s.call with
    | none => s
    | some call =>
      match p2slaveRead x s.dev call with
      | (dev, .inl call) => { s with dev := dev, call := some call }
      | (dev, .inr ret) => ⟨dev, none, s.calls ++ [ret]⟩

/-- The checksum of the packet handed on for Edit On or Edit Off. -/
def editChecksum (dev : P2Slave TC) (cmd : BitVec 16) : Byte :=
  p2slaveChecksum (Buf.store (fun _ => 0) 0 (editPacket dev cmd)) 6

/-- Edit On and Edit Off come to a slot whose seventh byte is the checksum. -/
def P2Service.Sealed (s : P2Service TC) : P2Event TC → Prop
  | .request _ _ pin => p2slaveChecksumVerify pin = false → p2slaveCmd pin ∈ editCmds →
    (s.dev.buffer.buf s.dev.buffer.write).data 6 = editChecksum s.dev (p2slaveCmd pin)
  | _ => True

/-! ### A record -/

/-- A request handed on as it came is as complete as it was. -/
theorem complete_forward (now : ℤ) (data pin : Buf) :
    P2SlavePkt.Complete ⟨now, data.store 0 ((List.range (p2slavePktSize pin)).map pin)⟩ ↔
      p2slaveChecksumVerify pin = false := by
  unfold P2SlavePkt.Complete
  rw [verify_congr fun i hi => ?_]
  have hget := store_get ((List.range (p2slavePktSize pin)).map pin) data 0 i (b := pin i)
    (by simp [hi])
  rwa [Nat.zero_add] at hget

/-- Edit On and Edit Off are complete when the slot held the checksum. -/
theorem complete_edit (now : ℤ) (dev : P2Slave TC) (data : Buf) (cmd : BitVec 16) :
    P2SlavePkt.Complete ⟨now, data.store 0 (editPacket dev cmd)⟩ ↔
      data 6 = editChecksum dev cmd := by
  have hbyte : ∀ (old : Buf) (i : ℕ) (hi : i < (editPacket dev cmd).length),
      old.store 0 (editPacket dev cmd) i = (editPacket dev cmd)[i] := fun old i hi => by
    have hget := store_get (editPacket dev cmd) old 0 i (List.getElem?_eq_getElem hi)
    rwa [Nat.zero_add] at hget
  have hfirst : data.store 0 (editPacket dev cmd) 0 = 0x24 := hbyte data 0 (show 0 < 6 by decide)
  have hsum : p2slaveChecksum (data.store 0 (editPacket dev cmd)) 6 = editChecksum dev cmd :=
    checksum_congr fun i hi => (hbyte data i hi).trans (hbyte _ i hi).symm
  have hlast : data.store 0 (editPacket dev cmd) 6 = data 6 :=
    store_of_ge (editPacket dev cmd) data (Nat.le_refl 6)
  unfold P2SlavePkt.Complete
  simp only
  rw [verify_iff, hfirst]
  show p2slaveChecksum _ 6 = data.store 0 _ 6 ↔ _
  rw [hsum, hlast, eq_comm]

/-! ### What a request hands on -/

/-- A request changes nothing of the ring but one record, and that one is a
packet if the request comes to a slot that is sealed. -/
theorem handle_ring (x : P2SlaveIn) {s : P2Service TC} (hopen : s.dev.opens ≠ 0) (pout pin : Buf) :
    (p2slaveHandlePkt x s.dev pout pin).2.opens = s.dev.opens ∧
      ((p2slaveHandlePkt x s.dev pout pin).2.buffer = s.dev.buffer ∨
        ∃ l, (p2slaveHandlePkt x s.dev pout pin).2.buffer = s.dev.buffer.received x.now l ∧
          (P2SlavePkt.Complete ⟨x.now, (s.dev.buffer.buf s.dev.buffer.write).data.store 0 l⟩ ↔
            s.Sealed (.request x pout pin))) := by
  cases hpin : p2slaveChecksumVerify pin with
  | true =>
    rw [handle_bad x s.dev pout hpin]
    exact ⟨rfl, .inl rfl⟩
  | false =>
    rw [(handle_good x s.dev pout hpin).2]
    cases hl : forwarded s.dev pin with
    | none => exact ⟨rfl, .inl rfl⟩
    | some l =>
      unfold P2Slave.forward
      simp only
      rw [if_pos hopen]
      refine ⟨rfl, .inr ⟨l, rfl, ?_⟩⟩
      unfold forwarded at hl
      split_ifs at hl with hsense hedit
      · obtain rfl := Option.some.inj hl
        rw [complete_edit]
        exact ⟨fun h _ _ => h, fun h => h hpin hedit⟩
      · obtain rfl := Option.some.inj hl
        rw [complete_forward]
        exact ⟨fun _ _ h => absurd h hedit, fun _ => hpin⟩

/-! ### Every record delivered -/

theorem P2Service.Serves.request {s : P2Service TC} {n : ℕ} (h : s.Serves n) {x : P2SlaveIn}
    {pout pin : Buf} (hok : s.Sealed (.request x pout pin)) :
    ∃ n', (s.step (.request x pout pin)).Serves n' := by
  obtain ⟨hopens, hbuf | ⟨l, hbuf, hcomplete⟩⟩ := handle_ring x h.opens pout pin
  · refine ⟨n, hopens.trans_ne h.opens, ?_, ?_, h.call, h.calls⟩
    · unfold P2Service.step
      simp only
      rw [hbuf]
      exact h.slots
    · unfold P2Service.step
      simp only
      rw [hbuf]
      exact h.read
  · refine ⟨n + 1, hopens.trans_ne h.opens, ?_, ?_, ?_, h.calls⟩
    · unfold P2Service.step
      simp only
      rw [hbuf]
      exact h.slots.push (by decide) (hcomplete.mpr hok)
    · unfold P2Service.step
      simp only
      rw [hbuf]
      exact ⟨h.read.1, h.read.2.trans (Nat.le_succ n)⟩
    · intro call rp got hcall hp
      obtain ⟨⟨hrp, hle⟩, hgot⟩ := h.call call rp got hcall hp
      exact ⟨⟨hrp, hle.trans (Nat.le_succ n)⟩, hgot⟩

/-- A step of the call under way. -/
theorem P2Service.Serves.go {s : P2Service TC} {n : ℕ} (h : s.Serves n) (x : P2ReadIn) :
    (s.step (.go x)).Serves n := by
  unfold P2Service.step
  cases hcall : s.call with
  | none => exact h
  | some call =>
    cases call with
    | waiting count nonblock =>
      simp only [p2slaveRead]
      split_ifs
      · exact h.stop fun pkt hpkt => absurd hpkt List.not_mem_nil
      · exact h.stop fun pkt hpkt => absurd hpkt List.not_mem_nil
      · exact h.goOn fun rp got hp => by cases hp
      · refine h.goOn fun rp got hp => ?_
        cases hp
        exact ⟨h.read, fun pkt hpkt => absurd hpkt List.not_mem_nil⟩
    | copying count rp got =>
      obtain ⟨⟨hrp, hle⟩, hgot⟩ := h.call _ rp got hcall rfl
      have hsame : ∀ rp' got', (P2Read.ending rp got).progress = some (rp', got') →
          (rp' < p2slaveBufsize ∧ rp' ≤ n) ∧ ∀ pkt ∈ got', P2SlavePkt.Complete pkt := by
        rintro rp' got' ⟨⟩
        exact ⟨⟨hrp, hle⟩, hgot⟩
      simp only [p2slaveRead]
      by_cases hend : rp = s.dev.buffer.write
      · rw [if_pos hend]
        exact h.goOn hsame
      rw [if_neg hend]
      by_cases hfull : p2slavePktBytes * got.length + p2slavePktBytes > count
      · rw [if_pos hfull]
        exact h.goOn hsame
      rw [if_neg hfull]
      by_cases hfault : x.fault = true
      · rw [if_pos hfault]
        exact h.stop hgot
      · rw [if_neg hfault]
        refine h.goOn fun rp' got' hp => ?_
        cases hp
        -- the record copied is in a slot that was written
        refine ⟨⟨RingBuf.next_lt hrp, h.slots.next_le hrp hle hend⟩, fun pkt hpkt => ?_⟩
        rcases List.mem_append.mp hpkt with hpkt | hpkt
        · exact hgot pkt hpkt
        · rw [List.mem_singleton.mp hpkt]
          exact h.slots.get hrp hle hend
    | ending rp got =>
      obtain ⟨hrp, hgot⟩ := h.call _ rp got hcall rfl
      have hstop :
        P2Service.Serves ⟨s.dev, none, s.calls ++ [(((p2slavePktBytes * got.length : ℕ) : ℤ), got)]⟩
          n :=
        h.stop hgot
      exact ⟨h.opens, h.slots, hrp, hstop.call, hstop.calls⟩

theorem P2Service.Serves.step {s : P2Service TC} {n : ℕ} (h : s.Serves n) {e : P2Event TC}
    (hok : s.Sealed e) :
    ∃ n', (s.step e).Serves n' := by
  cases e with
  | request x pout pin => exact h.request hok
  | set data => exact ⟨n, h.opens, h.slots, h.read, h.call, h.calls⟩
  | read count nonblock =>
    refine ⟨n, ?_⟩
    unfold P2Service.step
    cases s.call with
    | none => exact h.goOn fun rp got hp => by cases hp
    | some call => exact h
  | go x => exact ⟨n, h.go x⟩

/-- As long as Edit On and Edit Off come to slots that are sealed, every record
delivered since the open is a packet whose checksum verifies. -/
theorem delivers_packets {dev : P2Slave TC} (hopens : 0 ≤ dev.opens) {s : P2Service TC}
    (h : Runs.Reach P2Service.step P2Service.Sealed (P2Service.opened dev) s) :
    ∀ pkt ∈ s.delivered, pkt.Complete := by
  obtain ⟨n, hn⟩ := h.inv (I := fun s : P2Service TC => ∃ n, s.Serves n) ⟨0, .opened hopens⟩
    fun s e ⟨n, hn⟩ hok => hn.step hok
  exact hn.delivered

/-- A play and an Edit On, whose slot is sealed for the timecode there is, are read. -/
theorem delivers_packets_one :
    let data : P2SlaveData ℕ := { (P2Slave.new : P2Slave ℕ).data with tc := 0x78 }
    let s := [.set data,
      P2Event.request ⟨7, fun _ => 0⟩ (fun _ => 0) (Buf.store (fun _ => 0) 0 [0x20, 0x01, 0x21]),
      .request ⟨8, fun _ => 0⟩ (fun _ => 0) (Buf.store (fun _ => 0) 0 [0x20, 0x64, 0x84]),
      .read 96 true, .go ⟨false, false⟩, .go ⟨false, false⟩, .go ⟨false, false⟩].foldl
        P2Service.step (.opened (P2Slave.new : P2Slave ℕ))
    s.delivered.length = 2 ∧ ∀ pkt ∈ s.delivered, pkt.Complete := by
  intro data s
  refine ⟨by decide, delivers_packets (show 0 ≤ (P2Slave.new : P2Slave ℕ).opens from le_rfl)
    (.of_along _ ⟨trivial, fun _ hedit => ?_, fun _ _ => ?_, ?_⟩)⟩
  · exact absurd hedit (by decide)
  · -- the checksum of the packet is 0, and so is the slot's seventh byte
    decide
  · exact ⟨trivial, trivial, trivial, trivial, trivial⟩

/-- Not every record is a packet: what a fresh device hands on for Edit On is read
without its checksum. -/
theorem delivers_part_of_packet : ¬ ∀ (dev : P2Slave ℕ) (s : P2Service ℕ), 0 ≤ dev.opens →
    Runs.Reach P2Service.step (fun _ _ => True) (P2Service.opened dev) s →
    ∀ pkt ∈ s.delivered, pkt.Complete := by
  intro h
  have hedit := h P2Slave.new _ le_rfl (.of_along [.request ⟨7, fun _ => 0⟩ (fun _ => 0)
    (Buf.store (fun _ => 0) 0 [0x20, 0x64, 0x84]), .read 48 true, .go ⟨false, false⟩,
    .go ⟨false, false⟩] (Runs.along_true _ _)) _ (List.mem_cons_self ..)
  exact absurd hedit (by decide)

end AjaDriver
