/-
# A conversation on the serial line

The serial port with the P2 slave behind it is a server: it takes packets and
answers each with one packet, in order. `serve` is that server, with no
interrupts and no buffers in it; a run of the port, whatever pieces its
requests arrive in, however the replies are cut up by the transmit FIFO and
whatever is done to the device between two requests, sends what `serve`
sends (`conversation`). Since every reply says its own length, the other end
cuts the stream back into the replies.
-/
import AjaDriver.Lib.Packets
import AjaDriver.P2Slave.Respond
import AjaDriver.Serial.Bounds

namespace AjaDriver

open Function

/-! ### One exchange -/

/-- A request on the line: the interrupts before its last piece, the rx
interrupt that brings it, and those while the reply goes out. -/
structure Exchange where
  request : List Byte
  x : P2SlaveIn
  before : List SerialIrq
  fifo : List (BitVec 4 × Byte)
  full : ℕ → Bool
  after : List SerialIrq

def Exchange.irqs (e : Exchange) : List SerialIrq := e.before ++ .rx e.fifo e.full :: e.after

section Port

variable {D : Type}

/-- The interrupts of an exchange arrive without errors, bring the request and
nothing else, and do not end before the reply is out. -/
structure Exchange.Orderly (handle : D → Buf → Buf → Buf × D) (c : Serial D)
    (e : Exchange) : Prop where
  whole : WholePacket e.request
  brings : e.before.flatMap SerialIrq.received ++ e.fifo.map Prod.snd = e.request
  quiet : ∀ q ∈ e.after, q.isRx = false
  undisturbed : Runs.Along (Serial.step handle) Undisturbed c e.irqs
  answered : (e.irqs.foldl (Serial.step handle) c).pkt.state = .rx

/-- Only a request's last piece changes the device. -/
theorem p2slave_quiet {handle : D → Buf → Buf → Buf × D} : ∀ (irqs : List SerialIrq) {c : Serial D},
    Runs.Along (Serial.step handle) Undisturbed c irqs → (∀ q ∈ irqs, q.isRx = false) →
    (irqs.foldl (Serial.step handle) c).p2slave = c.p2slave
  | [], _, _, _ => rfl
  | q :: irqs, c, ⟨hu, hrun⟩, hrx => by
    have hone : (Serial.step handle c q).p2slave = c.p2slave := by
      cases q with
      | rx fifo full => exact absurd (hrx _ (List.mem_cons_self ..)) (by simp [SerialIrq.isRx])
      | tx full => exact (slavepktTx_frame full c).2.2
      | audioWrap => exact (audioWrap_undisturbed hu).2.1
    rw [List.foldl_cons, p2slave_quiet irqs hrun fun q hq => hrx q (List.mem_cons_of_mem _ hq),
      hone]

theorem replyBytes_packet (pout : Buf) :
    replyBytes pout = (packetBytes pout).map fun b => (b.toNat : ℤ) := by
  unfold packetBytes
  rw [List.map_map]
  rfl

/-- An exchange calls the P2 slave once, with a buffer that begins with the
request, sends the packet it writes, and leaves the port idle. -/
theorem Exchange.Orderly.done {handle : D → Buf → Buf → Buf × D} {c : Serial D} {e : Exchange}
    (h : e.Orderly handle c) (hidle : c.pkt.Idle) {dev : D} (hslave : c.p2slave = some dev) :
    ∃ pin, pin.Begins e.request ∧
      let d := e.irqs.foldl (Serial.step handle) c
      let a := handle dev c.pkt.outb pin
      d.sent = c.sent ++ (packetBytes a.1).map (fun b => (b.toNat : ℤ)) ∧
        d.calls = c.calls ++ [(pin, a.1)] ∧
        d.p2slave = some a.2 ∧ d.pkt.Idle := by
  obtain ⟨hbefore, hu, hrest⟩ := (Runs.along_append _ _).mp h.undisturbed
  have hstart : Receiving e.request [] dev c.pkt.outb c :=
    ⟨hslave, hidle.state, hidle.inpt, fun h => absurd rfl h, hidle.outpt, rfl,
      fun j b hj => by simp at hj⟩
  have hne : e.fifo.map Prod.snd ≠ [] := fun h => hu.1 (List.map_eq_nil_iff.mp h)
  obtain ⟨hrecv, hsent, hcalls⟩ := receiving_run h.whole e.before hstart hbefore h.brings hne
  rw [List.nil_append] at hrecv
  set s := e.before.foldl (Serial.step handle) c
  obtain ⟨d, hd, hio, hstep⟩ := hrecv.rx h.whole handle hu ((List.append_nil _).trans h.brings)
  rw [h.brings] at hd hstep
  rw [if_pos le_rfl] at hstep
  obtain ⟨m, hm, hmcalls⟩ := hd.handled handle e.full
  have hrx : Serial.step handle s (.rx e.fifo e.full) = slavepktHandle handle e.full dev d := hstep
  rw [hrx] at hrest
  obtain ⟨n, -, hn, hncalls⟩ := replying_run e.after hm hrest h.quiet
  have hend : e.irqs.foldl (Serial.step handle) c =
      e.after.foldl (Serial.step handle) (slavepktHandle handle e.full dev d) := by
    unfold Exchange.irqs
    rw [List.foldl_append, List.foldl_cons, hrx]
  -- the last byte is out, or the port would still be sending
  have hall : n = slavepktSize (handle dev c.pkt.outb d.pkt.inb).1 := by
    by_contra hlt
    have hbusy := (hn.busy (lt_of_le_of_ne hn.le hlt)).1
    have hdone := h.answered
    rw [hend, hbusy] at hdone
    cases hdone
  have hdev :
      (slavepktHandle handle e.full dev d).p2slave = some (handle dev c.pkt.outb d.pkt.inb).2 := by
    unfold slavepktHandle
    rw [(slavepktTx_frame e.full _).2.2, hd.outb]
  refine ⟨d.pkt.inb, hd.begins, ?_⟩
  simp only
  rw [hend]
  refine ⟨?_, ?_, (p2slave_quiet e.after hrest h.quiet).trans hdev, hn.idle hall⟩
  · have hbytes : (replyBytes (handle dev c.pkt.outb d.pkt.inb).1).take n =
        replyBytes (handle dev c.pkt.outb d.pkt.inb).1 := by
      rw [hall]
      exact List.take_of_length_le (by simp [replyBytes])
    rw [hn.sent, sent_congr hio, hsent, hbytes, replyBytes_packet]
  · rw [hncalls, hmcalls, calls_congr hio, hcalls]

end Port

/-! ### The server -/

variable {TC : Type} [Timecode TC]

/-- What happens to the port: a request and its reply, or something done to the
device in between. -/
inductive LineEvent (TC : Type)
  | exchange (e : Exchange)
  | update (f : P2Slave TC → P2Slave TC)

/-- What it does to the port. -/
def LineEvent.step (c : Serial (P2Slave TC)) : LineEvent TC → Serial (P2Slave TC)
  | .exchange e => e.irqs.foldl (Serial.step (p2slaveHandlePkt e.x)) c
  | .update f => { c with p2slave := c.p2slave.map f }

/-- Every exchange is orderly. -/
def LineEvent.Orderly (c : Serial (P2Slave TC)) : LineEvent TC → Prop
  | .exchange e => e.Orderly (p2slaveHandlePkt e.x) c
  | .update _ => True

/-- The server: the packets it answers with, and its device at the end. -/
def serve : P2Slave TC → List (LineEvent TC) → List (List Byte) × P2Slave TC
  | dev, [] => ([], dev)
  | dev, .exchange e :: events =>
    let a := respond e.x dev e.request
    (a.1 :: (serve a.2 events).1, (serve a.2 events).2)
  | dev, .update f :: events => serve (f dev) events

/-- The length a packet's first byte announces. -/
def announced (b : Byte) : ℕ := (b &&& 0x0F).toNat + 3

theorem serve_sealed : ∀ (events : List (LineEvent TC)) (dev : P2Slave TC),
    ∀ p ∈ (serve dev events).1, ∃ l, Body l ∧ p = sealPacket l
  | [], _, p, hp => by simp [serve] at hp
  | .exchange e :: events, dev, p, hp => by
    rcases List.mem_cons.mp hp with rfl | hp
    · exact respond_sealed e.x dev e.request
    · exact serve_sealed events _ p hp
  | .update f :: events, dev, p, hp => serve_sealed events (f dev) p hp

/-- A run of the port and the same run of the server. -/
theorem serve_run : ∀ (events : List (LineEvent TC)) {c : Serial (P2Slave TC)}
    {dev : P2Slave TC}, c.pkt.Idle →
    c.p2slave = some dev → Runs.Along LineEvent.step LineEvent.Orderly c events →
    (events.foldl LineEvent.step c).sent = c.sent ++
      (serve dev events).1.flatten.map (fun b => (b.toNat : ℤ)) ∧
      (events.foldl LineEvent.step c).calls.length = c.calls.length + (serve dev events).1.length ∧
      (events.foldl LineEvent.step c).p2slave = some (serve dev events).2 ∧
      (events.foldl LineEvent.step c).pkt.Idle
  | [], c, dev, hidle, hslave, _ => ⟨(List.append_nil _).symm, rfl, hslave, hidle⟩
  | .exchange e :: events, c, dev, hidle, hslave, ⟨hone, hrun⟩ => by
    obtain ⟨pin, hpin, hsent, hcalls, hdev, hidle'⟩ := Exchange.Orderly.done hone hidle hslave
    obtain ⟨hbytes, hdev'⟩ := handle_respond e.x dev hone.whole c.pkt.outb hpin
    rw [hbytes] at hsent
    rw [hdev'] at hdev
    obtain ⟨hs, hc, hd, hi⟩ := serve_run events hidle' hdev hrun
    refine ⟨hs.trans ?_, hc.trans ?_, hd, hi⟩
    · show _ = c.sent ++ ((respond e.x dev e.request).1 :: _).flatten.map _
      rw [hsent, List.flatten_cons, List.map_append, List.append_assoc]
    · show _ = c.calls.length + ((respond e.x dev e.request).1 :: _).length
      rw [hcalls, List.length_append, List.length_cons, List.length_cons, List.length_nil]
      omega
  | .update f :: events, c, dev, hidle, hslave, ⟨_, hrun⟩ => by
    have hslave' : (LineEvent.step c (.update f)).p2slave = some (f dev) :=
      congrArg (Option.map f) hslave
    exact serve_run events (c := LineEvent.step c (.update f)) hidle hslave' hrun

/-- From an idle port, in every conversation: the port has sent the server's
replies, one behind the other, with one call of the P2 slave each; its device
is the server's, and it is idle again. The replies are whole packets with their
checksums, and cutting the stream at the lengths announced gives them back. -/
theorem conversation {c : Serial (P2Slave TC)} {dev : P2Slave TC} (hidle : c.pkt.Idle)
    (hslave : c.p2slave = some dev) {events : List (LineEvent TC)}
    (hrun : Runs.Along LineEvent.step LineEvent.Orderly c events) :
    let d := events.foldl LineEvent.step c
    let a := serve dev events
    d.sent = c.sent ++ a.1.flatten.map (fun b => (b.toNat : ℤ)) ∧
      d.calls.length = c.calls.length + a.1.length ∧
      d.p2slave = some a.2 ∧ d.pkt.Idle ∧ (∀ p ∈ a.1, ∃ l, Body l ∧ p = sealPacket l) ∧
      Packets.cut announced a.1.flatten = a.1 := by
  obtain ⟨hsent, hcalls, hdev, hi⟩ := serve_run events hidle hslave hrun
  refine ⟨hsent, hcalls, hdev, hi, serve_sealed events dev, Packets.cut_flatten fun p hp => ?_⟩
  obtain ⟨l, hl, rfl⟩ := serve_sealed events dev p hp
  exact hl.whole

/-- A STOP command in two pieces, then the device's id, set in between, with its
checksum wrong the first time. -/
def askId : List (LineEvent ℕ) :=
  [.exchange ⟨[0x20, 0x00, 0x20], ⟨0, fun _ => 0⟩, [.rx [(1, 0x20)] fun _ => false],
    [(1, 0x00), (1, 0x20)],
      fun _ => true, [.tx fun i => i == 2, .audioWrap, .tx fun _ => false]⟩,
    .update fun dev => { dev with data := { dev.data with id := 0x2025 } },
    .exchange ⟨[0x00, 0x11, 0x12], ⟨0, fun _ => 0⟩, [], [(1, 0x00), (1, 0x11), (1, 0x12)],
      fun _ => false, []⟩,
    .exchange ⟨[0x00, 0x11, 0x11], ⟨0, fun _ => 0⟩, [], [(1, 0x00), (1, 0x11), (1, 0x11)],
      fun _ => false, []⟩]

theorem conversation_id :
    (askId.foldl LineEvent.step (Serial.new P2Slave.new)).sent =
      [0x10, 0x01, 0x11] ++ [0x11, 0x12, 0x04, 0x27] ++ [0x12, 0x11, 0x20, 0x25, 0x68] := by
  have hidle : (Serial.new (P2Slave.new : P2Slave ℕ)).pkt.Idle := ⟨rfl, rfl, rfl, rfl, rfl⟩
  have hrun : Runs.Along LineEvent.step LineEvent.Orderly (Serial.new P2Slave.new) askId :=
    ⟨⟨⟨0x20, rfl, rfl⟩, rfl, by decide, by decide, by decide⟩, trivial,
      ⟨⟨0x00, rfl, rfl⟩, rfl, by decide, by decide, by decide⟩,
      ⟨⟨0x00, rfl, rfl⟩, rfl, by decide, by decide, by decide⟩, trivial⟩
  rw [(conversation hidle rfl hrun).1]
  rfl

end AjaDriver
