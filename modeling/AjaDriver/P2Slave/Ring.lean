/-
# Reading the P2 slave's packets

Userspace reads the packets the P2 slave hands on from a ring the writer never
looks back in. A call of `p2slave_read` is a sequence of steps, one for each
packet copied, with pushes in between; the read index is published in the last
one. While at most 127 packets wait, the ring is a queue: what the calls return
is what was pushed, in order, each once (`ring_lossless`). Behind that the ring
looks as if it held the packets modulo its size, and a round of 128 of them is
not seen at all (`overrun_seen_iff`).
-/
import AjaDriver.P2Slave.Handle
import AjaDriver.Lib.Ring
import AjaDriver.Lib.Runs
import Mathlib.Data.List.Forall2

namespace AjaDriver

open Function

variable {TC : Type}

/-! ### The file operations -/

def pollin : BitVec 32 := 0x0001
def pollrdnorm : BitVec 32 := 0x0040

/-- `sizeof(struct p2slave_pkt_t)`. -/
def p2slavePktBytes : ℕ := 48

/-- `p2slave_buffer_reset`. -/
def p2slaveBufferReset (dev : P2Slave TC) : P2Slave TC :=
  { dev with buffer := { dev.buffer with read := 0, write := 0 } }

/-- `p2slave_open`, of a device that is there. -/
def p2slaveOpen (dev : P2Slave TC) : P2Slave TC :=
  { p2slaveBufferReset dev with opens := dev.opens + 1 }

/-- `p2slave_poll`. -/
def p2slavePoll (dev : P2Slave TC) : BitVec 32 :=
  if dev.buffer.read ≠ dev.buffer.write then pollin ||| pollrdnorm else 0

/-- How far a call of `p2slave_read` has got: `got` is what was copied to
userspace, `rp` its own read index. -/
inductive P2Read
  | waiting (count : ℕ) (nonblock : Bool)
  | copying (count rp : ℕ) (got : List P2SlavePkt)
  | ending (rp : ℕ) (got : List P2SlavePkt)

/-- What a step of a call finds: a signal while it waits, a fault while it
copies. -/
structure P2ReadIn where
  signal : Bool
  fault : Bool

/-- A step of `p2slave_read`: the call goes on, or returns its result and what
was copied. -/
def p2slaveRead (x : P2ReadIn) (dev : P2Slave TC) :
    P2Read → P2Slave TC × (P2Read ⊕ ℤ × List P2SlavePkt)
  | .waiting count nonblock =>
    if dev.buffer.read = dev.buffer.write then
      if nonblock then (dev, .inr (-EAGAIN, []))
      else if x.signal then (dev, .inr (-ERESTARTSYS, []))
      else (dev, .inl (.waiting count nonblock))
    else (dev, .inl (.copying count dev.buffer.read []))
  | .copying count rp got =>
    if rp = dev.buffer.write then (dev, .inl (.ending rp got))
    else if p2slavePktBytes * got.length + p2slavePktBytes > count then (dev, .inl (.ending rp got))
    else if x.fault then (dev, .inr (- EIO, got))
    else
      (dev, .inl (.copying count (if rp + 1 ≥ p2slaveBufsize then 0 else rp + 1)
        (got ++ [dev.buffer.buf rp])))
  | .ending rp got =>
    ({ dev with buffer := { dev.buffer with read := rp } },
      .inr ((p2slavePktBytes * got.length : ℕ), got))

/-! ### A session -/

/-- A device that is open, with the call of its reader, if one is under way.
`pushed` are the packets pushed, with their times, and `calls` the calls that
have returned. -/
structure P2Session (TC : Type) where
  dev : P2Slave TC
  call : Option P2Read
  pushed : List (ℤ × List Byte)
  calls : List (ℤ × List P2SlavePkt)

/-- What happens in a session: a packet is pushed, a call begins, or the call
under way makes a step. -/
inductive P2Act
  | push (x : P2SlaveIn) (data : Buf) (size : ℕ)
  | read (count : ℕ) (nonblock : Bool)
  | go (x : P2ReadIn)

/-- One step of a session. There is one reader, so no call begins in another. -/
def P2Session.step (s : P2Session TC) : P2Act → P2Session TC
  | .push x data size =>
    { s with
      dev := p2slavePushpkt x s.dev data size
      pushed := s.pushed ++ [(x.now, (List.range size).map data)] }
  | .read count nonblock =>
    match s.call with
    | none => { s with call := some (.waiting count nonblock) }
    | some _ => s
  | .go x =>
    match s.call with
    | none => s
    | some call =>
      match p2slaveRead x s.dev call with
      | (dev, .inl call) => { s with dev := dev, call := some call }
      | (dev, .inr ret) => { s with dev := dev, call := none, calls := s.calls ++ [ret] }

/-- The packets the successful calls returned. -/
def P2Session.returned (s : P2Session TC) : List P2SlavePkt :=
  s.calls.flatMap fun ret => if 0 ≤ ret.1 then ret.2 else []

/-- A session begins. -/
def P2Session.opened (dev : P2Slave TC) : P2Session TC := ⟨p2slaveOpen dev, none, [], []⟩

/-- A packet fits a record, and at most 127 are not covered by the published
read index once it is pushed. -/
def P2Session.Within (s : P2Session TC) : P2Act → Prop
  | .push _ _ size => size ≤ 32 ∧ s.pushed.length + 1 ≤ s.returned.length + 127
  | .read _ _ => True
  | .go _ => True

/-! ### The ring as a queue -/

/-- A record with a packet and its time. -/
def Carries (pkt : P2SlavePkt) (p : ℤ × List Byte) : Prop := pkt.tstamp = p.1 ∧ pkt.data.Begins p.2

/-- From index `rp` on, the ring holds the packets `q`. -/
abbrev P2SlaveBuffer.Queued (b : P2SlaveBuffer) (rp : ℕ) (q : List (ℤ × List Byte)) : Prop :=
  RingBuf.Holds p2slaveBufsize Carries b.buf rp b.write q

/-- A packet comes in. -/
theorem P2SlaveBuffer.Queued.received {b : P2SlaveBuffer} {rp : ℕ} {q : List (ℤ × List Byte)}
    (h : b.Queued rp q) (hroom : q.length + 1 < p2slaveBufsize) (now : ℤ) (l : List Byte) :
    (b.received now l).Queued rp (q ++ [(now, l)]) := by
  have hbegins : ((b.buf b.write).data.store 0 l).Begins l := fun j b' hj => by
    have hget := store_get l (b.buf b.write).data 0 j hj
    rwa [Nat.zero_add] at hget
  exact RingBuf.Holds.push h hroom ⟨rfl, hbegins⟩

/-- The index and the packets of a call past its wait. -/
def P2Read.progress : P2Read → Option (ℕ × List P2SlavePkt)
  | .waiting _ _ => none
  | .copying _ rp got => some (rp, got)
  | .ending rp got => some (rp, got)

/-- The packets `done` were returned and `left` are in the ring; a call past
its wait has copied the first ones of `left`. -/
structure P2Session.Keeps (s : P2Session TC) (done left : List (ℤ × List Byte)) : Prop where
  opens : s.dev.opens ≠ 0
  pushed : s.pushed = done ++ left
  returned : List.Forall₂ Carries s.returned done
  ring : s.dev.buffer.Queued s.dev.buffer.read left
  reading : ∀ call rp got, s.call = some call → call.progress = some (rp, got) →
    ∃ front rest, left = front ++ rest ∧ List.Forall₂ Carries got front ∧
      s.dev.buffer.Queued rp rest

theorem P2Session.Keeps.opened {dev : P2Slave TC} (h : 0 ≤ dev.opens) :
    (P2Session.opened dev).Keeps [] [] where
  opens := by
    show dev.opens + 1 ≠ 0
    omega
  pushed := rfl
  returned := .nil
  ring := .nil (show 0 < 128 by decide)
  reading call rp got hcall := by cases hcall

/-- A call that fails or ends before it copies anything. -/
theorem returned_fail {s : P2Session TC} {ret : ℤ} {got : List P2SlavePkt}
    (h : ret < 0 ∨ got = []) :
    ({ s with call := none, calls := s.calls ++ [(ret, got)] } : P2Session TC).returned =
      s.returned := by
  unfold P2Session.returned
  rw [List.flatMap_append, List.flatMap_singleton]
  simp only
  rcases h with h | rfl
  · rw [if_neg (not_le.mpr h), List.append_nil]
  · rw [ite_self, List.append_nil]

theorem P2Session.Keeps.fail {s : P2Session TC} {done left : List (ℤ × List Byte)}
    (h : s.Keeps done left) {ret : ℤ} {got : List P2SlavePkt} (hret : ret < 0 ∨ got = []) :
    ({ s with call := none, calls := s.calls ++ [(ret, got)] } : P2Session TC).Keeps done left where
  opens := h.opens
  pushed := h.pushed
  returned := by
    rw [returned_fail hret]
    exact h.returned
  ring := h.ring
  reading call rp got hcall := by cases hcall

/-- A call goes on without the device. -/
theorem P2Session.Keeps.goOn {s : P2Session TC} {done left : List (ℤ × List Byte)}
    (h : s.Keeps done left)
    {call : P2Read} (hcall : ∀ rp got, call.progress = some (rp, got) →
      ∃ front rest, left = front ++ rest ∧ List.Forall₂ Carries got front ∧
      s.dev.buffer.Queued rp rest) :
    ({ s with call := some call } : P2Session TC).Keeps done left where
  opens := h.opens
  pushed := h.pushed
  returned := h.returned
  ring := h.ring
  reading c rp got hc hp := by
    obtain rfl : call = c := Option.some.inj hc
    exact hcall rp got hp

theorem P2Session.Keeps.push {s : P2Session TC} {done left : List (ℤ × List Byte)}
    (h : s.Keeps done left) {x : P2SlaveIn} {data : Buf} {size : ℕ}
    (hw : s.Within (.push x data size)) :
    (s.step (.push x data size)).Keeps done (left ++ [(x.now, (List.range size).map data)]) := by
  obtain ⟨-, hle⟩ := hw
  rw [h.pushed, List.length_append, h.returned.length_eq] at hle
  have hroom : left.length + 1 < p2slaveBufsize := by
    unfold p2slaveBufsize
    omega
  unfold P2Session.step
  simp only
  rw [pushpkt_open x h.opens]
  refine ⟨h.opens, ?_, h.returned, P2SlaveBuffer.Queued.received h.ring hroom _ _,
    fun call rp got hcall hp => ?_⟩
  · simp only
    rw [h.pushed, List.append_assoc]
  · obtain ⟨front, rest, rfl, hgot, hq⟩ := h.reading call rp got hcall hp
    rw [List.length_append] at hroom
    exact ⟨front, rest ++ [_], List.append_assoc .., hgot,
      P2SlaveBuffer.Queued.received hq (by omega) _ _⟩

/-- A step of a call under way. -/
theorem P2Session.Keeps.go {s : P2Session TC} {done left : List (ℤ × List Byte)}
    (h : s.Keeps done left) (x : P2ReadIn) :
    ∃ done' left', (s.step (.go x)).Keeps done' left' := by
  unfold P2Session.step
  cases hcall : s.call with
  | none => exact ⟨done, left, h⟩
  | some call =>
    cases call with
    | waiting count nonblock =>
      refine ⟨done, left, ?_⟩
      simp only [p2slaveRead]
      by_cases hempty : s.dev.buffer.read = s.dev.buffer.write
      · rw [if_pos hempty]
        split_ifs
        · exact h.fail (.inr rfl)
        · exact h.fail (.inr rfl)
        · exact h.goOn fun rp got hp => by cases hp
      · rw [if_neg hempty]
        -- the copying starts at the published index
        refine h.goOn fun rp got hp => ?_
        cases hp
        exact ⟨[], left, rfl, .nil, h.ring⟩
    | copying count rp got =>
      refine ⟨done, left, ?_⟩
      obtain ⟨front, rest, hleft, hgot, hq⟩ := h.reading _ rp got hcall rfl
      have hsame : ∀ rp' got', (P2Read.ending rp got).progress = some (rp', got') →
          ∃ front rest, left = front ++ rest ∧ List.Forall₂ Carries got' front ∧
            s.dev.buffer.Queued rp' rest := by
        rintro rp' got' ⟨⟩
        exact ⟨front, rest, hleft, hgot, hq⟩
      simp only [p2slaveRead]
      by_cases hend : rp = s.dev.buffer.write
      · rw [if_pos hend]
        exact h.goOn hsame
      rw [if_neg hend]
      by_cases hfull : p2slavePktBytes * got.length + p2slavePktBytes > count
      · rw [if_pos hfull]
        exact h.goOn hsame
      rw [if_neg hfull]
      by_cases hfault : x.fault = true
      · rw [if_pos hfault]
        exact h.fail (.inl (by decide))
      · rw [if_neg hfault]
        refine h.goOn fun rp' got' hp => ?_
        cases hp
        obtain ⟨p, rest', rfl⟩ := hq.exists_head hend
        have hfront : left = (front ++ [p]) ++ rest' := by
          rw [hleft, List.append_assoc]
          rfl
        exact ⟨front ++ [p], rest', hfront, List.rel_append hgot (.cons hq.head .nil), hq.pop⟩
    | ending rp got =>
      obtain ⟨front, rest, rfl, hgot, hq⟩ := h.reading _ rp got hcall rfl
      refine ⟨done ++ front, rest, h.opens, ?_, ?_, hq, fun call rp got hc => by cases hc⟩
      · simp only [p2slaveRead]
        rw [h.pushed, List.append_assoc]
      · unfold P2Session.returned
        simp only [p2slaveRead]
        rw [List.flatMap_append, List.flatMap_singleton]
        simp only
        rw [if_pos (Int.natCast_nonneg _)]
        exact List.rel_append h.returned hgot

theorem P2Session.Keeps.step {s : P2Session TC} {done left : List (ℤ × List Byte)}
    (h : s.Keeps done left) {a : P2Act} (ha : s.Within a) :
    ∃ done' left', (s.step a).Keeps done' left' := by
  cases a with
  | push x data size => exact ⟨_, _, h.push ha⟩
  | read count nonblock =>
    refine ⟨done, left, ?_⟩
    unfold P2Session.step
    cases s.call with
    | none => exact h.goOn fun rp got hp => by cases hp
    | some call => exact h
  | go x => exact h.go x

theorem poll_iff (dev : P2Slave TC) :
    p2slavePoll dev &&& pollin ≠ 0 ↔ dev.buffer.read ≠ dev.buffer.write := by
  unfold p2slavePoll
  split_ifs with hne
  · exact ⟨fun _ => hne, fun _ => by decide⟩
  · exact ⟨fun h0 => absurd (by decide) h0, fun h0 => absurd h0 hne⟩

/-- While at most 127 pushed packets are not covered by the read index, the
packets returned are the first ones pushed, in order, and poll tells whether
there are more. -/
theorem ring_lossless {dev : P2Slave TC} (hopens : 0 ≤ dev.opens) {s : P2Session TC}
    (h : Runs.Reach P2Session.step P2Session.Within (P2Session.opened dev) s) :
    s.returned.length ≤ s.pushed.length ∧
      List.Forall₂ Carries s.returned (s.pushed.take s.returned.length) ∧
      (p2slavePoll s.dev &&& pollin ≠ 0 ↔ s.returned.length < s.pushed.length) := by
  obtain ⟨done, left, hk⟩ :=
    h.inv (I := fun s : P2Session TC => ∃ done left, s.Keeps done left) ⟨[], [], .opened hopens⟩
    fun s a ⟨done, left, hk⟩ ha => hk.step ha
  have hlen := hk.returned.length_eq
  rw [hk.pushed, List.length_append, hlen, List.take_left']
  · refine ⟨Nat.le_add_right .., hk.returned, ?_⟩
    rw [poll_iff, Ne, hk.ring.eq_iff, Nat.lt_add_right_iff_pos, List.length_pos_iff]
  · rfl

instance P2Session.Within.decidable (s : P2Session TC) : ∀ a, Decidable (s.Within a)
  | .push _ _ _ => inferInstanceAs (Decidable (_ ∧ _))
  | .read _ _ => instDecidableTrue
  | .go _ => instDecidableTrue

/-- Two packets are pushed, the second while a call with room for one copies the
first. -/
theorem ring_lossless_two :
    p2slavePoll
      (([P2Act.push ⟨7, fun _ => 0⟩ (fun _ => 1) 3, .read 48 true, .go ⟨false, false⟩,
        .go ⟨false, false⟩, .push ⟨9, fun _ => 0⟩ (fun _ => 2) 4, .go ⟨false, false⟩,
        .go ⟨false, false⟩].foldl P2Session.step
          (.opened (P2Slave.new : P2Slave ℕ))).dev) &&& pollin ≠ 0 := by
  have hrun : Runs.Along P2Session.step P2Session.Within (.opened (P2Slave.new : P2Slave ℕ))
      [P2Act.push ⟨7, fun _ => 0⟩ (fun _ => 1) 3, .read 48 true, .go ⟨false, false⟩,
        .go ⟨false, false⟩,
        .push ⟨9, fun _ => 0⟩ (fun _ => 2) 4, .go ⟨false, false⟩, .go ⟨false, false⟩] := by
    decide
  obtain ⟨-, -, hpoll⟩ := ring_lossless (show 0 ≤ (P2Slave.new : P2Slave ℕ).opens from le_rfl)
    (.of_along _ hrun)
  exact hpoll.mpr (by decide)

/-! ### Overruns -/

/-- The indices stay inside the ring, whatever the number of packets. -/
structure P2Session.InRing (s : P2Session TC) : Prop where
  opens : s.dev.opens ≠ 0
  read : s.dev.buffer.read < p2slaveBufsize
  write : s.dev.buffer.write < p2slaveBufsize
  call : ∀ call rp got, s.call = some call → call.progress = some (rp, got) → rp < p2slaveBufsize

theorem P2Session.InRing.step {s : P2Session TC} (h : s.InRing) (a : P2Act) :
    (s.step a).InRing := by
  cases a with
  | push x data size =>
    unfold P2Session.step
    simp only
    rw [pushpkt_open x h.opens]
    exact ⟨h.opens, h.read, RingBuf.next_lt h.write, h.call⟩
  | read count nonblock =>
    unfold P2Session.step
    cases s.call with
    | none => exact ⟨h.opens, h.read, h.write, by rintro _ rp got ⟨⟩ hp; cases hp⟩
    | some call => exact h
  | go x =>
    unfold P2Session.step
    cases hcall : s.call with
    | none => exact h
    | some call =>
      have hstop : ∀ ret, InRing { s with call := none, calls := s.calls ++ [ret] } := fun ret =>
        ⟨h.opens, h.read, h.write, by rintro _ rp got ⟨⟩⟩
      have hgoOn : ∀ c : P2Read, (∀ rp got, c.progress = some (rp, got) → rp < p2slaveBufsize) →
          InRing { s with call := some c } := fun c hc =>
        ⟨h.opens, h.read, h.write, by rintro _ rp got ⟨⟩ hp; exact hc rp got hp⟩
      cases call with
      | waiting count nonblock =>
        simp only [p2slaveRead]
        split_ifs
        · exact hstop _
        · exact hstop _
        · exact hgoOn _ fun rp got hp => by cases hp
        · exact hgoOn _ fun rp got hp => by cases hp; exact h.read
      | copying count rp got =>
        have hrp := h.call _ rp got hcall rfl
        simp only [p2slaveRead]
        split_ifs
        · exact hgoOn _ fun rp' got' hp => by cases hp; exact hrp
        · exact hgoOn _ fun rp' got' hp => by cases hp; exact hrp
        · exact hstop _
        · exact hgoOn _ fun rp' got' hp => by cases hp; exact Nat.zero_lt_of_lt hrp
        · exact hgoOn _ fun rp' got' hp => by cases hp; omega
      | ending rp got =>
        exact ⟨h.opens, h.call _ rp got hcall rfl, h.write, by rintro _ rp got ⟨⟩⟩

theorem P2Session.InRing.reach {dev : P2Slave TC} (hopens : 0 ≤ dev.opens)
    {ok : P2Session TC → P2Act → Prop} {s : P2Session TC}
    (h : Runs.Reach P2Session.step ok (P2Session.opened dev) s) : s.InRing := by
  refine h.inv ⟨?_, ?_, ?_, ?_⟩ fun s a hs _ => hs.step a
  · show dev.opens + 1 ≠ 0
    omega
  · show 0 < 128
    decide
  · show 0 < 128
    decide
  · rintro call rp got ⟨⟩

/-- Packets pushed one after the other. -/
def pushes (pkts : List (P2SlaveIn × Buf × ℕ)) : List P2Act :=
  pkts.map fun p => .push p.1 p.2.1 p.2.2

/-- The writer goes round and round. -/
theorem pushes_write : ∀ (pkts : List (P2SlaveIn × Buf × ℕ)) {s : P2Session TC}, s.InRing →
    ((pushes pkts).foldl P2Session.step s).dev.buffer.write = (s.dev.buffer.write + pkts.length) %
      p2slaveBufsize ∧
      ((pushes pkts).foldl P2Session.step s).dev.buffer.read = s.dev.buffer.read ∧
      ((pushes pkts).foldl P2Session.step s).call = s.call
  | [], s, h => ⟨(Nat.mod_eq_of_lt h.write).symm, rfl, rfl⟩
  | (x, data, size) :: pkts, s, h => by
    obtain ⟨hwrite, hread, hcall⟩ := pushes_write pkts (h.step (.push x data size))
    have hone : (s.step (.push x data size)).dev.buffer = s.dev.buffer.received x.now
        ((List.range size).map data) := by
      show (p2slavePushpkt x s.dev data size).buffer = _
      rw [pushpkt_open x h.opens]
    have hlt := h.write
    rw [hone] at hwrite hread
    refine ⟨hwrite.trans ?_, hread, hcall⟩
    unfold P2SlaveBuffer.received
    simp only [List.length_cons]
    unfold p2slaveBufsize at hlt ⊢
    split_ifs <;> omega

/-- The packets that seem to be in the ring. -/
def P2SlaveBuffer.backlog (b : P2SlaveBuffer) : ℕ :=
  (b.write + p2slaveBufsize - b.read) % p2slaveBufsize

/-- The call under way makes the step `x` again and again. -/
def P2Session.goes (s : P2Session TC) (x : P2ReadIn) (k : ℕ) : P2Session TC :=
  (List.replicate k (.go x)).foldl P2Session.step s

/-- Copying comes to an end, with what was copied so far and maybe more. -/
theorem copying_ends {x : P2ReadIn} (hx : x.fault = false) {count : ℕ} :
    ∀ (m : ℕ) {s : P2Session TC} {rp : ℕ}
    {got : List P2SlavePkt}, s.call = some (.copying count rp got) → rp < p2slaveBufsize →
    s.dev.buffer.write < p2slaveBufsize →
      (s.dev.buffer.write + p2slaveBufsize - rp) % p2slaveBufsize = m →
    ∃ k rp' more, (s.goes x k).call = some (.ending rp' (got ++ more)) ∧
      (s.goes x k).calls = s.calls := by
  intro m
  induction m with
  | zero =>
    intro s rp got hcall hrp hw hm
    have hend : rp = s.dev.buffer.write := by
      unfold p2slaveBufsize at *
      omega
    refine ⟨1, rp, [], ?_, ?_⟩ <;>
    · unfold P2Session.goes P2Session.step
      simp [hcall, p2slaveRead, hend]
  | succ m ih =>
    intro s rp got hcall hrp hw hm
    have hne : rp ≠ s.dev.buffer.write := by
      rintro rfl
      unfold p2slaveBufsize at *
      omega
    by_cases hfull : p2slavePktBytes * got.length + p2slavePktBytes > count
    · refine ⟨1, rp, [], ?_, ?_⟩ <;>
      · unfold P2Session.goes P2Session.step
        simp [hcall, p2slaveRead, hne, hfull]
    · have hstep : s.step (.go x) = { s with
          call := some (.copying count (if rp + 1 ≥ p2slaveBufsize then 0 else rp + 1)
            (got ++ [s.dev.buffer.buf rp])) } := by
        unfold P2Session.step
        simp only [hcall, p2slaveRead]
        rw [if_neg hne, if_neg hfull, hx]
        rfl
      have hlt : (if rp + 1 ≥ p2slaveBufsize then 0 else rp + 1) < p2slaveBufsize :=
        RingBuf.next_lt hrp
      have hdist :
        (s.dev.buffer.write + p2slaveBufsize - (if rp + 1 ≥ p2slaveBufsize then 0 else rp + 1)) %
          p2slaveBufsize = m := by
        unfold p2slaveBufsize at *
        split_ifs <;> omega
      obtain ⟨k, rp', more, hk, hcalls⟩ :=
        ih (s := s.step (.go x)) (by rw [hstep]) hlt (by rw [hstep]; exact hw)
        (by rw [hstep]; exact hdist)
      refine ⟨k + 1, rp', [s.dev.buffer.buf rp] ++ more, ?_, ?_⟩
      · rw [← List.append_assoc]
        exact hk
      · show ((s.step (.go x)).goes x k).calls = s.calls
        rw [hcalls, hstep]

theorem goes_add (s : P2Session TC) (x : P2ReadIn) (k l : ℕ) :
    s.goes x (k + l) = (s.goes x k).goes x l := by
  unfold P2Session.goes
  rw [List.replicate_add, List.foldl_append]

theorem go_ending {s : P2Session TC} {rp : ℕ} {got : List P2SlavePkt}
    (h : s.call = some (.ending rp got)) (x : P2ReadIn) : (s.step (.go x)).calls = s.calls ++
      [(((p2slavePktBytes * got.length : ℕ) : ℤ), got)] := by
  unfold P2Session.step
  simp only [h, p2slaveRead]

/-- A call with nothing pushed while it runs and no fault returns at least one
packet. -/
def P2Session.ReturnsSome (s : P2Session TC) (count : ℕ) (nonblock signal : Bool) : Prop :=
  ∃ k got, got ≠ [] ∧ ((s.step (.read count nonblock)).goes ⟨signal, false⟩ k).calls =
    s.calls ++ [(((p2slavePktBytes * got.length : ℕ) : ℤ), got)]

theorem returnsSome {s : P2Session TC} (h : s.InRing) (hcall : s.call = none)
    (hne : s.dev.buffer.read ≠ s.dev.buffer.write) {count : ℕ} (hroom : p2slavePktBytes ≤ count)
    (nonblock signal : Bool) : s.ReturnsSome count nonblock signal := by
  set x : P2ReadIn := ⟨signal, false⟩
  -- the wait is over at once, and there is room for the first packet
  have htwo : (s.step (.read count nonblock)).goes x 2 = { s with call := some (.copying count
      (RingBuf.next p2slaveBufsize s.dev.buffer.read) [s.dev.buffer.buf s.dev.buffer.read]) } := by
    have hbegin :
        s.step (.read count nonblock) = { s with call := some (.waiting count nonblock) } := by
      unfold P2Session.step
      rw [hcall]
    rw [hbegin]
    unfold P2Session.goes P2Session.step
    simp only [List.replicate, List.foldl_cons, List.foldl_nil, p2slaveRead, if_neg hne]
    rw [if_neg (show ¬ p2slavePktBytes * ([] : List P2SlavePkt).length + p2slavePktBytes >
      count by simpa using hroom)]
    rfl
  obtain ⟨k, rp, more, hk, hcalls⟩ :=
    copying_ends (x := x) rfl _ (s := (s.step (.read count nonblock)).goes x 2)
    (by rw [htwo]) (RingBuf.next_lt h.read) (by rw [htwo]; exact h.write) rfl
  refine ⟨2 + k + 1, [s.dev.buffer.buf s.dev.buffer.read] ++ more, by simp, ?_⟩
  rw [goes_add, goes_add]
  show (P2Session.step _ (.go x)).calls = _
  rw [go_ending hk, hcalls, htwo]

/-- Packets pushed behind what is in the ring are seen exactly when all
together are no whole number of rounds. -/
theorem overrun_seen_iff {dev : P2Slave TC} (hopens : 0 ≤ dev.opens) {s : P2Session TC}
    (h : Runs.Reach P2Session.step (fun _ _ => True) (P2Session.opened dev) s)
    (hcall : s.call = none) (pkts : List (P2SlaveIn × Buf × ℕ)) :
    (p2slavePoll ((pushes pkts).foldl P2Session.step s).dev &&& pollin ≠ 0 ∧
        ∀ count nonblock signal, p2slavePktBytes ≤ count →
          ((pushes pkts).foldl P2Session.step s).ReturnsSome count nonblock signal) ↔
      (s.dev.buffer.backlog + pkts.length) % p2slaveBufsize ≠ 0 := by
  have hs := P2Session.InRing.reach hopens h
  obtain ⟨hwrite, hread, hcall'⟩ := pushes_write pkts hs
  have hd : ((pushes pkts).foldl P2Session.step s).InRing := by
    refine P2Session.InRing.reach hopens (h.trans (.of_along (pushes pkts) ?_))
    exact Runs.along_true _ _
  set d := (pushes pkts).foldl P2Session.step s
  have hseen : d.dev.buffer.read ≠ d.dev.buffer.write ↔
      (s.dev.buffer.backlog + pkts.length) % p2slaveBufsize ≠ 0 := by
    have hr := hs.read
    have hw := hs.write
    rw [hread, hwrite]
    unfold P2SlaveBuffer.backlog p2slaveBufsize at *
    omega
  rw [poll_iff, ← hseen]
  constructor
  · exact fun h => h.1
  · exact fun hne => ⟨hne, fun count nonblock signal hroom =>
      returnsSome hd (hcall'.trans hcall) hne hroom nonblock signal⟩

/-- One packet, pushed into an empty ring. -/
theorem overrun_seen_iff_one :
    p2slavePoll ((pushes [(⟨0, fun _ => 0⟩, fun _ => 0, 3)]).foldl P2Session.step
      (.opened (P2Slave.new : P2Slave ℕ))).dev &&& pollin ≠ 0 := by
  have hseen := overrun_seen_iff (show 0 ≤ (P2Slave.new : P2Slave ℕ).opens from le_rfl) .refl rfl
    [(⟨0, fun _ => 0⟩, fun _ => 0, 3)]
  exact (hseen.mpr (by decide)).1

/-- A round of 128 packets, pushed into an empty ring, is taken for nothing. -/
theorem overrun_unseen :
    let d := (pushes (List.replicate 128 (⟨0, fun _ => 0⟩, fun _ => 0, 3))).foldl P2Session.step
      (.opened (P2Slave.new : P2Slave ℕ))
    p2slavePoll d.dev = 0 ∧
      ∃ ret, ((d.step (.read 48 true)).goes ⟨false, false⟩ 1).calls = d.calls ++ [ret] ∧
        ret = (-EAGAIN, []) := by
  intro d
  have hs : (P2Session.opened (P2Slave.new : P2Slave ℕ)).InRing :=
    .reach le_rfl (@Runs.Reach.refl _ _ _ (fun _ _ => True) _)
  obtain ⟨hwrite, hread, hcall⟩ :=
    pushes_write (List.replicate 128 (⟨0, fun _ => 0⟩, fun _ => 0, 3)) hs
  have hempty : d.dev.buffer.read = d.dev.buffer.write := by
    rw [hread, hwrite, List.length_replicate]
    rfl
  constructor
  · unfold p2slavePoll
    exact if_neg (not_not.mpr hempty)
  · refine ⟨_, ?_, rfl⟩
    have hnone : d.call = none := hcall
    unfold P2Session.goes P2Session.step
    simp [hnone, p2slaveRead, hempty]

end AjaDriver
