/-
# Waiting for the P2 slave's packets

`p2slave_read` waits while the ring is empty; `p2slave_pushpkt` puts a packet into the ring
and wakes the queue behind that. Any number of processes read, the device is opened and
closed, and the steps of all of them come in any order, the wake-up apart from the packet
it is for. Readers empty the ring for each other, and a round of packets too many makes it
look empty, so the wait is in a loop that looks again. No reader sleeps over a packet
(`p2slave_read_waits`), and one whose ring stays filled goes on to copy
(`p2slave_read_wakes`), but for what readers do to each other: one that ends may take the
read index back to where it began, and nothing wakes the others then (`p2slave_read_lost`).
-/
import AjaDriver.P2Slave.Ring
import AjaDriver.Lib.Waiting

namespace AjaDriver

open Function Runs Waiting

variable {TC : Type}

/-! ### Readers -/

/-- A process that reads: not in the call; before the test of the loop around the wait,
with a signal pending or not; in `wait_event_interruptible`; behind the loop; back, with
the result and what was copied. -/
inductive P2Reader
  | out
  | test (count : ℕ) (nonblock pending : Bool)
  | wait (count : ℕ) (nonblock : Bool) (w : Waiter Unit)
  | rest (call : P2Read)
  | back (ret : ℤ × List P2SlavePkt)

def P2Reader.isOut : P2Reader → Bool
  | .out => true
  | .back _ => true
  | _ => false

def P2Reader.signal : P2Reader → P2Reader
  | .test count nonblock _ => .test count nonblock true
  | .wait count nonblock w => .wait count nonblock w.signal
  | r => r

def P2Reader.wake : P2Reader → P2Reader
  | .wait count nonblock w => .wait count nonblock w.wake
  | r => r

/-- A step of `p2slave_read`, with the wait step by step. The wait has no timeout. -/
def P2Reader.go (fault : Bool) (dev : P2Slave TC) : P2Reader → P2Slave TC × P2Reader
  | .test count nonblock pending =>
    if dev.buffer.read = dev.buffer.write then
      if nonblock then (dev, .back (-EAGAIN, []))
        else (dev, .wait count nonblock (Waiter.start () 1 pending))
    else (dev, .rest (.copying count dev.buffer.read []))
  | .wait count nonblock w =>
    if w.pc = .returned then
      if w.ret = Waiter.restart then (dev, .back (-ERESTARTSYS, []))
        else (dev, .test count nonblock w.pending)
    else (dev, .wait count nonblock (w.next (dev.buffer.read ≠ dev.buffer.write)))
  | .rest call =>
    match p2slaveRead ⟨false, fault⟩ dev call with
    | (dev, .inl call) => (dev, .rest call)
    | (dev, .inr ret) => (dev, .back ret)
  | r => (dev, r)

/-- A device, whether `wake_up_interruptible` is still to come for a packet pushed, and its readers. -/
structure P2Readers (TC ι : Type) where
  dev : P2Slave TC
  due : Bool
  reader : ι → P2Reader

inductive P2ReadEvent (ι : Type)
  /-- `p2slave_pushpkt`, up to the wake-up. -/
  | push (x : P2SlaveIn) (data : Buf) (size : ℕ)
  | wake
  | opened
  | release
  | call (i : ι) (count : ℕ) (nonblock pending : Bool)
  | go (i : ι) (fault : Bool)
  | signal (i : ι)

namespace P2Readers

variable {ι : Type} [DecidableEq ι]

def step (s : P2Readers TC ι) : P2ReadEvent ι → P2Readers TC ι
  | .push x data size =>
    { s with dev := p2slavePushpkt x s.dev data size, due := s.due || decide (s.dev.opens ≠ 0) }
  | .wake => { s with due := false, reader := fun i => (s.reader i).wake }
  | .opened => { s with dev := p2slaveOpen s.dev }
  | .release => { s with dev := { s.dev with opens := s.dev.opens - 1 } }
  | .call i count nonblock pending =>
    if (s.reader i).isOut then { s with reader := update s.reader i (.test count nonblock pending) }
      else s
  | .go i fault =>
    let r := (s.reader i).go fault s.dev
    { s with dev := r.1, reader := update s.reader i r.2 }
  | .signal i => { s with reader := update s.reader i (s.reader i).signal }

/-- A device nobody reads. -/
def init (dev : P2Slave TC) : P2Readers TC ι := ⟨dev, false, fun _ => .out⟩

/-- The ring is not empty. -/
def Filled (s : P2Readers TC ι) : Prop := s.dev.buffer.read ≠ s.dev.buffer.write

instance (s : P2Readers TC ι) : Decidable s.Filled := inferInstanceAs (Decidable (¬ _))

/-- No reader that ends takes the read index of an empty ring back while another waits. -/
def KeepsIndex (s : P2Readers TC ι) : P2ReadEvent ι → Prop
  | .go i _ => ∀ rp got, s.reader i = .rest (.ending rp got) → ¬ s.Filled →
      rp = s.dev.buffer.write ∨ ∀ j count nonblock w, s.reader j ≠ .wait count nonblock w
  | _ => True

omit [DecidableEq ι] in
/-- One reader alone. -/
theorem keepsIndex_one [Subsingleton ι] (s : P2Readers TC ι) (e : P2ReadEvent ι) :
    s.KeepsIndex e := by
  cases e with
  | go i fault =>
    intro rp got hi _
    refine .inr fun j count nonblock w hj => ?_
    rw [Subsingleton.elim j i, hi] at hj
    cases hj
  | _ => trivial

end P2Readers

/-! ### What is kept of a reader -/

/-- What is kept of a reader, when the ring is `filled` and a wake-up is `due`. -/
def P2Reader.Inv (filled due : Bool) : P2Reader → Prop
  | .wait _ _ w => w.Inv filled due
  | _ => True

namespace P2Reader

variable {filled due : Bool} {r : P2Reader}

theorem Inv.signal (h : r.Inv filled due) : r.signal.Inv filled due := by
  cases r with
  | wait count nonblock w => exact Waiter.Inv.signal h
  | _ => trivial

theorem Inv.wake (h : r.Inv filled due) : r.wake.Inv filled false := by
  cases r with
  | wait count nonblock w => exact Waiter.Inv.wake h
  | _ => trivial

theorem Inv.change (h : r.Inv filled due) (filled' : Bool) : r.Inv filled' true := by
  cases r with
  | wait count nonblock w => exact Waiter.Inv.change h filled'
  | _ => trivial

theorem Inv.cease (h : r.Inv filled due) {filled' : Bool} (hle : filled' = true → filled = true) :
    r.Inv filled' due := by
  cases r with
  | wait count nonblock w => exact Waiter.Inv.cease h hle
  | _ => trivial

theorem inv_of_ne (h : ∀ count nonblock w, r ≠ .wait count nonblock w) : r.Inv filled due := by
  cases r with
  | wait count nonblock w => exact absurd rfl (h count nonblock w)
  | _ => trivial

end P2Reader

/-- A step of a call behind the loop leaves the device alone, until it publishes the read index. -/
theorem p2slaveRead_dev (x : P2ReadIn) (dev : P2Slave TC) (call : P2Read) :
    (p2slaveRead x dev call).1 = match call with
      | .ending rp _ => { dev with buffer := { dev.buffer with read := rp } }
      | _ => dev := by
  cases call with
  | waiting count nonblock =>
    unfold p2slaveRead
    dsimp only
    split_ifs <;> rfl
  | copying count rp got =>
    unfold p2slaveRead
    dsimp only
    split_ifs <;> rfl
  | ending rp got => rfl

theorem go_rest (fault : Bool) (dev : P2Slave TC) (call : P2Read) :
    (P2Reader.go fault dev (.rest call)).1 = (p2slaveRead ⟨false, fault⟩ dev call).1 ∧
      ((∃ call', (P2Reader.go fault dev (.rest call)).2 = .rest call') ∨
        ∃ ret, (P2Reader.go fault dev (.rest call)).2 = .back ret) := by
  rcases hread : p2slaveRead ⟨false, fault⟩ dev call with ⟨dev', call' | ret⟩
  · exact ⟨by simp only [P2Reader.go, hread], .inl ⟨call', by simp only [P2Reader.go, hread]⟩⟩
  · exact ⟨by simp only [P2Reader.go, hread], .inr ⟨ret, by simp only [P2Reader.go, hread]⟩⟩

/-- A step of a reader that is not publishing the read index. -/
theorem go_dev (fault : Bool) (dev : P2Slave TC) {r : P2Reader}
    (h : ∀ rp got, r ≠ .rest (.ending rp got)) :
    (r.go fault dev).1 = dev := by
  cases r with
  | test count nonblock pending =>
    unfold P2Reader.go
    dsimp only
    split_ifs <;> rfl
  | wait count nonblock w =>
    unfold P2Reader.go
    dsimp only
    split_ifs <;> rfl
  | rest call =>
    rw [(go_rest fault dev call).1, p2slaveRead_dev]
    cases call with
    | ending rp got => exact absurd rfl (h rp got)
    | _ => rfl
  | _ => rfl

/-- The step of the reader itself. -/
theorem P2Reader.Inv.go {due : Bool} {dev : P2Slave TC} {r : P2Reader}
    (h : r.Inv (decide (dev.buffer.read ≠ dev.buffer.write)) due) (fault : Bool) :
    (r.go fault dev).2.Inv
      (decide ((r.go fault dev).1.buffer.read ≠ (r.go fault dev).1.buffer.write)) due := by
  cases r with
  | test count nonblock pending =>
    unfold P2Reader.go
    dsimp only
    split_ifs
    · trivial
    · exact Waiter.inv_start ..
    · trivial
  | wait count nonblock w =>
    unfold P2Reader.go
    dsimp only
    split_ifs
    · trivial
    · trivial
    · exact Waiter.Inv.next h
  | rest call =>
    rcases (go_rest fault dev call).2 with ⟨call', hgo⟩ | ⟨ret, hgo⟩
    · rw [hgo]
      trivial
    · rw [hgo]
      trivial
  | _ => trivial

/-! ### Every run -/

namespace P2Readers

variable {ι : Type} [DecidableEq ι] {s : P2Readers TC ι}

/-- The invariant of all readers. -/
def Inv (s : P2Readers TC ι) : Prop := ∀ i, (s.reader i).Inv (decide s.Filled) s.due

omit [DecidableEq ι] in
theorem inv_decide {r : P2Reader} {due : Bool} {p q : Prop} [Decidable p] [Decidable q]
    (h : r.Inv (decide p) due) (hpq : q → p) : r.Inv (decide q) due :=
  h.cease fun hq => decide_eq_true (hpq (of_decide_eq_true hq))

theorem Inv.update (h : s.Inv) {i : ι} {r : P2Reader} (hr : r.Inv (decide s.Filled) s.due) :
    Inv { s with reader := update s.reader i r } := by
  intro j
  show (Function.update s.reader i r j).Inv (decide s.Filled) s.due
  by_cases hj : j = i
  · subst hj
    rwa [update_self]
  · rw [update_of_ne hj]
    exact h j

/-- A reader steps, and the others see the device it leaves. -/
theorem Inv.go (h : s.Inv) (i : ι) (fault : Bool) (ha : s.KeepsIndex (.go i fault)) :
    (s.step (.go i fault)).Inv := by
  intro j
  show (Function.update s.reader i ((s.reader i).go fault s.dev).2 j).Inv _ s.due
  by_cases hj : j = i
  · subst hj
    rw [update_self]
    exact (h j).go fault
  rw [update_of_ne hj]
  by_cases hend : ∃ rp got, s.reader i = .rest (.ending rp got)
  · obtain ⟨rp, got, hi⟩ := hend
    have hdev : ((s.reader i).go fault s.dev).1 =
        { s.dev with buffer := { s.dev.buffer with read := rp } } := by
      rw [hi]
      rfl
    by_cases hfilled : s.Filled
    · exact inv_decide (h j) fun _ => hfilled
    · rcases ha rp got hi hfilled with hrp | hnone
      · -- the ring was empty and is
        refine inv_decide (h j) fun hne => absurd ?_ hne
        show ((s.reader i).go fault s.dev).1.buffer.read =
          ((s.reader i).go fault s.dev).1.buffer.write
        rw [hdev]
        exact hrp
      · exact P2Reader.inv_of_ne (hnone j)
  · have hdev : ((s.reader i).go fault s.dev).1 = s.dev :=
      go_dev fault s.dev fun rp got hi => hend ⟨rp, got, hi⟩
    refine inv_decide (h j) fun hne => ?_
    show s.dev.buffer.read ≠ s.dev.buffer.write
    rw [← hdev]
    exact hne

theorem Inv.step (h : s.Inv) (e : P2ReadEvent ι) (ha : s.KeepsIndex e) : (s.step e).Inv := by
  cases e with
  | push x data size =>
    intro i
    show (s.reader i).Inv (decide (Filled { s with dev := p2slavePushpkt x s.dev data size }))
      (s.due || decide (s.dev.opens ≠ 0))
    by_cases hopens : s.dev.opens = 0
    · -- nobody has it open
      have hdev : p2slavePushpkt x s.dev data size = s.dev := by
        rw [pushpkt_forward]
        exact if_neg (not_not.mpr hopens)
      rw [decide_eq_false (not_not.mpr hopens), Bool.or_false, hdev]
      exact h i
    · rw [decide_eq_true hopens, Bool.or_true]
      exact (h i).change _
  | wake => exact fun i => (h i).wake
  | opened => exact fun i => inv_decide (h i) fun hne => absurd rfl hne
  | release => exact h
  | call i count nonblock pending =>
    unfold P2Readers.step
    dsimp only
    split_ifs
    · exact h.update trivial
    · exact h
  | go i fault => exact h.go i fault ha
  | signal i => exact h.update (h i).signal

omit [DecidableEq ι] in
theorem init_readers (dev : P2Slave TC) : (init dev : P2Readers TC ι).Inv := fun _ => trivial

theorem inv_reach_readers {dev : P2Slave TC} (h : Reach step KeepsIndex (init dev) s) : s.Inv :=
  h.inv (init_readers dev) fun _ e hs ha => hs.step e ha

end P2Readers

open P2Readers

variable {ι : Type} [DecidableEq ι] {s : P2Readers TC ι} {dev : P2Slave TC}

section Runs

omit [DecidableEq ι]

/-- `n` steps of reader `i`. -/
def reads (i : ι) (n : ℕ) : List (P2ReadEvent ι) := List.replicate n (.go i false)

def onePacket : P2ReadEvent ι := .push ⟨7, fun _ => 0⟩ (fun _ => 1) 3

end Runs

/-- A reader without room for a packet ends behind one that read it: the read index goes
back, and reader 2 sleeps over the packet. -/
theorem p2slave_read_lost : ∃ s : P2Readers ℕ (Fin 3), Reach step (fun _ _ => True)
    (init P2Slave.new) s ∧
    (∃ w, s.reader 2 = .wait 48 false w ∧ w.Stopped) ∧ s.due = false ∧ s.Filled := by
  let l : List (P2ReadEvent (Fin 3)) :=
    [.opened, onePacket, .wake, .call 0 48 false false, .call 1 10 false false] ++
    reads 0 1 ++ reads 1 1 ++ reads 0 3 ++ .call 2 48 false false :: reads 2 5 ++ reads 1 2
  refine ⟨l.foldl step (init P2Slave.new), .of_along _ (along_true _ _), ⟨_, rfl, ?_⟩, rfl, ?_⟩
  · decide
  · decide

/-- No reader stays off the processor over a packet in the ring, but while a wake-up is
still to come, as long as no reader takes the index of an empty ring back under another
that waits. One reader alone never does; three can, and then one sleeps over a packet. -/
theorem p2slave_read_waits :
    (∀ s : P2Readers TC ι, Reach step KeepsIndex (init dev) s →
      ∀ (i : ι) (count : ℕ) (nonblock : Bool) (w : Waiter Unit),
        s.reader i = .wait count nonblock w → w.Stopped → s.due = false →
          s.dev.buffer.read = s.dev.buffer.write) ∧
    (Subsingleton ι → ∀ s : P2Readers TC ι, Reach step (fun _ _ => True) (init dev) s →
      Reach step KeepsIndex (init dev) s) ∧
    ∃ s : P2Readers ℕ (Fin 3), Reach step (fun _ _ => True) (init P2Slave.new) s ∧
      (∃ w, s.reader 2 = .wait 48 false w ∧ w.Stopped) ∧ s.due = false ∧ s.Filled := by
  refine ⟨fun s h i count nonblock w hi hstop hdue => ?_,
    fun _ s h => h.mono fun s e _ => keepsIndex_one s e, p2slave_read_lost⟩
  have hinv : (s.reader i).Inv (decide s.Filled) s.due := inv_reach_readers h i
  rw [hi, hdue] at hinv
  by_contra hne
  rw [decide_eq_true (show s.Filled from hne)] at hinv
  exact Waiter.Inv.not_stopped hinv hstop

/-- A reader reads two packets, calls again and sleeps. -/
def readsTwo : List (P2ReadEvent Unit) :=
  [.opened, onePacket, .wake, onePacket, .wake, .call () 96 false false] ++ reads () 5 ++
    .call () 96 false false :: reads () 5

theorem p2slave_read_waits_two :
    let s := readsTwo.foldl step (init (P2Slave.new : P2Slave ℕ))
    ∃ w, s.reader () = .wait 96 false w ∧ w.Stopped ∧ s.dev.buffer.read = s.dev.buffer.write := by
  intro s
  obtain ⟨hwaits, hone, -⟩ := @p2slave_read_waits ℕ Unit _ P2Slave.new
  have hreach : Reach step KeepsIndex (init (P2Slave.new : P2Slave ℕ)) s :=
    hone inferInstance s (.of_along _ (along_true _ _))
  have hzero : s.reader () = .wait 96 false ⟨(), .schedule, true, true, false, 1, 0⟩ := rfl
  have hstop : (⟨(), .schedule, true, true, false, 1, 0⟩ : Waiter Unit).Stopped := by decide
  exact ⟨_, hzero, hstop, hwaits s hreach () 96 false _ hzero hstop rfl⟩

/-! ### A reader whose packets have come -/

namespace P2ReadEvent

def isGo (i : ι) : P2ReadEvent ι → Bool
  | .go j _ => j = i
  | _ => false

def isCall (i : ι) : P2ReadEvent ι → Bool
  | .call j _ _ _ => j = i
  | _ => false

end P2ReadEvent

namespace P2Readers

/-- The ring is filled behind the event. -/
def StaysFilled (s : P2Readers TC ι) (e : P2ReadEvent ι) : Prop := (s.step e).Filled

instance (s : P2Readers TC ι) (e : P2ReadEvent ι) : Decidable (s.StaysFilled e) :=
  inferInstanceAs (Decidable (s.step e).Filled)

end P2Readers

/-- The reader is behind the loop, or gets there in fewer than `n` steps. -/
def P2Reader.Nearing (n : ℕ) : P2Reader → Prop
  | .out => False
  | .test _ _ _ => 0 < n
  | .wait _ _ w => w.Awake ∧ w.rank + 1 < n
  | .rest _ => True
  | .back _ => True

namespace P2Reader

variable {r : P2Reader} {n : ℕ}

theorem Nearing.wake (h : r.Nearing n) : r.wake.Nearing n := by
  cases r with
  | wait count nonblock w => exact ⟨h.1.wake, by rw [Waiter.rank_congr Waiter.wake_pc]; exact h.2⟩
  | _ => exact h

theorem Nearing.signal (h : r.Nearing n) : r.signal.Nearing n := by
  cases r with
  | wait count nonblock w => exact ⟨Waiter.Awake.signal, h.2⟩
  | _ => exact h

/-- Every step brings it nearer while the ring is filled. -/
theorem Nearing.go (h : r.Nearing (n + 1)) {dev : P2Slave TC}
    (hfilled : dev.buffer.read ≠ dev.buffer.write) (fault : Bool) :
    (r.go fault dev).2.Nearing n := by
  cases r with
  | out => exact h
  | test count nonblock pending =>
    unfold P2Reader.go
    dsimp only
    rw [if_neg hfilled]
    trivial
  | wait count nonblock w =>
    obtain ⟨hawake, hrank⟩ := h
    unfold P2Reader.go
    dsimp only
    split_ifs with hover hret
    · trivial
    · show 0 < n
      omega
    · rw [decide_eq_true hfilled]
      have hnext := hawake.next
      have hpos : 0 < w.rank := Nat.pos_of_ne_zero fun h0 => hover (Waiter.rank_eq_zero.mp h0)
      refine ⟨hnext.1, ?_⟩
      have := hnext.2
      omega
  | rest call =>
    rcases (go_rest fault dev call).2 with ⟨call', hgo⟩ | ⟨ret, hgo⟩
    · rw [hgo]
      trivial
    · rw [hgo]
      trivial
  | back ret => exact h

end P2Reader

namespace P2Readers

/-- What anything else does to the reader. -/
theorem nearing_step {i : ι} {n : ℕ} (h : (s.reader i).Nearing n) {e : P2ReadEvent ι}
    (hgo : e.isGo i = false) (hcall : e.isCall i = false) : ((s.step e).reader i).Nearing n := by
  cases e with
  | push x data size => exact h
  | wake => exact h.wake
  | opened => exact h
  | release => exact h
  | call j count nonblock pending =>
    have hne : i ≠ j := fun hij => by simp [P2ReadEvent.isCall, hij] at hcall
    unfold P2Readers.step
    dsimp only
    split_ifs
    · show (Function.update s.reader j _ i).Nearing n
      rwa [update_of_ne hne]
    · exact h
  | go j fault =>
    have hne : i ≠ j := fun hij => by simp [P2ReadEvent.isGo, hij] at hgo
    show (Function.update s.reader j _ i).Nearing n
    rwa [update_of_ne hne]
  | signal j =>
    show (Function.update s.reader j (s.reader j).signal i).Nearing n
    by_cases hij : i = j
    · subst hij
      rw [update_self]
      exact h.signal
    · rwa [update_of_ne hij]

theorem nearing_run {i : ι} {n : ℕ} : ∀ (l : List (P2ReadEvent ι)) {s : P2Readers TC ι}, s.Filled →
    Along step StaysFilled s l → (∀ e ∈ l, e.isCall i = false) →
    (s.reader i).Nearing (n + l.countP (P2ReadEvent.isGo i)) → ((l.foldl step s).reader i).Nearing n
  | [], _, _, _, _, h => h
  | e :: l, s, hfilled, hstays, hcall, h => by
    rw [List.foldl_cons]
    refine nearing_run l hstays.1 hstays.2 (fun e' he' => hcall e' (List.mem_cons_of_mem _ he')) ?_
    cases hgo : e.isGo i with
    | false =>
      rw [List.countP_cons_of_neg (by simp [hgo])] at h
      exact nearing_step h hgo (hcall e List.mem_cons_self)
    | true =>
      rw [List.countP_cons_of_pos hgo, ← Nat.add_assoc] at h
      cases e with
      | go j fault =>
        obtain rfl : j = i := of_decide_eq_true hgo
        show (Function.update s.reader j _ j).Nearing _
        rw [update_self]
        exact h.go hfilled fault
      | _ => exact absurd hgo Bool.false_ne_true

end P2Readers

/-- A reader that waits when the packets it can read are there and no wake-up is to come
is behind the wait after a few steps of its own, whatever happens between them, while the
ring stays filled: eight at most. -/
theorem p2slave_read_wakes (h : Reach step KeepsIndex (init dev) s) {i : ι} {count : ℕ}
    {nonblock : Bool} {w : Waiter Unit} (hi : s.reader i = .wait count nonblock w)
    (hfilled : s.Filled) (hdue : s.due = false) (l : List (P2ReadEvent ι))
    (hstays : Along step StaysFilled s l) (hcall : ∀ e ∈ l, e.isCall i = false)
    (hl : w.rank + 1 < l.countP (P2ReadEvent.isGo i)) : w.rank ≤ 6 ∧
      ((∃ call, (l.foldl step s).reader i = .rest call) ∨
        ∃ ret, (l.foldl step s).reader i = .back ret) := by
  have hinv : (s.reader i).Inv (decide s.Filled) s.due := inv_reach_readers h i
  rw [hi, hdue, decide_eq_true hfilled] at hinv
  have hnear : (s.reader i).Nearing (0 + l.countP (P2ReadEvent.isGo i)) := by
    rw [hi, Nat.zero_add]
    exact ⟨Waiter.Inv.awake_of hinv, hl⟩
  have hend := nearing_run l hfilled hstays hcall hnear
  refine ⟨w.rank_le, ?_⟩
  cases hr : (l.foldl step s).reader i with
  | out => rw [hr] at hend; exact hend.elim
  | test count' nonblock' pending => rw [hr] at hend; exact absurd hend (Nat.not_lt_zero _)
  | wait count' nonblock' v => rw [hr] at hend; exact absurd hend.2 (Nat.not_lt_zero _)
  | rest call => exact .inl ⟨call, rfl⟩
  | back ret => exact .inr ⟨ret, rfl⟩

/-- A reader sleeps, and a packet comes. -/
def sleepsThenPush : List (P2ReadEvent Unit) :=
  [.opened, .call () 96 false false] ++ reads () 5 ++ [onePacket, .wake]

/-- Another packet comes while it leaves. -/
theorem p2slave_read_wakes_two :
    let s := sleepsThenPush.foldl step (init (P2Slave.new : P2Slave ℕ))
    let t := (reads () 3 ++ onePacket :: reads () 4).foldl step s
    (∃ call, t.reader () = .rest call) ∨ ∃ ret, t.reader () = .back ret := by
  intro s t
  have hreach : Reach step KeepsIndex (init (P2Slave.new : P2Slave ℕ)) s :=
    (Reach.of_along _ (along_true _ _)).mono fun s e _ => keepsIndex_one s e
  have hzero : s.reader () = .wait 96 false ⟨(), .schedule, false, false, false, 1, 0⟩ := rfl
  exact (p2slave_read_wakes hreach hzero (by decide) rfl _ (by decide) (by decide) (by decide)).2

end AjaDriver
