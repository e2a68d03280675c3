/-
# The mailbox handshake

A command goes through four stages: the board takes no command yet, the
command is written, the return code is read, the mailbox is freed. `Mailbox`
is the protocol, in which every access that is not a poll of the status stands
directly behind the poll that allows it; `pcitcMailboxSend` follows it as far
as the board lets it (`send_mailbox`), whatever the board shows at each poll.
What the protocol promises holds by induction on it, and so of every trace of
the code (`send_handshake`).
-/
import AjaDriver.Lib.Runs
import AjaDriver.Pcitc

namespace AjaDriver

open Runs

/-! ### The protocol -/

/-- How far a command came. -/
inductive MailboxStage
  | waiting
  | sent
  | answered
  | freed
  deriving DecidableEq

/-- The traces of the command `cmd`. -/
inductive Mailbox (cmd : BitVec 8) : MailboxStage → PcitcLog → Prop
  | start : Mailbox cmd .waiting []
  | poll {k : MailboxStage} {t : PcitcLog} :
    Mailbox cmd k t → k ≠ .freed → ∀ s, Mailbox cmd k (t ++ [.read8 0xFE s])
  | send {t : PcitcLog} {s : BitVec 8} :
    Mailbox cmd .waiting (t ++ [.read8 0xFE s]) → s &&& 0x04 = 0 →
    Mailbox cmd .sent (t ++ [.read8 0xFE s] ++ [.write8 0x2F cmd])
  | answer {t : PcitcLog} {s : BitVec 8} :
    Mailbox cmd .sent (t ++ [.read8 0xFE s]) → s &&& 0x01 ≠ 0 → ∀ v,
    Mailbox cmd .answered (t ++ [.read8 0xFE s] ++ [.read8 0x0F v])
  | free {t : PcitcLog} {s : BitVec 8} :
    Mailbox cmd .answered (t ++ [.read8 0xFE s]) → s &&& 0x04 = 0 →
    Mailbox cmd .freed (t ++ [.read8 0xFE s] ++ [.write8 0x2F 0x00])

/-- The last access was a read of the status with `p`. -/
def Polled (p : BitVec 8 → Prop) (t : PcitcLog) : Prop := ∃ t' s, t = t' ++ [.read8 0xFE s] ∧ p s

variable {cmd : BitVec 8} {k : MailboxStage} {t : PcitcLog}

/-! ### What a trace holds at each stage -/

theorem Mailbox.command_mem (h0 : cmd ≠ 0#8) (h : Mailbox cmd k t) :
    .write8 0x2F cmd ∈ t ↔ k ≠ .waiting := by
  induction h with
  | start => simp
  | poll _ _ s ih => simpa using ih
  | send => simp
  | answer _ _ v ih => simpa using ih
  | free _ _ ih => simpa [h0] using ih

theorem Mailbox.code_mem (h : Mailbox cmd k t) :
    (∃ v, .read8 0x0F v ∈ t) ↔ k = .answered ∨ k = .freed := by
  induction h with
  | start => simp
  | poll _ _ s ih => simpa using ih
  | send _ _ ih => simpa using ih
  | answer => simp
  | free _ _ ih => simpa using ih

theorem Mailbox.idle_mem (h0 : cmd ≠ 0#8) (h : Mailbox cmd k t) :
    .write8 0x2F 0x00 ∈ t ↔ k = .freed := by
  induction h with
  | start => simp
  | poll _ _ s ih => simpa using ih
  | send _ _ ih => simpa [h0.symm] using ih
  | answer _ _ v ih => simpa using ih
  | free => simp

/-- Until the command is written the status is polled, no more. -/
theorem Mailbox.waiting_polls (h : Mailbox cmd k t) (hk : k = .waiting) :
    ∀ a ∈ t, ∃ s, a = .read8 0xFE s := by
  induction h with
  | start => simp
  | poll _ _ s ih =>
    intro a ha
    rcases List.mem_append.mp ha with ha | ha
    · exact ih hk a ha
    · exact ⟨s, List.mem_singleton.mp ha⟩
  | send | answer | free => cases hk

/-! ### The order -/

/-- The command is written once, directly behind a status with bit 2 clear. -/
theorem Mailbox.behind_command (h0 : cmd ≠ 0#8) (h : Mailbox cmd k t) :
    Behind (· = .write8 0x2F cmd)
    (fun l => .write8 0x2F cmd ∉ l ∧ Polled (· &&& 0x04 = 0) l) t := by
  induction h with
  | start => exact .nil
  | poll _ _ s ih => exact ih.concat (by simp)
  | @send t s h hs ih => exact ih.concat fun _ => ⟨by simp [h.command_mem h0], t, s, rfl, hs⟩
  | answer _ _ v ih => exact ih.concat (by simp)
  | free _ _ ih => exact ih.concat (by simp [h0.symm])

/-- The return code is read once, directly behind a status with bit 0 set, when
the command is written. -/
theorem Mailbox.behind_code (h0 : cmd ≠ 0#8) (h : Mailbox cmd k t) :
    Behind (fun a => ∃ v, a = .read8 0x0F v)
      (fun l => (¬ ∃ v, .read8 0x0F v ∈ l) ∧ .write8 0x2F cmd ∈ l ∧
        Polled (· &&& 0x01 ≠ 0) l) t := by
  induction h with
  | start => exact .nil
  | poll _ _ s ih => exact ih.concat (by simp)
  | send _ _ ih => exact ih.concat (by simp)
  | @answer t s h hs v ih =>
    exact ih.concat fun _ =>
      ⟨mt h.code_mem.mp (by simp), (h.command_mem h0).mpr (by simp), t, s, rfl, hs⟩
  | free _ _ ih => exact ih.concat (by simp)

/-- The mailbox is freed directly behind a status with bit 2 clear, when the
return code is read. -/
theorem Mailbox.behind_idle (h0 : cmd ≠ 0#8) (h : Mailbox cmd k t) :
    Behind (· = .write8 0x2F 0x00) (fun l => (∃ v, .read8 0x0F v ∈ l) ∧
      Polled (· &&& 0x04 = 0) l) t := by
  induction h with
  | start => exact .nil
  | poll _ _ s ih => exact ih.concat (by simp)
  | send _ _ ih => exact ih.concat (by simp [h0])
  | answer _ _ v ih => exact ih.concat (by simp)
  | @free t s h hs ih => exact ih.concat fun _ => ⟨h.code_mem.mpr (.inl rfl), t, s, rfl, hs⟩

/-- Nothing is behind the access that frees the mailbox. -/
theorem Mailbox.behind_any (h0 : cmd ≠ 0#8) (h : Mailbox cmd k t) :
    Behind (fun _ => True) (.write8 0x2F 0x00 ∉ ·) t := by
  induction h with
  | start => exact .nil
  | poll h hk s ih => exact ih.concat fun _ => mt (h.idle_mem h0).mp hk
  | send h _ ih => exact ih.concat fun _ => mt (h.idle_mem h0).mp (by simp)
  | answer h _ v ih => exact ih.concat fun _ => mt (h.idle_mem h0).mp (by simp)
  | free h _ ih => exact ih.concat fun _ => mt (h.idle_mem h0).mp (by simp)

/-! ### The code -/

variable (bus : PcitcBus)

/-- A wait stays in its stage; one that succeeds ends with the status it waited for. -/
theorem wait_mailbox (p : BitVec 8 → Prop) [DecidablePred p] (log : PcitcLog) (hk : k ≠ .freed) :
    ∀ (n : ℕ) {t : PcitcLog}, Mailbox cmd k t →
      ∃ t', t <+: t' ∧ (pcitcWait bus (fun s => p s) n (log ++ t)).2 = log ++ t' ∧
      Mailbox cmd k t' ∧
        ((pcitcWait bus (fun s => p s) n (log ++ t)).1 = true → Polled p t')
  | 0, t, h => ⟨_, List.prefix_append .., List.append_assoc .., h.poll hk _, fun hstop =>
      ⟨t, _, rfl, of_decide_eq_true hstop⟩⟩
  | n + 1, t, h => by
    unfold pcitcWait
    simp only
    set s := bus.read8 (log ++ t).length 0xFE
    by_cases hstop : p s
    · rw [if_pos (decide_eq_true hstop)]
      exact ⟨_, List.prefix_append .., List.append_assoc .., h.poll hk s,
        fun _ => ⟨t, s, rfl, hstop⟩⟩
    · rw [if_neg (by simpa using hstop), List.append_assoc]
      obtain ⟨t', hle, ht'⟩ := wait_mailbox p log hk n (h.poll hk s)
      exact ⟨t', (List.prefix_append ..).trans hle, ht'⟩

/-- What `pcitc_mailbox_send` returns at the stage it came to. -/
def MailboxStage.Returns (t : PcitcLog) (ret : ℤ) : MailboxStage → Prop
  | waiting => ret = -1
  | sent => ret = -2
  | answered => ret = -3
  | freed => ∃ v, .read8 0x0F v ∈ t ∧ ret = (v.toNat : ℤ)

/-- The code follows the protocol. -/
theorem send_mailbox (log : PcitcLog) (cmd : BitVec 8) :
    ∃ k t, (pcitcMailboxSend bus log cmd).2 = log ++ t ∧
    Mailbox cmd k t ∧ k.Returns t (pcitcMailboxSend bus log cmd).1 := by
  obtain ⟨t, -, hlog, h, hpolled⟩ :=
    wait_mailbox bus (fun status => status &&& 0x04 = 0) log (by decide) mboxDelay
    (.start : Mailbox cmd .waiting [])
  rw [List.append_nil] at hlog hpolled
  unfold pcitcMailboxSend
  simp only [Bool.not_eq_true']
  by_cases hready : (pcitcWait bus (fun status => status &&& 0x04 = 0) mboxDelay log).1 = false
  · rw [if_pos hready]
    exact ⟨.waiting, t, hlog, h, rfl⟩
  obtain ⟨t, s, rfl, hs⟩ := hpolled (Bool.eq_true_of_not_eq_false hready)
  rw [if_neg hready, hlog, List.append_assoc]
  -- the command is written, and the board asked for its answer
  obtain ⟨t, -, hlog, h, hpolled⟩ :=
    wait_mailbox bus (fun status => status &&& 0x01 ≠ 0) log (by decide) mboxDelay
    (h.send hs)
  set w := pcitcWait bus (fun status => status &&& 0x01 ≠ 0) mboxDelay _
  by_cases hanswer : w.1 = false
  · rw [if_pos hanswer]
    exact ⟨.sent, t, hlog, h, rfl⟩
  obtain ⟨t, s, rfl, hs⟩ := hpolled (Bool.eq_true_of_not_eq_false hanswer)
  rw [if_neg hanswer, hlog, List.append_assoc]
  generalize bus.read8 _ 0x0F = v
  -- the return code is read, and the mailbox is waited for once more
  obtain ⟨t, hle, hlog, h, hpolled⟩ :=
    wait_mailbox bus (fun status => status &&& 0x04 = 0) log (by decide)
    mboxDelay (h.answer hs v)
  set w := pcitcWait bus (fun status => status &&& 0x04 = 0) mboxDelay _
  by_cases hidle : w.1 = false
  · rw [if_pos hidle]
    exact ⟨.answered, t, hlog, h, rfl⟩
  have hcode : .read8 0x0F v ∈ t := hle.subset (by simp)
  obtain ⟨t, s, rfl, hs⟩ := hpolled (Bool.eq_true_of_not_eq_false hidle)
  rw [if_neg hidle, hlog, List.append_assoc]
  exact ⟨.freed, _, rfl, h.free hs, v, List.mem_append_left _ hcode, rfl⟩

/-! ### The handshake -/

/-- The order of the accesses `t` of a command `cmd` with the result `ret`. -/
structure Handshake (cmd : BitVec 8) (t : PcitcLog) (ret : ℤ) : Prop where
  /-- the command, once, directly behind a status with bit 2 clear -/
  command : ∀ l m, t = l ++ .write8 0x2F cmd :: m → .write8 0x2F cmd ∉ l ∧
    ∃ l' s, l = l' ++ [.read8 0xFE s] ∧ s &&& 0x04 = 0
  /-- the return code, once, directly behind a status with bit 0 set that
  follows the command -/
  code : ∀ l v m, t = l ++ .read8 0x0F v :: m → (∀ v', .read8 0x0F v' ∉ l) ∧
    ∃ l' s, l = l' ++ [.read8 0xFE s] ∧ s &&& 0x01 ≠ 0 ∧ .write8 0x2F cmd ∈ l'
  /-- the idle byte, last, directly behind a status with bit 2 clear that
  follows the return code -/
  idle : ∀ l m, t = l ++ .write8 0x2F 0x00 :: m → m = [] ∧
    ∃ l' s v, l = l' ++ [.read8 0xFE s] ∧ s &&& 0x04 = 0 ∧ .read8 0x0F v ∈ l'
  done_iff : 0 ≤ ret ↔ .write8 0x2F 0x00 ∈ t
  result : 0 ≤ ret → ∃ v, .read8 0x0F v ∈ t ∧ ret = (v.toNat : ℤ)
  untouched : ret = -1 → ∀ a ∈ t, ∃ off val, a = .read8 off val

theorem MailboxStage.Returns.nonneg_iff {ret : ℤ} (h : k.Returns t ret) : 0 ≤ ret ↔ k = .freed := by
  cases k with
  | waiting | sent | answered =>
    obtain rfl := h
    simp
  | freed =>
    obtain ⟨v, -, rfl⟩ := h
    simp

theorem MailboxStage.Returns.eq_neg_one {ret : ℤ} (h : k.Returns t ret) (hret : ret = -1) :
    k = .waiting := by
  subst hret
  cases k with
  | waiting => rfl
  | sent | answered => exact absurd h (by simp [MailboxStage.Returns])
  | freed =>
    obtain ⟨v, -, hv⟩ := h
    omega

/-- What the protocol promises. -/
theorem Mailbox.handshake (h0 : cmd ≠ 0#8) (h : Mailbox cmd k t) {ret : ℤ}
    (hret : k.Returns t ret) :
    Handshake cmd t ret where
  command l m ht := h.behind_command h0 l _ m ht rfl
  code l v m ht := by
    obtain ⟨hfirst, hsent, l', s, rfl, hs⟩ := h.behind_code h0 l _ m ht ⟨v, rfl⟩
    exact ⟨not_exists.mp hfirst, l', s, rfl, hs, by simpa using hsent⟩
  idle l m ht := by
    obtain ⟨⟨v, hv⟩, l', s, rfl, hs⟩ := h.behind_idle h0 l _ m ht rfl
    refine ⟨?_, l', s, v, rfl, hs, by simpa using hv⟩
    cases m with
    | nil => rfl
    | cons a m =>
      have hnext : t = l' ++ [.read8 0xFE s] ++ [.write8 0x2F 0x00] ++ a :: m := by simpa using ht
      exact absurd (by simp) (h.behind_any h0 _ a m hnext trivial)
  done_iff := hret.nonneg_iff.trans (h.idle_mem h0).symm
  result hpos := by
    obtain rfl := hret.nonneg_iff.mp hpos
    exact hret
  untouched hneg a ha := by
    obtain ⟨s, hs⟩ := h.waiting_polls (hret.eq_neg_one hneg) a ha
    exact ⟨_, s, hs⟩

/-- Whatever the board shows, the accesses of a command are in the order the
mailbox asks for, on every way out. -/
theorem send_handshake (log : PcitcLog) (cmd : BitVec 8) (h0 : cmd ≠ 0) :
    ∃ t, (pcitcMailboxSend bus log cmd).2 = log ++ t ∧
      Handshake cmd t (pcitcMailboxSend bus log cmd).1 := by
  obtain ⟨k, t, hlog, h, hret⟩ := send_mailbox bus log cmd
  exact ⟨t, hlog, h.handshake h0 hret⟩

/-- A board that is always ready answers 1, and the mailbox is freed. -/
theorem send_handshake_ready :
    .write8 0x2F 0x00 ∈ (pcitcMailboxSend ⟨fun _ _ => 0x01, fun _ _ => 0⟩ [] 0x25).2 := by
  obtain ⟨t, hlog, h⟩ := send_handshake ⟨fun _ _ => 0x01, fun _ _ => 0⟩ [] 0x25 (by decide)
  rw [hlog]
  exact h.done_iff.mp (by decide)

end AjaDriver
