/-
# What a frame interrupt does, on lists

The engines seen from outside: the FIFO is a list of pages, the stored level
a number beside it, and a frame of the stream is the pages it takes from the
list, the pages it gives the channels and whether it counts a drop.
`playPlan` is a playback frame in closed form; it does not trust the level to
be the list's length, since the driver does not check that either.
`armPlan` is a capture frame.

Key theorems: `playPlan_sublist` (the pages loaded are pages taken),
`freePages_cons` (arming takes the lowest free page).
-/
import AjaDriver.Card
import Mathlib.Tactic.Ring
import Mathlib.Tactic.Linarith

namespace AjaDriver

open Function

/-! ### Channels in order -/

/-- The pages `l` given to the channels from `n` on, each with its channel. -/
def tag : ℤ → List ℤ → List (ℤ × ℤ)
  | _, [] => []
  | n, p :: l => (n, p) :: tag (n + 1) l

/-- The last pages after the channels from `n` on were given `l`. -/
def record (t : BitVec 32) : ℤ → List ℤ → (ℤ → LastPage) → ℤ → LastPage
  | _, [], f => f
  | n, p :: l, f => record t (n + 1) l (update f n ⟨p, t⟩)

theorem record_of_lt (t : BitVec 32) {i : ℤ} : ∀ {n : ℤ} (l : List ℤ) (f : ℤ → LastPage), i < n →
    record t n l f i = f i
  | _, [], _, _ => rfl
  | n, p :: l, f, h => by
    unfold record
    rw [record_of_lt t l _ (by omega), update_of_ne (by omega)]

theorem record_of_ge (t : BitVec 32) {i : ℤ} :
    ∀ {n : ℤ} (l : List ℤ) (f : ℤ → LastPage), n + l.length ≤ i →
    record t n l f i = f i
  | _, [], _, _ => rfl
  | n, p :: l, f, h => by
    rw [List.length_cons] at h
    push_cast at h
    unfold record
    rw [record_of_ge t l _ (by omega), update_of_ne (by omega)]

theorem record_get (t : BitVec 32) : ∀ {n : ℤ} (l : List ℤ) (f : ℤ → LastPage) (k : ℕ) {p : ℤ},
    l[k]? = some p → record t n l f (n + k) = ⟨p, t⟩
  | n, a :: l, f, 0, p, h => by
    obtain rfl : a = p := by simpa using h
    unfold record
    rw [record_of_lt t l _ (by push_cast; omega)]
    simp
  | n, a :: l, f, k + 1, p, h => by
    unfold record
    have := record_get t (n := n + 1) l (update f n ⟨a, t⟩) k (by simpa using h)
    rwa [show n + 1 + (k : ℤ) = n + (k + 1 : ℕ) by push_cast; ring] at this

@[simp] theorem tag_length : ∀ (n : ℤ) (l : List ℤ), (tag n l).length = l.length
  | _, [] => rfl
  | n, _ :: l => by simp [tag, tag_length (n + 1) l]

theorem mem_tag {m p : ℤ} :
    ∀ {n : ℤ} {l : List ℤ}, (m, p) ∈ tag n l ↔ ∃ k : ℕ, m = n + k ∧ l[k]? = some p
  | n, [] => by simp [tag]
  | n, a :: l => by
    rw [tag, List.mem_cons, mem_tag (n := n + 1) (l := l)]
    constructor
    · rintro (h | ⟨k, hk, hp⟩)
      · obtain ⟨rfl, rfl⟩ := Prod.mk.inj h
        exact ⟨0, by simp, rfl⟩
      · exact ⟨k + 1, by push_cast; omega, by simpa using hp⟩
    · rintro ⟨k, hk, hp⟩
      cases k with
      | zero => left; simp_all
      | succ k => exact Or.inr ⟨k, by push_cast at hk; omega, by simpa using hp⟩

/-- The page given last to channel `n`. -/
def lastOn (l : List (ℤ × ℤ)) (n : ℤ) : Option ℤ :=
  ((l.filter fun e => e.1 = n).getLast?).map Prod.snd

theorem lastOn_append (l m : List (ℤ × ℤ)) (n : ℤ) :
    lastOn (l ++ m) n = (lastOn m n).or (lastOn l n) := by
  unfold lastOn
  rw [List.filter_append, List.getLast?_append]
  cases (m.filter fun e => e.1 = n).getLast? <;> simp

theorem lastOn_tag_of_lt {m : ℤ} : ∀ {n : ℤ} (l : List ℤ), m < n → lastOn (tag n l) m = none
  | _, [], _ => rfl
  | n, p :: l, h => by
    rw [tag, ← List.singleton_append, lastOn_append, lastOn_tag_of_lt l (by omega)]
    have hne : n ≠ m := by omega
    simp [lastOn, hne]

theorem lastOn_tag : ∀ (n : ℤ) (l : List ℤ) (j : ℕ), lastOn (tag n l) (n + j) = l[j]?
  | _, [], _ => rfl
  | n, p :: l, 0 => by
    rw [tag, ← List.singleton_append, lastOn_append, lastOn_tag_of_lt l (by push_cast; omega)]
    simp [lastOn]
  | n, p :: l, j + 1 => by
    have ih := lastOn_tag (n + 1) l j
    rw [show n + 1 + (j : ℤ) = n + (j + 1 : ℕ) by push_cast; ring] at ih
    rw [tag, ← List.singleton_append, lastOn_append, ih]
    have hne : ¬ n = n + (j + 1 : ℕ) := by push_cast; omega
    have hhead : lastOn [(n, p)] (n + (j + 1 : ℕ)) = none := by
      unfold lastOn
      rw [List.filter_cons_of_neg (by simpa using hne)]
      rfl
    rw [hhead, List.getElem?_cons_succ, Option.or_none]

theorem lastOn_append_tag (l : List (ℤ × ℤ)) (m : List ℤ) (j : ℕ) :
    lastOn (l ++ tag 0 m) j = (m[j]?).or (lastOn l j) := by
  have h := lastOn_tag 0 m j
  rw [zero_add] at h
  rw [lastOn_append, h]

/-- After the channels from 0 on were given `m`, one of them shows its page of `m`. -/
theorem lastOn_given (l : List (ℤ × ℤ)) {m : List ℤ} {j : ℕ} (h : j < m.length) :
    lastOn (l ++ tag 0 m) j = some (m.get ⟨j, h⟩) := by
  rw [lastOn_append_tag, List.getElem?_eq_getElem h, Option.some_or]
  rfl

/-- A channel that was given none shows what it showed before. -/
theorem lastOn_kept (l : List (ℤ × ℤ)) {m : List ℤ} {j : ℕ} (h : m.length ≤ j) :
    lastOn (l ++ tag 0 m) j = lastOn l j := by
  rw [lastOn_append_tag, List.getElem?_eq_none h, Option.none_or]

/-! ### The load -/

/-- The pages of `q` that `k` channels from `n` on accept: a page must carry
its channel's number, and the first that does not ends the load. -/
def fit (chanOf : ℤ → ℤ) : ℕ → ℤ → List ℤ → List ℤ
  | 0, _, _ => []
  | _ + 1, _, [] => []
  | k + 1, n, p :: q => if chanOf p = n then p :: fit chanOf k (n + 1) q else []

theorem fit_length_le (chanOf : ℤ → ℤ) :
    ∀ (k : ℕ) (n : ℤ) (q : List ℤ), (fit chanOf k n q).length ≤ k
  | 0, _, _ => le_rfl
  | k + 1, _, [] => Nat.zero_le _
  | k + 1, n, p :: q => by
    have := fit_length_le chanOf k (n + 1) q
    unfold fit
    split_ifs
    · rw [List.length_cons]; omega
    · exact Nat.zero_le _

theorem fit_initial (chanOf : ℤ → ℤ) : ∀ (k : ℕ) (n : ℤ) (q : List ℤ), fit chanOf k n q <+: q
  | 0, _, _ => List.nil_prefix
  | k + 1, _, [] => List.nil_prefix
  | k + 1, n, p :: q => by
    unfold fit
    split_ifs
    · exact List.cons_prefix_cons.mpr ⟨rfl, fit_initial chanOf k (n + 1) q⟩
    · exact List.nil_prefix

/-- A channel is given a page as soon as it and the channels before it find
theirs in order. -/
theorem lt_fit_length (chanOf : ℤ → ℤ) : ∀ (k : ℕ) (n : ℤ) (q : List ℤ) (j : ℕ), j < k →
    (∀ m ≤ j, ∃ p, q[m]? = some p ∧ chanOf p = n + m) → j < (fit chanOf k n q).length
  | k + 1, n, [], j, _, h => by
    obtain ⟨p, hp, -⟩ := h 0 (Nat.zero_le _)
    simp at hp
  | k + 1, n, p :: q, j, hj, h => by
    have hp : chanOf p = n := by
      obtain ⟨p', hp', hn⟩ := h 0 (Nat.zero_le _)
      obtain rfl : p = p' := by simpa using hp'
      simpa using hn
    unfold fit
    rw [if_pos hp, List.length_cons]
    cases j with
    | zero => omega
    | succ j =>
      have := lt_fit_length chanOf k (n + 1) q j (by omega) fun m hm => by
        obtain ⟨p', hp', hn⟩ := h (m + 1) (by omega)
        exact ⟨p', by simpa using hp', by rw [hn]; push_cast; ring⟩
      omega

theorem fit_chan (chanOf : ℤ → ℤ) : ∀ (k : ℕ) (n : ℤ) (q : List ℤ) (j : ℕ) {p : ℤ},
    (fit chanOf k n q)[j]? = some p → chanOf p = n + j
  | 0, _, _, _, _, h => by simp [fit] at h
  | k + 1, _, [], _, _, h => by simp [fit] at h
  | k + 1, n, a :: q, j, p, h => by
    unfold fit at h
    split_ifs at h with ha
    · cases j with
      | zero =>
        obtain rfl : a = p := by simpa using h
        simpa using ha
      | succ j =>
        rw [fit_chan chanOf k (n + 1) q j (by simpa using h)]
        push_cast
        ring
    · simp at h

/-- The first `k` pages of `q` are those of the channels 0, 1, .. in order. -/
def InOrder (chanOf : ℤ → ℤ) (k : ℕ) (q : List ℤ) : Prop :=
  ∀ j < k, ∃ p, q[j]? = some p ∧ chanOf p = j

/-- Pages of the channels in turn are in order, if there are enough of them. -/
theorem inOrder_of_turn {chanOf : ℤ → ℤ} {k : ℕ} {q : List ℤ}
    (h : ∀ (j : ℕ) (p : ℤ), q[j]? = some p → chanOf p = ((j % k : ℕ) : ℤ)) (hk : k ≤ q.length) :
    InOrder chanOf k q := by
  intro j hj
  have hget : q[j]? = some q[j] := List.getElem?_eq_getElem (by omega)
  refine ⟨q[j], hget, ?_⟩
  rw [h j _ hget, Nat.mod_eq_of_lt hj]

/-- A load succeeds exactly when it finds its pages in order. -/
theorem fit_full {chanOf : ℤ → ℤ} {k : ℕ} {q : List ℤ} :
    (fit chanOf k 0 q).length = k ↔ InOrder chanOf k q := by
  constructor
  · intro hlen j hj
    obtain ⟨rest, hrest⟩ := fit_initial chanOf k 0 q
    have hj' : j < (fit chanOf k 0 q).length := by omega
    refine ⟨(fit chanOf k 0 q)[j], ?_, ?_⟩
    · calc q[j]?
        _ = (fit chanOf k 0 q ++ rest)[j]? := by rw [hrest]
        _ = (fit chanOf k 0 q)[j]? := List.getElem?_append_left hj'
        _ = some _ := List.getElem?_eq_getElem hj'
    · simpa using fit_chan chanOf k 0 q j (List.getElem?_eq_getElem hj')
  · intro h
    cases k with
    | zero => exact Nat.le_zero.mp (fit_length_le ..)
    | succ k =>
      have hlt := lt_fit_length chanOf (k + 1) 0 q k (by omega) fun m hm => by
        simpa using h m (by omega)
      have hle := fit_length_le chanOf (k + 1) 0 q
      omega

theorem fit_eq_take {chanOf : ℤ → ℤ} {k : ℕ} {q : List ℤ} (h : InOrder chanOf k q) :
    fit chanOf k 0 q = q.take k := by
  have htake := List.prefix_iff_eq_take.mp (fit_initial chanOf k 0 q)
  rwa [fit_full.mpr h] at htake

/-- The pops of a load of `k` channels that gives the pages `l`: one for each,
and one for the page that ends it early. -/
def loadPops (k : ℕ) (l : List ℤ) : ℕ := if l.length = k then k else l.length + 1

theorem length_le_loadPops {k : ℕ} {l : List ℤ} : l.length ≤ loadPops k l := by
  unfold loadPops
  split_ifs <;> omega

/-! ### A playback frame -/

/-- What a playback frame does: the pops from the FIFO, the pages given to the
channels from 0 on, the drops counted. -/
structure PlayPlan where
  pops : ℕ
  loaded : List ℤ
  drops : ℤ

/-- The rounds of a bump of `b` frames that the level allows. -/
def bumpRounds (c : ℕ) (level : ℤ) (b : ℕ) : ℕ := min b (level / c).toNat

/-- A playback frame of a stream of `c` channels, with `due` frames due. -/
def playPlan (chanOf : ℤ → ℤ) (c : ℕ) (level due : ℤ) (q : List ℤ) : PlayPlan :=
  if level < c then ⟨0, [], 1⟩
  else if due = 0 then ⟨0, [], 0⟩
  else
    let r := bumpRounds c level (due - 1).toNat
    if q.length < r * c then ⟨q.length + 1, [], 0⟩
    else if r < (due - 1).toNat then ⟨r * c, [], 1⟩
    else
      let l := fit chanOf c 0 (q.drop (r * c))
      ⟨r * c + loadPops c l, l, 0⟩

theorem bumpRounds_of_lt {c : ℕ} {level : ℤ} (h : level < c) (hc : 0 < c) (b : ℕ) :
    bumpRounds c level b = 0 := by
  have hc' : (0 : ℤ) < c := by exact_mod_cast hc
  have : level / c < 1 := Int.ediv_lt_of_lt_mul hc' (by omega)
  unfold bumpRounds
  omega

theorem bumpRounds_succ {c : ℕ} {level : ℤ} (h : (c : ℤ) ≤ level) (hc : 0 < c) (b : ℕ) :
    bumpRounds c level (b + 1) = bumpRounds c (level - c) b + 1 := by
  have hc' : (c : ℤ) ≠ 0 := by exact_mod_cast hc.ne'
  have hd : (level - c) / (c : ℤ) = level / c - 1 := by
    have := Int.add_mul_ediv_right level (-1) hc'
    rw [show level + -1 * (c : ℤ) = level - c by ring] at this
    rw [this]; ring
  have hpos : 1 ≤ level / (c : ℤ) := Int.le_ediv_of_mul_le (by omega) (by omega)
  unfold bumpRounds
  rw [hd]
  omega

/-- The pages loaded are pages taken, and the FIFO keeps others. -/
theorem playPlan_sublist (chanOf : ℤ → ℤ) (c : ℕ) (level due : ℤ) (q : List ℤ) :
    ((playPlan chanOf c level due q).loaded ++ q.drop (playPlan chanOf c level due q).pops).Sublist
      q := by
  unfold playPlan
  simp only
  split_ifs
  · exact List.drop_sublist ..
  · exact List.drop_sublist ..
  · exact List.drop_sublist ..
  · exact List.drop_sublist ..
  · set n := bumpRounds c level (due - 1).toNat * c
    set l := fit chanOf c 0 (q.drop n) with hl
    obtain ⟨rest, hrest⟩ := fit_initial chanOf c 0 (q.drop n)
    have hpops : l.length ≤ loadPops c l := length_le_loadPops
    have hdrop : q.drop (n + loadPops c l) = rest.drop (loadPops c l - l.length) := by
      rw [← List.drop_drop, ← hrest, List.drop_append, ← hl, List.drop_eq_nil_of_le hpops,
        List.nil_append]
    rw [hdrop]
    have hsub : (l ++ rest.drop (loadPops c l - l.length)).Sublist (l ++ rest) :=
      List.Sublist.append_left (List.drop_sublist ..) l
    rw [hrest] at hsub
    exact hsub.trans (List.drop_sublist ..)

/-- A frame pops at most once on the empty FIFO. -/
theorem playPlan_pops_le_succ (chanOf : ℤ → ℤ) (c : ℕ) (level due : ℤ) (q : List ℤ) :
    (playPlan chanOf c level due q).pops ≤ q.length + 1 := by
  unfold playPlan
  simp only
  split_ifs with h1 h2 h3 h4
  · exact Nat.zero_le _
  · exact Nat.zero_le _
  · exact le_rfl
  · show bumpRounds c level (due - 1).toNat * c ≤ q.length + 1
    omega
  · show bumpRounds c level (due - 1).toNat * c + loadPops c _ ≤ q.length + 1
    set rest := q.drop (bumpRounds c level (due - 1).toNat * c) with hrest
    have hlen : rest.length = q.length - bumpRounds c level (due - 1).toNat * c :=
      List.length_drop ..
    have hle := (fit_initial chanOf c 0 rest).length_le
    unfold loadPops
    split_ifs <;> omega

/-- A frame that, with the level right, loads all it pops: it pops nothing, or
bumps nothing and finds its pages in order. -/
def LoadsAll (chanOf : ℤ → ℤ) (k : ℕ) (due : ℤ) (q : List ℤ) : Prop :=
  k ≤ q.length → due ≠ 0 → due ≤ 1 ∧ InOrder chanOf k q

/-- With the level right, `LoadsAll` says when no page popped is lost. -/
theorem playPlan_loadsAll {chanOf : ℤ → ℤ} {k : ℕ} (hk : 0 < k) {due : ℤ} {q : List ℤ} :
    (playPlan chanOf k q.length due q).loaded.length = (playPlan chanOf k q.length due q).pops ↔
      LoadsAll chanOf k due q := by
  unfold playPlan LoadsAll
  simp only
  by_cases hl : (q.length : ℤ) < k
  · rw [if_pos hl]
    exact ⟨fun _ h => absurd h (by omega), fun _ => rfl⟩
  rw [if_neg hl]
  by_cases hd : due = 0
  · rw [if_pos hd]
    exact ⟨fun _ _ h => absurd hd h, fun _ => rfl⟩
  rw [if_neg hd]
  have hkq : k ≤ q.length := by omega
  by_cases h1 : due ≤ 1
  · have hb : (due - 1).toNat = 0 := by omega
    have hr : bumpRounds k (q.length : ℤ) (due - 1).toNat = 0 := by
      unfold bumpRounds
      omega
    rw [hr, Nat.zero_mul, if_neg (Nat.not_lt_zero _), hb, if_neg (lt_irrefl 0)]
    show (fit chanOf k 0 (q.drop 0)).length = 0 + loadPops k (fit chanOf k 0 (q.drop 0)) ↔ _
    rw [List.drop_zero, Nat.zero_add]
    have hpops : (fit chanOf k 0 q).length = loadPops k (fit chanOf k 0 q) ↔
        (fit chanOf k 0 q).length = k := by
      unfold loadPops
      split_ifs <;> omega
    rw [hpops, fit_full]
    exact ⟨fun h _ _ => ⟨h1, h⟩, fun h => (h hkq hd).2⟩
  · -- a bump pops at least one page of each channel, which are not loaded
    have hr : 1 ≤ bumpRounds k (q.length : ℤ) (due - 1).toNat := by
      have hdiv : (1 : ℤ) ≤ (q.length : ℤ) / k := Int.le_ediv_of_mul_le (by omega) (by omega)
      unfold bumpRounds
      omega
    have hrk : k ≤ bumpRounds k (q.length : ℤ) (due - 1).toNat * k := Nat.le_mul_of_pos_left k hr
    have hno : ¬ (k ≤ q.length → due ≠ 0 → due ≤ 1 ∧ InOrder chanOf k q) := fun h => h1 (h hkq hd).1
    refine ⟨fun h => absurd h ?_, fun h => absurd h hno⟩
    split_ifs
    · exact not_false
    · show ¬ 0 = bumpRounds k (q.length : ℤ) (due - 1).toNat * k
      omega
    · show ¬ (fit chanOf k 0 _).length = _ + loadPops k (fit chanOf k 0 _)
      have hle := length_le_loadPops (k := k) (l := fit chanOf k 0
        (q.drop (bumpRounds k (q.length : ℤ) (due - 1).toNat * k)))
      omega

/-- Channel `n` is given a page by a frame: the level allows the bump, and
behind the pages bumped the FIFO has those of the channels up to `n`, in
order. -/
def Feeds (chanOf : ℤ → ℤ) (k : ℕ) (level due : ℤ) (q : List ℤ) (n : ℕ) : Prop :=
  n < k ∧ k ≤ level ∧ due ≠ 0 ∧ ((due - 1).toNat * k : ℕ) ≤ level ∧
    ∀ j ≤ n, ∃ p, q[(due - 1).toNat * k + j]? = some p ∧ chanOf p = j

theorem bumpRounds_eq_iff {k : ℕ} (hk : 0 < k) (level : ℤ) (hl : 0 ≤ level) (b : ℕ) :
    bumpRounds k level b = b ↔ ((b * k : ℕ) : ℤ) ≤ level := by
  have hk' : (0 : ℤ) < k := by exact_mod_cast hk
  have hdiv : (b : ℤ) ≤ level / k ↔ (b : ℤ) * k ≤ level := Int.le_ediv_iff_mul_le hk'
  have h0 : 0 ≤ level / (k : ℤ) := Int.ediv_nonneg hl hk'.le
  unfold bumpRounds
  push_cast
  rw [← hdiv]
  omega

/-- With `n + 1` frames due, the pages of all of them there and those of the last in
order, these are loaded. -/
theorem playPlan_full {chanOf : ℤ → ℤ} {k : ℕ} (hk : 0 < k) {n : ℕ} {q : List ℤ}
    (hl : n * k + k ≤ q.length) (h : InOrder chanOf k (q.drop (n * k))) :
    playPlan chanOf k q.length ((n + 1 : ℕ) : ℤ) q = ⟨n * k + k, (q.drop (n * k)).take k, 0⟩ := by
  have hn : (((n + 1 : ℕ) : ℤ) - 1).toNat = n := by omega
  have hrounds : bumpRounds k (q.length : ℤ) n = n := by
    rw [bumpRounds_eq_iff hk _ (by omega)]
    exact_mod_cast (Nat.le_add_right _ _).trans hl
  have hpops : loadPops k (fit chanOf k 0 (q.drop (n * k))) = k := if_pos (fit_full.mpr h)
  unfold playPlan
  simp only
  rw [if_neg (by omega), if_neg (by omega), hn, hrounds, if_neg (by omega), if_neg (lt_irrefl n),
    hpops, fit_eq_take h]

/-- `Feeds` says when a channel is given a page. -/
theorem playPlan_feeds {chanOf : ℤ → ℤ} {k : ℕ} (hk : 0 < k) {level due : ℤ} {q : List ℤ} {n : ℕ} :
    n < (playPlan chanOf k level due q).loaded.length ↔ Feeds chanOf k level due q n := by
  unfold playPlan Feeds
  simp only
  by_cases hl : level < k
  · rw [if_pos hl]
    exact ⟨fun h => absurd h (Nat.not_lt_zero n), fun h => absurd h.2.1 (not_le.mpr hl)⟩
  rw [if_neg hl]
  by_cases hd : due = 0
  · rw [if_pos hd]
    exact ⟨fun h => absurd h (Nat.not_lt_zero n), fun h => absurd hd h.2.2.1⟩
  rw [if_neg hd]
  set b := (due - 1).toNat
  have hrb := bumpRounds_eq_iff hk level (by omega) b
  have hle : bumpRounds k level b ≤ b := min_le_left ..
  by_cases hdry : q.length < bumpRounds k level b * k
  · rw [if_pos hdry]
    refine ⟨fun h => absurd h (Nat.not_lt_zero n), fun h => ?_⟩
    obtain ⟨p, hp, -⟩ := h.2.2.2.2 0 (Nat.zero_le n)
    rw [hrb.mpr h.2.2.2.1] at hdry
    have := (List.getElem?_eq_some_iff.mp hp).1
    omega
  rw [if_neg hdry]
  by_cases hshort : bumpRounds k level b < b
  · rw [if_pos hshort]
    exact ⟨fun h => absurd h (Nat.not_lt_zero n), fun h => absurd (hrb.mpr h.2.2.2.1) hshort.ne⟩
  rw [if_neg hshort]
  have hb : bumpRounds k level b = b := by omega
  rw [hb]
  show n < (fit chanOf k 0 (q.drop (b * k))).length ↔ _
  have hget : ∀ j, (q.drop (b * k))[j]? = q[b * k + j]? := fun j => List.getElem?_drop
  constructor
  · intro hn
    refine ⟨hn.trans_le (fit_length_le ..), not_lt.mp hl, hd, hrb.mp hb, fun j hj => ?_⟩
    obtain ⟨rest, hrest⟩ := fit_initial chanOf k 0 (q.drop (b * k))
    have hj' : j < (fit chanOf k 0 (q.drop (b * k))).length := by omega
    refine ⟨_, ?_, by simpa using fit_chan chanOf k 0 _ j (List.getElem?_eq_getElem hj')⟩
    calc q[b * k + j]?
      _ = (fit chanOf k 0 (q.drop (b * k)) ++ rest)[j]? := by rw [hrest, hget]
      _ = (fit chanOf k 0 (q.drop (b * k)))[j]? := List.getElem?_append_left hj'
      _ = some _ := List.getElem?_eq_getElem hj'
  · rintro ⟨hnk, -, -, -, hpages⟩
    apply lt_fit_length chanOf k 0 _ n hnk
    intro m hm
    obtain ⟨p, hp, hch⟩ := hpages m hm
    exact ⟨p, by rw [hget]; exact hp, by rw [hch]; ring⟩

/-! ### A capture frame -/

/-- The free pages below `pagect`, lowest first. -/
def freePages (inuse : ℤ → Bool) (pagect : ℤ) : List ℤ :=
  ((List.range pagect.toNat).map fun i : ℕ => (i : ℤ)).filter fun p => !inuse p

theorem mem_freePages {inuse : ℤ → Bool} {pagect p : ℤ} :
    p ∈ freePages inuse pagect ↔ (0 ≤ p ∧ p < pagect) ∧ inuse p = false := by
  unfold freePages
  rw [List.mem_filter, List.mem_map]
  simp only [List.mem_range, Bool.not_eq_true']
  refine and_congr_left fun _ => ⟨?_, fun h => ⟨p.toNat, by omega, by omega⟩⟩
  rintro ⟨i, hi, rfl⟩
  omega

/-- Taking the lowest free page leaves the others. -/
theorem freePages_cons {inuse : ℤ → Bool} {pagect p : ℤ} (h0 : 0 ≤ p) (hp : p < pagect)
    (hfree : inuse p = false) (hlow : ∀ j, 0 ≤ j → j < p → inuse j = true) :
    freePages inuse pagect = p :: freePages (update inuse p true) pagect := by
  obtain ⟨i, rfl⟩ := Int.eq_ofNat_of_zero_le h0
  have hmem : i ∈ List.range pagect.toNat := List.mem_range.mpr (by omega)
  obtain ⟨pre, post, hr⟩ := List.append_of_mem hmem
  have hs : (pre ++ i :: post).Pairwise (· < ·) := hr ▸ List.pairwise_lt_range
  rw [List.pairwise_append, List.pairwise_cons] at hs
  have hpre : ∀ f : ℤ → Bool, (∀ j : ℕ, j < i → f j = true) →
      (pre.map fun j : ℕ => (j : ℤ)).filter (fun p => !f p) = [] := by
    intro f hf
    rw [List.filter_eq_nil_iff]
    intro a ha
    obtain ⟨j, hj, rfl⟩ := List.mem_map.mp ha
    simp [hf j (hs.2.2 j hj i (List.mem_cons_self ..))]
  have hpost : (post.map fun j : ℕ => (j : ℤ)).filter (fun p => !(update inuse (i : ℤ) true) p) =
      (post.map fun j : ℕ => (j : ℤ)).filter fun p => !inuse p := by
    apply List.filter_congr
    intro a ha
    obtain ⟨j, hj, rfl⟩ := List.mem_map.mp ha
    have hne : (j : ℤ) ≠ i := by have := hs.2.1.1 j hj; omega
    rw [update_of_ne hne]
  unfold freePages
  rw [hr, List.map_append, List.map_cons, List.filter_append, List.filter_append,
    List.filter_cons_of_pos (by simp [hfree]),
    List.filter_cons_of_neg (by simp), hpost, hpre _ fun j hj => hlow j (by omega) (by omega),
    hpre _ fun j hj => by rw [update_of_ne (by omega)]; exact hlow j (by omega) (by omega)]
  rfl

/-- What a capture frame does: the pages armed on the channels from 0 on, the
drops counted. -/
structure ArmPlan where
  armed : List ℤ
  drops : ℤ

/-- A capture frame of a stream of `c` channels. -/
def armPlan (inuse : ℤ → Bool) (pagect : ℤ) (c : ℕ) (level : ℤ) : ArmPlan :=
  if Word.wrap (pagect - level) ≤ c then ⟨[], 1⟩ else ⟨(freePages inuse pagect).take c, 0⟩

theorem freePages_nodup (inuse : ℤ → Bool) (pagect : ℤ) : (freePages inuse pagect).Nodup := by
  unfold freePages
  refine List.Nodup.filter _ (List.Nodup.map ?_ List.nodup_range)
  exact fun i j h => by exact_mod_cast h

/-- The pages armed are free pages of the stream, each once. -/
theorem armPlan_armed (inuse : ℤ → Bool) (pagect : ℤ) (c : ℕ) (level : ℤ) :
    (armPlan inuse pagect c level).armed.Nodup ∧
      ∀ p ∈ (armPlan inuse pagect c level).armed, (0 ≤ p ∧ p < pagect) ∧ inuse p = false := by
  unfold armPlan
  split_ifs
  · exact ⟨List.nodup_nil, by simp⟩
  · exact ⟨(freePages_nodup inuse pagect).sublist (List.take_sublist ..),
      fun p hp => mem_freePages.mp (List.mem_of_mem_take hp)⟩

end AjaDriver
