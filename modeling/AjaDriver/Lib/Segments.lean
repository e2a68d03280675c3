/-
# Segments of an address space

A segment is a run of consecutive byte addresses, and a list of segments
names the bytes of a buffer in order. `Coalesces` joins adjacent segments,
which leaves the bytes and their order alone (`Coalesces.bytes_eq`); `Paged`
buffers are contiguous page by page only (`bytes_pages`). A buffer of whole
words is read word by word (`wordHeads`).
-/
import Mathlib.Data.List.Basic
import Mathlib.Algebra.BigOperators.Group.List.Basic
import Mathlib.Algebra.Order.Group.Nat
import Mathlib.Algebra.GroupWithZero.Nat

namespace Segments

/-- The bytes from `addr` on. -/
structure Seg where
  addr : ℕ
  len : ℕ
  deriving DecidableEq, Repr

/-- The addresses of a segment's bytes. -/
def Seg.bytes (s : Seg) : List ℕ := (List.range s.len).map (s.addr + ·)

/-- The addresses of a buffer's bytes, in order. -/
def bytes (l : List Seg) : List ℕ := l.flatMap Seg.bytes

/-- The length of a buffer. -/
def total (l : List Seg) : ℕ := (l.map Seg.len).sum

@[simp] theorem bytes_nil : bytes [] = [] := rfl

@[simp] theorem bytes_cons (s : Seg) (l : List Seg) : bytes (s :: l) = s.bytes ++ bytes l := rfl

@[simp] theorem total_nil : total [] = 0 := rfl

@[simp] theorem total_cons (s : Seg) (l : List Seg) : total (s :: l) = s.len + total l := rfl

@[simp] theorem Seg.length_bytes (s : Seg) : s.bytes.length = s.len := by simp [Seg.bytes]

theorem length_bytes : ∀ l : List Seg, (bytes l).length = total l
  | [] => rfl
  | s :: l => by rw [bytes_cons, List.length_append, s.length_bytes, length_bytes l, total_cons]

/-- A range of addresses, cut in two. -/
theorem map_range_add {α : Type*} (f : ℕ → α) (m n : ℕ) :
    (List.range (m + n)).map f = (List.range m).map f ++ (List.range n).map fun j => f (m + j) := by
  rw [List.range_add, List.map_append, List.map_map]
  rfl

/-- Two adjacent segments are one. -/
theorem bytes_join {s t : Seg} (h : s.addr + s.len = t.addr) :
    Seg.bytes ⟨s.addr, s.len + t.len⟩ = s.bytes ++ t.bytes := by
  unfold Seg.bytes
  rw [map_range_add, ← h]
  simp only [Nat.add_assoc]

/-! ### Words -/

section Words

variable {α : Type*}

/-- The first of every four: the words of a list of bytes. -/
def wordHeads : List α → List α
  | a :: _ :: _ :: _ :: l => a :: wordHeads l
  | _ => []

/-- A whole number of words, and those after it. -/
theorem wordHeads_append {A B : List α} (h : 4 ∣ A.length) :
    wordHeads (A ++ B) = wordHeads A ++ wordHeads B := by
  fun_induction wordHeads A with
  | case1 a b c d l ih =>
    have hl : 4 ∣ l.length := (Nat.dvd_add_left (Nat.dvd_refl 4)).mp h
    rw [List.cons_append, List.cons_append, List.cons_append, List.cons_append, wordHeads, ih hl,
      List.cons_append]
  | case2 l hshort =>
    match l, hshort, h with
    | [], _, _ => rfl
    | [_], _, h | [_, _], _, h | [_, _, _], _, h => exact absurd h (by simp)
    | a :: b :: c :: d :: l, hshort, _ => exact absurd rfl (hshort a b c d l)

theorem wordHeads_range (f : ℕ → α) (n : ℕ) :
    wordHeads ((List.range (4 * n)).map f) = (List.range n).map fun j => f (4 * j) := by
  induction n with
  | zero => rfl
  | succ n ih =>
    rw [Nat.mul_succ, map_range_add, wordHeads_append (by simp), ih,
      map_range_add (fun j => f (4 * j)) n 1]
    rfl

end Words

/-! ### Coalescing -/

/-- The second list is the first with some adjacent segments joined. -/
inductive Coalesces : List Seg → List Seg → Prop
  | nil : Coalesces [] []
  | keep {s : Seg} {l m : List Seg} : Coalesces l m → Coalesces (s :: l) (s :: m)
  | join {s t : Seg} {l m : List Seg} :
    s.addr + s.len = t.addr → Coalesces (⟨s.addr, s.len + t.len⟩ :: l) m → Coalesces (s :: t :: l) m

theorem Coalesces.refl : ∀ l : List Seg, Coalesces l l
  | [] => .nil
  | _ :: l => .keep (Coalesces.refl l)

theorem Coalesces.bytes_eq {l m : List Seg} (h : Coalesces l m) : bytes m = bytes l := by
  induction h with
  | nil => rfl
  | keep _ ih => rw [bytes_cons, bytes_cons, ih]
  | join hadj _ ih =>
    rw [ih, bytes_cons, bytes_join hadj, bytes_cons, bytes_cons, List.append_assoc]

/-! ### Pages -/

/-- The address of byte `x` of a space of pages of `P` bytes, page `n` of
which lies at `base n`. -/
def loc (P : ℕ) (base : ℕ → ℕ) (x : ℕ) : ℕ := base (x / P) + x % P

/-- Bytes of one page are adjacent. -/
theorem loc_add {P : ℕ} {base : ℕ → ℕ} {x j : ℕ} (h : x % P + j < P) :
    loc P base (x + j) = loc P base x + j := by
  have hsplit : x + j = P * (x / P) + (x % P + j) := by
    have := Nat.div_add_mod x P
    omega
  have hdiv : (x + j) / P = x / P := by
    rw [hsplit, Nat.mul_add_div (by omega), Nat.div_eq_of_lt h, Nat.add_zero]
  have hmod : (x + j) % P = x % P + j := by rw [hsplit, Nat.mul_add_mod, Nat.mod_eq_of_lt h]
  unfold loc
  rw [hdiv, hmod, Nat.add_assoc]

theorem loc_page {P : ℕ} (hP : 0 < P) (base : ℕ → ℕ) (i : ℕ) : loc P base (i * P) = base i := by
  unfold loc
  rw [Nat.mul_mod_left, Nat.mul_div_cancel i hP, Nat.add_zero]

/-- A segment that does not leave its page. -/
theorem bytes_loc {P : ℕ} {base : ℕ → ℕ} {x n : ℕ} (h : x % P + n ≤ P) :
    Seg.bytes ⟨loc P base x, n⟩ = (List.range n).map fun j => loc P base (x + j) := by
  apply List.map_congr_left
  intro j hj
  have hjn : j < n := List.mem_range.mp hj
  exact (loc_add (by omega)).symm

/-- The segments of a buffer of `n` bytes in the `c` pages from page `i` on. -/
def pagesFrom (P : ℕ) (base : ℕ → ℕ) : ℕ → ℕ → ℕ → List Seg
  | 0, _, _ => []
  | c + 1, i, n => ⟨base i, min n P⟩ :: pagesFrom P base c (i + 1) (n - min n P)

theorem bytes_pagesFrom {P : ℕ} (hP : 0 < P) (base : ℕ → ℕ) : ∀ (c i n : ℕ), n ≤ c * P →
    bytes (pagesFrom P base c i n) = (List.range n).map fun j => loc P base (i * P + j)
  | 0, i, n, h => by
    obtain rfl : n = 0 := by omega
    rfl
  | c + 1, i, n, h => by
    have hsucc : (c + 1) * P = c * P + P := Nat.succ_mul c P
    have hfirst : Seg.bytes ⟨base i, min n P⟩ = (List.range (min n P)).map fun j =>
        loc P base (i * P + j) := by
      rw [← loc_page hP base i]
      apply bytes_loc
      rw [Nat.mul_mod_left, Nat.zero_add]
      exact min_le_right n P
    rw [pagesFrom, bytes_cons, hfirst, bytes_pagesFrom hP base c (i + 1) (n - min n P) (by omega)]
    by_cases hn : n ≤ P
    · rw [min_eq_left hn, Nat.sub_self]
      simp
    · rw [min_eq_right (by omega)]
      have hcut : n = P + (n - P) := by omega
      calc (List.range P).map (fun j => loc P base (i * P + j)) ++
            (List.range (n - P)).map (fun j => loc P base ((i + 1) * P + j))
        _ = (List.range P).map (fun j => loc P base (i * P + j)) ++
            (List.range (n - P)).map (fun j => loc P base (i * P + (P + j))) := by
          congr 2
          funext j
          rw [Nat.succ_mul, Nat.add_assoc]
        _ = (List.range (P + (n - P))).map (fun j => loc P base (i * P + j)) :=
          (map_range_add (fun j => loc P base (i * P + j)) P (n - P)).symm
        _ = (List.range n).map (fun j => loc P base (i * P + j)) := by rw [← hcut]

/-- The segments of a buffer of `n` bytes from byte `x` on, in its first page
and `c` more. -/
def pages (P : ℕ) (base : ℕ → ℕ) (c x n : ℕ) : List Seg :=
  ⟨loc P base x, min n (P - x % P)⟩ :: pagesFrom P base c (x / P + 1) (n - min n (P - x % P))

/-- Split at the page boundaries, a buffer keeps its bytes. -/
theorem bytes_pages {P : ℕ} (hP : 0 < P) (base : ℕ → ℕ) {c x n : ℕ} (h : x % P + n ≤ (c + 1) * P) :
    bytes (pages P base c x n) = (List.range n).map fun j => loc P base (x + j) := by
  have hoff : x % P < P := Nat.mod_lt x hP
  have hsucc : (c + 1) * P = c * P + P := Nat.succ_mul c P
  rw [pages, bytes_cons, bytes_loc (by omega), bytes_pagesFrom hP base c _ _ (by omega)]
  by_cases hn : n ≤ P - x % P
  · rw [min_eq_left hn, Nat.sub_self]
    simp
  · rw [min_eq_right (by omega)]
    set m := P - x % P with hm
    have hcut : n = m + (n - m) := by omega
    have hnext : (x / P + 1) * P = x + m := by
      have := Nat.div_add_mod' x P
      rw [Nat.succ_mul]
      omega
    calc (List.range m).map (fun j => loc P base (x + j)) ++
          (List.range (n - m)).map (fun j => loc P base ((x / P + 1) * P + j))
      _ = (List.range m).map (fun j => loc P base (x + j)) ++
          (List.range (n - m)).map (fun j => loc P base (x + (m + j))) := by
        congr 2
        funext j
        rw [hnext, Nat.add_assoc]
      _ = (List.range (m + (n - m))).map (fun j => loc P base (x + j)) :=
        (map_range_add (fun j => loc P base (x + j)) m (n - m)).symm
      _ = (List.range n).map (fun j => loc P base (x + j)) := by rw [← hcut]

end Segments
