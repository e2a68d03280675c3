/-
# The start of a frame

`aja_stream_freeup` gives the last pages back: those of a playback stream to
the free ones (`streamFreeup_playback`), those of a capture stream to the
FIFO, in the channels' order (`streamFreeup_capture`). Either way no last
page is left waiting.
-/
import AjaDriver.View

namespace AjaDriver

open Function Word Pool Card

variable {TC : Type}

/-! ### Last pages -/

/-- A stream's direction. -/
inductive Mode
  | playback
  | capture
  deriving DecidableEq, Repr

/-- The type of the last pages of a stream. -/
def Mode.type : Mode → BitVec 32
  | .playback => ajaPlayback
  | .capture => ajaCapture

/-- Exactly one of `AJA_Playback` and `AJA_Capture` is set. -/
def Mode.Of (m : Mode) (flags : BitVec 32) : Prop :=
  (flags &&& ajaPlayback ≠ 0 ↔ m = .playback) ∧ (flags &&& ajaCapture ≠ 0 ↔ m = .capture)

instance (m : Mode) (flags : BitVec 32) : Decidable (m.Of flags) :=
  inferInstanceAs (Decidable (_ ∧ _))

namespace Card

/-- The page channel `i` was given last, if it waits to be freed up. -/
def pending (c : Card TC) (i : ℤ) : List ℤ :=
  if (c.stream.last i).type = 0 then [] else [(c.stream.last i).page]

/-- The pages waiting to be freed up. -/
def lastPages (c : Card TC) : List ℤ := c.pending 0 ++ c.pending 1

/-- The last pages of the two channels are those of a stream of direction `m`. -/
def Typed (c : Card TC) (m : Mode) : Prop :=
  ∀ i, 0 ≤ i → i < 2 → (c.stream.last i).type = 0 ∨ (c.stream.last i).type = m.type

end Card

theorem pending_zero {c : Card TC} {i : ℤ} (h : (c.stream.last i).type = 0) :
    c.pending i = [] := if_pos h

theorem pending_type {c : Card TC} {i : ℤ} {m : Mode} (h : (c.stream.last i).type = m.type) :
    c.pending i = [(c.stream.last i).page] := by
  apply if_neg
  rw [h]
  cases m <;> decide

theorem pending_congr {c d : Card TC} {i : ℤ} (h : d.stream.last i = c.stream.last i) :
    d.pending i = c.pending i := by
  unfold pending
  rw [h]

theorem lastPages_congr {c d : Card TC} (h : d.stream.last = c.stream.last) :
    d.lastPages = c.lastPages := by
  unfold lastPages
  rw [pending_congr (congrFun h 0), pending_congr (congrFun h 1)]

/-! ### One channel -/

/-- A channel's last page is marked as done with. -/
theorem last_freeupSlot (x : FreeupIn TC) (i : ℤ) (c : Card TC) :
    (freeupSlot x i c).stream.last = update c.stream.last i { c.stream.last i with type := 0 } := by
  have hset : ∀ d : Card TC, d.stream.last = c.stream.last →
      ∀ l, (d.setLast i l).stream.last = update c.stream.last i l := by
    intro d hd l
    rw [← hd]
    rfl
  have hfree : (if (c.stream.last i).type &&& ajaPlayback ≠ 0 then
      c.withPool (c.stream.pool.streamPageFree (c.stream.last i).page) else c).stream.last =
        c.stream.last := by
    split_ifs <;> rfl
  have hpush : ∀ (d : Card TC) (m : StreamMeta TC)
    (P : Pool), ((d.setMeta (c.stream.last i).page m).withPool P).stream.last =
      d.stream.last := fun _ _ _ => rfl
  unfold freeupSlot
  apply hset
  simp only
  by_cases hc : (c.stream.last i).type &&& ajaCapture ≠ 0
  · rw [if_pos hc, hpush]
    exact hfree
  · rw [if_neg hc]
    exact hfree

/-- So are those of both channels. -/
theorem type_streamFreeup (x : FreeupIn TC) (c : Card TC) (i : ℤ) (h0 : 0 ≤ i) (h2 : i < 2) :
    ((streamFreeup x c).stream.last i).type = 0 := by
  unfold streamFreeup
  rw [last_freeupSlot, last_freeupSlot]
  obtain rfl | rfl : i = 0 ∨ i = 1 := by omega
  · rw [update_of_ne (by decide), update_self]
  · rw [update_self]

theorem freeupSlot_idle (x : FreeupIn TC) {c : Card TC} {i : ℤ} (ht : (c.stream.last i).type = 0) :
    freeupSlot x i c = c.setLast i { c.stream.last i with type := 0 } := by
  unfold freeupSlot
  simp only
  rw [ht, if_neg (by decide), if_neg (by decide)]

theorem freeupSlot_free (x : FreeupIn TC) {c : Card TC} {i : ℤ}
    (ht : (c.stream.last i).type = ajaPlayback) :
    freeupSlot x i c =
      (c.withPool (c.stream.pool.streamPageFree (c.stream.last i).page)).setLast i
        { c.stream.last i with type := 0 } := by
  unfold freeupSlot
  simp only
  rw [ht, if_neg (by decide), if_pos (by decide)]

theorem freeupSlot_publish (x : FreeupIn TC) {c : Card TC} {i : ℤ}
    (ht : (c.stream.last i).type = ajaCapture) :
    freeupSlot x i c =
      ((c.setMeta (c.stream.last i).page
        (x.mark (c.stream.pagemeta (c.stream.last i).page))).withPool
        ((c.setMeta (c.stream.last i).page
          (x.mark (c.stream.pagemeta (c.stream.last i).page))).stream.pool.streamFifoPush
            (c.stream.last i).page).2).setLast i { c.stream.last i with type := 0 } := by
  unfold freeupSlot
  simp only
  rw [ht, if_pos (by decide), if_neg (by decide)]

/-! ### Freeing up a playback stream -/

/-- `d` is `c` with the pages `l` freed. -/
structure Freed (c d : Card TC) (l : List ℤ) : Prop where
  links : d.stream.pool.links = c.stream.pool.links
  pageNo : d.stream.pool.pageNo = c.stream.pool.pageNo
  fifo : d.stream.pool.fifo = c.stream.pool.fifo
  inuse : ∀ p, d.stream.pool.inuse p = (c.stream.pool.inuse p && !decide (p ∈ l))
  pagemeta : d.stream.pagemeta = c.stream.pagemeta
  outputs : d.outputs = c.outputs
  inputs : d.inputs = c.inputs
  steady : Steady c d

theorem Freed.trans {c d e : Card TC} {l l' : List ℤ} (h : Freed c d l) (h' : Freed d e l') :
    Freed c e (l ++ l') where
  links := h'.links.trans h.links
  pageNo := h'.pageNo.trans h.pageNo
  fifo := h'.fifo.trans h.fifo
  inuse p := by
    rw [h'.inuse, h.inuse]
    by_cases hl : p ∈ l <;> by_cases hl' : p ∈ l' <;> simp [hl, hl']
  pagemeta := h'.pagemeta.trans h.pagemeta
  outputs := h'.outputs.trans h.outputs
  inputs := h'.inputs.trans h.inputs
  steady := h.steady.trans h'.steady

theorem Freed.setLast {c d : Card TC} {l : List ℤ} (h : Freed c d l) (i : ℤ) (p : LastPage) :
    Freed c (d.setLast i p) l :=
  ⟨h.links, h.pageNo, h.fifo, h.inuse, h.pagemeta, h.outputs, h.inputs,
    h.steady.trans (steady_setLast _ _ _)⟩

theorem freed_free (c : Card TC) {p : ℤ} (h0 : 0 ≤ p) (h64 : p < 64) :
    Freed c (c.withPool (c.stream.pool.streamPageFree p)) [p] where
  links := links_free _ _
  pageNo := pageNo_free _ _
  fifo := fifo_free _ _
  inuse a := by
    show (c.stream.pool.streamPageFree p).inuse a = _
    rw [inuse_free _ h0 h64, update_apply]
    by_cases ha : a = p <;> simp [ha]
  pagemeta := rfl
  outputs := rfl
  inputs := rfl
  steady := steady_withPool _ _

theorem freeupSlot_playback (x : FreeupIn TC) {c : Card TC} {i : ℤ}
    (ht : (c.stream.last i).type = 0 ∨ (c.stream.last i).type = ajaPlayback)
    (hv : ∀ p ∈ c.pending i, 0 ≤ p ∧ p < 64) :
    Freed c (freeupSlot x i c) (c.pending i) := by
  rcases ht with ht | ht
  · rw [pending_zero ht, freeupSlot_idle x ht]
    have hF : Freed c c [] := ⟨rfl, rfl, rfl, by simp, rfl, rfl, rfl, .refl c⟩
    exact hF.setLast _ _
  · have hpend := pending_type (m := .playback) ht
    rw [hpend] at hv ⊢
    obtain ⟨h0, h64⟩ := hv _ (List.mem_singleton_self _)
    rw [freeupSlot_free x ht]
    exact (freed_free c h0 h64).setLast _ _

/-- The last pages of a playback stream become free. -/
theorem streamFreeup_playback (x : FreeupIn TC) {c : Card TC} (ht : c.Typed .playback)
    (hv : ∀ p ∈ c.lastPages, 0 ≤ p ∧ p < 64) :
    Freed c (streamFreeup x c) c.lastPages ∧
      ∀ i, 0 ≤ i → i < 2 → ((streamFreeup x c).stream.last i).type = 0 := by
  have h0 := freeupSlot_playback x (ht 0 le_rfl (by decide))
    fun p hp => hv p (List.mem_append_left _ hp)
  have hlast1 : (freeupSlot x 0 c).stream.last 1 = c.stream.last 1 := by
    rw [last_freeupSlot, update_of_ne (by decide)]
  have h1 := freeupSlot_playback x (c := freeupSlot x 0 c) (i := 1)
    (by rw [hlast1]; exact ht 1 (by decide) (by decide))
    fun p hp => hv p (List.mem_append_right _ (by rwa [pending_congr hlast1] at hp))
  rw [pending_congr hlast1] at h1
  exact ⟨h0.trans h1, type_streamFreeup x c⟩

/-! ### Freeing up a capture stream -/

/-- `d` is `c`, whose FIFO held `q`, with the pages `l` pushed. -/
structure Published (c d : Card TC) (q l : List ℤ) : Prop where
  holds : d.stream.pool.Holds (q ++ l)
  fifo : d.stream.pool.fifo = wrap (c.stream.pool.fifo + l.length)
  inuse : d.stream.pool.inuse = c.stream.pool.inuse
  outputs : d.outputs = c.outputs
  inputs : d.inputs = c.inputs
  steady : Steady c d

theorem Published.trans {c d e : Card TC} {q l l' : List ℤ} (h : Published c d q l)
    (h' : Published d e (q ++ l) l') : Published c e q (l ++ l') where
  holds := by rw [← List.append_assoc]; exact h'.holds
  fifo := by rw [h'.fifo, h.fifo, wrap_wrap_add, List.length_append]; push_cast; rw [add_assoc]
  inuse := h'.inuse.trans h.inuse
  outputs := h'.outputs.trans h.outputs
  inputs := h'.inputs.trans h.inputs
  steady := h.steady.trans h'.steady

theorem Published.setLast {c d : Card TC} {q l : List ℤ} (h : Published c d q l) (i : ℤ)
    (p : LastPage) :
    Published c (d.setLast i p) q l :=
  ⟨h.holds.keeps (keeps_touch _ .last i), h.fifo, h.inuse, h.outputs, h.inputs,
    h.steady.trans (steady_setLast _ _ _)⟩

theorem published_push {c : Card TC} {q : List ℤ} (h : c.stream.pool.Holds q) {p : ℤ} (h0 : 0 ≤ p)
    (h64 : p < 64) (hp : p ∉ q) (m : StreamMeta TC) :
    Published c ((c.setMeta p m).withPool ((c.setMeta p m).stream.pool.streamFifoPush p).2) q [p]
      where
  holds := (h.keeps (keeps_touch _ .pagemeta p)).push h0 h64 hp
  fifo := fifo_push _ h0 h64
  inuse := inuse_push _ _
  outputs := rfl
  inputs := rfl
  steady := (steady_setMeta _ _ _).trans (steady_withPool _ _)

theorem freeupSlot_capture (x : FreeupIn TC) {c : Card TC} {q : List ℤ} {i : ℤ}
    (h : c.stream.pool.Holds q) (hr : wrap c.stream.pool.fifo = c.stream.pool.fifo)
    (ht : (c.stream.last i).type = 0 ∨ (c.stream.last i).type = ajaCapture)
    (hv : ∀ p ∈ c.pending i, 0 ≤ p ∧ p < 64) (hn : (q ++ c.pending i).Nodup) :
    Published c (freeupSlot x i c) q (c.pending i) := by
  rcases ht with ht | ht
  · rw [pending_zero ht, freeupSlot_idle x ht]
    have hP : Published c c q [] := ⟨by simpa using h, by simp [hr], rfl, rfl, rfl, .refl c⟩
    exact hP.setLast _ _
  · have hpend := pending_type (m := .capture) ht
    rw [hpend] at hv hn ⊢
    obtain ⟨h0, h64⟩ := hv _ (List.mem_singleton_self _)
    have hp : (c.stream.last i).page ∉ q := fun e =>
      (List.nodup_append.mp hn).2.2 _ e _ (List.mem_singleton_self _) rfl
    rw [freeupSlot_publish x ht]
    exact (published_push h h0 h64 hp _).setLast _ _

/-- The last pages of a capture stream join the FIFO, channel 0's first. -/
theorem streamFreeup_capture (x : FreeupIn TC) {c : Card TC} {q : List ℤ}
    (h : c.stream.pool.Holds q) (hr : wrap c.stream.pool.fifo = c.stream.pool.fifo)
    (ht : c.Typed .capture) (hv : ∀ p ∈ c.lastPages, 0 ≤ p ∧ p < 64)
    (hn : (q ++ c.lastPages).Nodup) :
    Published c (streamFreeup x c) q c.lastPages ∧
      ∀ i, 0 ≤ i → i < 2 → ((streamFreeup x c).stream.last i).type = 0 := by
  have hn' : (q ++ c.pending 0 ++ c.pending 1).Nodup := by rw [List.append_assoc]; exact hn
  have h0 := freeupSlot_capture x h hr (ht 0 le_rfl (by decide))
    (fun p hp => hv p (List.mem_append_left _ hp)) (List.nodup_append.mp hn').1
  have hlast1 : (freeupSlot x 0 c).stream.last 1 = c.stream.last 1 := by
    rw [last_freeupSlot, update_of_ne (by decide)]
  have h1 :=
    freeupSlot_capture x (c := freeupSlot x 0 c) (i := 1) h0.holds (by rw [h0.fifo, wrap_wrap])
    (by rw [hlast1]; exact ht 1 (by decide) (by decide))
    (fun p hp => hv p (List.mem_append_right _ (by rwa [pending_congr hlast1] at hp)))
    (by rw [pending_congr hlast1]; exact hn')
  rw [pending_congr hlast1] at h1
  exact ⟨h0.trans h1, type_streamFreeup x c⟩

end AjaDriver
