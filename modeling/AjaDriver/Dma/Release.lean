/-
# What a transfer gives back

A transfer takes an engine's mutex, pins the pages of the user's buffer and maps
a scatterlist, one inside the other. The cleanup gives pages and scatterlist
back, but an error before the transfer starts jumps over it: then the pages that
`get_user_pages` did pin stay pinned. A call gives everything back exactly when
no page was pinned or all the pages were and the scatterlist was mapped
(`dma_releases_iff`).
-/
import AjaDriver.Dma.Outlive
import AjaDriver.Lib.Runs

namespace AjaDriver

open Word

/-! ### What a call takes -/

/-- What `aja_dma` does, with what it takes: an engine's mutex, pages of the
user's buffer, and a mapping of the scatterlist. -/
inductive DmaStep
  | down (i : Fin 3)
  | pin (page : ℕ)
  | mapSg
  | act (a : DmaAct)
  | up (i : Fin 3)
  deriving DecidableEq

/-- `aja_dma_getpages`: `get_user_pages` pins as many pages as it says. -/
def getpagesSteps (M : ModParams) (k : Kernel) (data : ℕ) (count : ℤ) : List DmaStep :=
  if count > M.max_dmalist then []
  else (List.range (k.getUserPages count).toNat).map fun i => .pin (data / pageSize + i)

/-- `aja_dma_mapsg`. -/
def mapsgSteps (k : Kernel) (pages : ℕ → ℕ) (data size count : ℕ) : List DmaStep :=
  if (k.mapSg (mapsgEntries pages data size count)).length < 1 then [] else [.mapSg]

/-- `aja_dma_init`. -/
def dmaInitSteps (M : ModParams) (k : Kernel) (data size : ℕ) : List DmaStep :=
  let fpage := data / pageSize
  let lpage := ulong (data + size + (2 ^ 64 - 1)) / pageSize
  let count := wrap (lpage - fpage + 1)
  if !k.buffers then []
  else if data = 0 then []
  else if size < 8 then []
  else if ulong (data + size) < data then []
  else
    getpagesSteps M k data count ++
      match dmaGetpages M k data count with
      | .error _ => []
      | .ok pages => mapsgSteps k pages data size count.toNat

/-- A call of `aja_dma`, with what the kernel does for it: `w` is the result of
its wait. -/
structure DmaCall where
  k : Kernel
  info : DmaInfo
  w : ℤ

/-- `aja_dma`, when the engines in `busy` are taken. -/
def dmaSteps (M : ModParams) (dma64 : Bool) (busy : Fin 3 → Bool) (c : DmaCall) : List DmaStep :=
  match dmaEngine busy with
  | none => []
  | some i =>
    .down i :: (dmaInitSteps M c.k c.info.uadd.toNat c.info.len.toNat ++
      ((dma M c.k dma64 busy c.info c.w).2.map .act ++ [.up i]))

/-- The engines taken and given back. -/
def DmaStep.taken : DmaStep → Option (Fin 3)
  | .down i => some i
  | _ => none

def DmaStep.given : DmaStep → Option (Fin 3)
  | .up i => some i
  | _ => none

/-- The pages pinned and released. -/
def DmaStep.pinned : DmaStep → Option ℕ
  | .pin page => some page
  | _ => none

def DmaAct.released : DmaAct → Option ℕ
  | .release page => some page
  | _ => none

def DmaStep.released : DmaStep → Option ℕ
  | .act a => a.released
  | _ => none

/-- Everything taken is given back once: the engine, each page, and the mapping
of the scatterlist. -/
structure Released (l : List DmaStep) : Prop where
  engine : (l.filterMap DmaStep.given).Perm (l.filterMap DmaStep.taken)
  pages : (l.filterMap DmaStep.released).Perm (l.filterMap DmaStep.pinned)
  sg : l.count (.act .unmapSg) = l.count .mapSg

/-! ### The condition -/

/-- The number of pages of a request. -/
def DmaInfo.pages (info : DmaInfo) : ℤ :=
  let fpage := info.uadd.toNat / pageSize
  let lpage := ulong (info.uadd.toNat + info.len.toNat + (2 ^ 64 - 1)) / pageSize
  wrap (lpage - fpage + 1)

/-- The request comes to `get_user_pages`. -/
def DmaCall.Checked (M : ModParams) (c : DmaCall) : Prop :=
  c.k.buffers = true ∧ c.info.uadd.toNat ≠ 0 ∧ 8 ≤ c.info.len.toNat ∧
    c.info.uadd.toNat ≤ ulong (c.info.uadd.toNat + c.info.len.toNat) ∧ c.info.pages ≤ M.max_dmalist

/-- No engine is free, or the request does not come to `get_user_pages`, or no
page is pinned, or all are and the scatterlist is mapped. -/
def DmaCall.Clean (M : ModParams) (busy : Fin 3 → Bool) (c : DmaCall) : Prop :=
  dmaEngine busy = none ∨ ¬ c.Checked M ∨ c.k.getUserPages c.info.pages ≤ 0 ∨
    c.k.getUserPages c.info.pages = c.info.pages ∧
      c.k.mapSg (mapsgEntries (fun i => c.info.uadd.toNat / pageSize + i) c.info.uadd.toNat
        c.info.len.toNat
        c.info.pages.toNat) ≠ []

/-! ### The parts of a call -/

theorem getpages_ok {M : ModParams} {k : Kernel} {data : ℕ} {count : ℤ}
    (hle : count ≤ M.max_dmalist) (h : k.getUserPages count = count) :
    dmaGetpages M k data count = .ok fun i => data / pageSize + i := by
  unfold dmaGetpages
  rw [if_neg (not_lt.mpr hle)]
  simp only
  rw [if_neg (not_not.mpr h)]

theorem getpages_error (M : ModParams) {k : Kernel} (data : ℕ) {count : ℤ}
    (h : k.getUserPages count ≠ count) :
    ∃ err, dmaGetpages M k data count = .error err := by
  unfold dmaGetpages
  simp only
  split_ifs <;> exact ⟨_, rfl⟩

/-- Steps of a kind that is not counted. -/
theorem filterMap_uncounted {α β : Type} (step : α → DmaStep) {f : DmaStep → Option β}
    (h : ∀ a, f (step a) = none) (l : List α) : (l.map step).filterMap f = [] := by
  rw [List.filterMap_map, List.filterMap_eq_nil_iff]
  exact fun a _ => h a

theorem count_uncounted {α : Type} (step : α → DmaStep) {s : DmaStep} (h : ∀ a, step a ≠ s)
    (l : List α) :
    (l.map step).count s = 0 := by
  apply List.count_eq_zero.mpr
  rw [List.mem_map]
  rintro ⟨a, -, ha⟩
  exact h a ha

/-- The pins of `n` pages from `base` on. -/
def pins (base n : ℕ) : List DmaStep := (List.range n).map fun i => .pin (base + i)

/-- What is counted of pins. -/
theorem pins_counts (base n : ℕ) :
    (pins base n).filterMap DmaStep.taken = [] ∧ (pins base n).filterMap DmaStep.given = [] ∧
      (pins base n).filterMap DmaStep.pinned = (List.range n).map (fun i => base + i) ∧
      (pins base n).filterMap DmaStep.released = [] ∧ (pins base n).count (.act .unmapSg) = 0 ∧
      (pins base n).count .mapSg = 0 := by
  have hpinned :
      (pins base n).filterMap DmaStep.pinned = (List.range n).map (fun i => base + i) := by
    unfold pins
    rw [List.filterMap_map]
    exact congrFun List.filterMap_eq_map _
  exact ⟨filterMap_uncounted _ (fun _ => rfl) _, filterMap_uncounted _ (fun _ => rfl) _, hpinned,
    filterMap_uncounted _ (fun _ => rfl) _, count_uncounted (fun i => .pin (base + i)) (by simp) _,
    count_uncounted (fun i => .pin (base + i)) (by simp) _⟩

/-- What is counted of actions on the card and the buffer. -/
theorem acts_counts (l : List DmaAct) :
    (l.map DmaStep.act).filterMap DmaStep.taken = [] ∧
      (l.map DmaStep.act).filterMap DmaStep.given = [] ∧
      (l.map DmaStep.act).filterMap DmaStep.pinned = [] ∧
      (l.map DmaStep.act).filterMap DmaStep.released = l.filterMap DmaAct.released ∧
      (l.map DmaStep.act).count (.act .unmapSg) = l.count .unmapSg ∧
      (l.map DmaStep.act).count .mapSg = 0 := by
  have hreleased :
      (l.map DmaStep.act).filterMap DmaStep.released = l.filterMap DmaAct.released := by
    rw [List.filterMap_map]
    rfl
  exact ⟨filterMap_uncounted _ (fun _ => rfl) l, filterMap_uncounted _ (fun _ => rfl) l,
    filterMap_uncounted _ (fun _ => rfl) l, hreleased,
    List.count_map_of_injective l DmaStep.act (fun _ _ h => DmaStep.act.inj h) _,
    count_uncounted .act (by simp) l⟩

/-- The cleanup unmaps once, and releases each page once. -/
theorem cleanup_releases (k : Kernel) (d : Dma) :
    (dmaCleanup k d).filterMap DmaAct.released = (List.range d.count).map d.pages ∧
      (dmaCleanup k d).count .unmapSg = 1 := by
  unfold dmaCleanup
  constructor
  · rw [List.filterMap_cons, List.filterMap_flatMap,
      ← List.flatMap_singleton' ((List.range d.count).map d.pages),
      List.flatMap_map]
    simp only [DmaAct.released]
    apply List.flatMap_congr
    intro i _
    split_ifs <;> rfl
  · rw [List.count_cons_self, List.count_eq_zero.mpr]
    intro h
    obtain ⟨i, -, hi⟩ := List.mem_flatMap.mp h
    rcases List.mem_append.mp hi with hi | hi
    · split_ifs at hi <;> simp at hi
    · simp at hi

/-- So does a transfer. -/
theorem transfer_releases (k : Kernel) (r : DmaRegs) (dma64 : Bool) (d : Dma) (l : SgList) (w : ℤ) :
    (dmaTransfer k r dma64 d l w).2.filterMap DmaAct.released = (List.range d.count).map d.pages ∧
      (dmaTransfer k r dma64 d l w).2.count .unmapSg = 1 := by
  obtain ⟨hrel, hsg⟩ := cleanup_releases k d
  have hstart : (dmaStart r dma64 l w).filterMap DmaAct.released = [] ∧
      (dmaStart r dma64 l w).count .unmapSg = 0 := by
    constructor
    · apply List.filterMap_eq_nil_iff.mpr
      intro a ha
      have hback := givesBack_dmaStart a ha
      cases a <;> first | rfl | simp [DmaAct.GivesBack] at hback
    · apply List.count_eq_zero.mpr
      exact fun h => absurd (givesBack_dmaStart _ h) (by decide)
  unfold dmaTransfer
  split_ifs
  · constructor
    · rw [List.filterMap_append, hstart.1, List.nil_append]
      exact hrel
    · rw [List.count_append, hstart.2, List.count_cons_of_ne (by simp), hsg]
  · constructor
    · rw [List.filterMap_append, hstart.1, List.nil_append, hrel]
    · rw [List.count_append, hstart.2, hsg]

/-! ### A whole call -/

/-- A call that ends with pages pinned and nothing more. -/
theorem released_pins (i : Fin 3) (base n : ℕ) :
    Released (.down i :: (pins base n ++ [.up i])) ↔ n = 0 := by
  obtain ⟨htaken, hgiven, hpinned, hreleased, hunmap, hmap⟩ := pins_counts base n
  constructor
  · intro h
    have hlen := h.pages.length_eq
    simp only [List.filterMap_cons, List.filterMap_append, DmaStep.pinned, DmaStep.released,
      hpinned, hreleased] at hlen
    simpa using hlen.symm
  · rintro rfl
    exact ⟨.refl _, .refl _, rfl⟩

/-- A call whose transfer was started. -/
theorem released_transfer (i : Fin 3) (base n : ℕ) {acts : List DmaAct}
    (hrel : acts.filterMap DmaAct.released = (List.range n).map fun j => base + j)
    (hsg : acts.count .unmapSg = 1) :
    Released (.down i :: (pins base n ++ [.mapSg] ++ (acts.map .act ++ [.up i]))) := by
  obtain ⟨htaken, hgiven, hpinned, hreleased, hunmap, hmap⟩ := pins_counts base n
  obtain ⟨htaken', hgiven', hpinned', hreleased', hunmap', hmap'⟩ := acts_counts acts
  refine ⟨?_, ?_, ?_⟩
  · simp only [List.filterMap_cons, List.filterMap_append, List.filterMap_nil, DmaStep.taken,
      DmaStep.given, htaken, hgiven, htaken', hgiven']
    exact .refl _
  · simp only [List.filterMap_cons, List.filterMap_append, List.filterMap_nil, DmaStep.pinned,
      DmaStep.released, hpinned,
      hreleased, hpinned', hreleased', hrel, List.append_nil, List.nil_append]
    exact .refl _
  · rw [List.count_cons_of_ne (by simp), List.count_cons_of_ne (by simp), List.count_append,
      List.count_append,
      List.count_append, List.count_append, List.count_append, List.count_append, hunmap, hmap,
        hunmap', hmap', hsg]
    rfl

/-- A request that does not come to `get_user_pages`. -/
theorem init_refused {M : ModParams} {c : DmaCall} (h : ¬ c.Checked M) (dma64 : Bool) :
    (∃ err, dmaInit M c.k dma64 c.info.dir c.info.uadd.toNat c.info.cadd c.info.len.toNat =
      .error err) ∧
      dmaInitSteps M c.k c.info.uadd.toNat c.info.len.toNat = [] := by
  unfold dmaInit dmaInitSteps
  simp only
  generalize (if c.info.dir = ajaDmatocard then PciDir.toDevice else PciDir.fromDevice) = dir
  split_ifs with hbuf hdata hsize hover
  · exact ⟨⟨_, rfl⟩, rfl⟩
  · exact ⟨⟨_, rfl⟩, rfl⟩
  · exact ⟨⟨_, rfl⟩, rfl⟩
  · exact ⟨⟨_, rfl⟩, rfl⟩
  · have hgt : M.max_dmalist < c.info.pages := by
      by_contra hle
      exact h ⟨by simpa using hbuf, hdata, not_lt.mp hsize, not_lt.mp hover, not_lt.mp hle⟩
    have hpages : dmaGetpages M c.k c.info.uadd.toNat c.info.pages = .error (-EINVAL) := by
      unfold dmaGetpages
      exact if_pos hgt
    have hsteps : getpagesSteps M c.k c.info.uadd.toNat c.info.pages = [] := if_pos hgt
    unfold DmaInfo.pages at hpages hsteps
    simp only at hpages hsteps
    rw [hpages, hsteps]
    exact ⟨⟨_, rfl⟩, rfl⟩

/-- A request that does. -/
theorem init_checked {M : ModParams} {c : DmaCall} (h : c.Checked M) (dma64 : Bool) :
    dmaInit M c.k dma64 c.info.dir c.info.uadd.toNat c.info.cadd c.info.len.toNat =
        (match dmaGetpages M c.k c.info.uadd.toNat c.info.pages with
        | .error err => .error err
        | .ok pages =>
          match dmaMapsg c.k pages c.info.uadd.toNat c.info.len.toNat c.info.pages.toNat with
          | .error err => .error err
          | .ok sgl =>
            .ok ⟨if c.info.dir = ajaDmatocard then .toDevice
              else .fromDevice, c.info.pages.toNat, pages, sgl,
              dmaCardsg M (if c.info.dir = ajaDmatocard then .toDevice else .fromDevice) c.info.cadd
                dma64 c.k.list_pac
                sgl⟩) ∧
      dmaInitSteps M c.k c.info.uadd.toNat c.info.len.toNat =
        pins (c.info.uadd.toNat / pageSize) (c.k.getUserPages c.info.pages).toNat ++
          match dmaGetpages M c.k c.info.uadd.toNat c.info.pages with
          | .error _ => []
          | .ok pages =>
            mapsgSteps c.k pages c.info.uadd.toNat c.info.len.toNat c.info.pages.toNat := by
  obtain ⟨hbuf, hdata, hsize, hover, hle⟩ := h
  have hsteps : getpagesSteps M c.k c.info.uadd.toNat c.info.pages =
      pins (c.info.uadd.toNat / pageSize) (c.k.getUserPages c.info.pages).toNat :=
        if_neg (not_lt.mpr hle)
  have hbuf' : ¬ (!c.k.buffers) = true := by simp [hbuf]
  rw [← hsteps]
  unfold dmaInit dmaInitSteps
  simp only
  constructor
  · rw [if_neg hbuf', if_neg hdata, if_neg (not_lt.mpr hsize), if_neg (not_lt.mpr hover)]
    rfl
  · rw [if_neg hbuf', if_neg hdata, if_neg (not_lt.mpr hsize), if_neg (not_lt.mpr hover)]
    rfl

/-- A call on engine `i`, by what its request came to. -/
theorem steps_error {M : ModParams} {dma64 : Bool} {busy : Fin 3 → Bool} {c : DmaCall} {i : Fin 3}
    (hi : dmaEngine busy = some i) {err : ℤ}
    (h : dmaInit M c.k dma64 c.info.dir c.info.uadd.toNat c.info.cadd c.info.len.toNat =
      .error err) :
    dmaSteps M dma64 busy c = .down i ::
      (dmaInitSteps M c.k c.info.uadd.toNat c.info.len.toNat ++ [.up i]) := by
  unfold dmaSteps dma
  rw [hi]
  simp only
  rw [h]
  rfl

theorem steps_ok {M : ModParams} {dma64 : Bool} {busy : Fin 3 → Bool} {c : DmaCall} {i : Fin 3}
    (hi : dmaEngine busy = some i) {d : Dma}
    (h : dmaInit M c.k dma64 c.info.dir c.info.uadd.toNat c.info.cadd c.info.len.toNat = .ok d) :
    dmaSteps M dma64 busy c = .down i :: (dmaInitSteps M c.k c.info.uadd.toNat c.info.len.toNat ++
      ((dmaTransfer c.k (dmaRegs i) dma64 d (d.list.headD default) c.w).2.map .act ++
        [.up i])) := by
  unfold dmaSteps dma
  rw [hi]
  simp only
  rw [h]

/-- One call gives everything back exactly when it is clean. -/
theorem released_iff (M : ModParams) (dma64 : Bool) (busy : Fin 3 → Bool) (c : DmaCall) :
    Released (dmaSteps M dma64 busy c) ↔ c.Clean M busy := by
  unfold DmaCall.Clean
  cases hi : dmaEngine busy with
  | none =>
    have hsteps : dmaSteps M dma64 busy c = [] := by
      unfold dmaSteps
      rw [hi]
    rw [hsteps]
    exact ⟨fun _ => .inl rfl, fun _ => ⟨.refl _, .refl _, rfl⟩⟩
  | some i =>
    by_cases hchecked : c.Checked M
    · obtain ⟨hinit, hsteps⟩ := init_checked hchecked dma64
      -- an error behind `get_user_pages` leaves the pages it pinned
      have hfail : ∀ err, dmaInit M c.k dma64 c.info.dir c.info.uadd.toNat c.info.cadd
        c.info.len.toNat = .error err →
          dmaInitSteps M c.k c.info.uadd.toNat c.info.len.toNat =
            pins (c.info.uadd.toNat / pageSize) (c.k.getUserPages c.info.pages).toNat ++ [] →
          (Released (dmaSteps M dma64 busy c) ↔ c.k.getUserPages c.info.pages ≤ 0) :=
            fun err herr hpins => by
        rw [steps_error hi herr, hpins, List.append_nil, released_pins]
        omega
      by_cases hall : c.k.getUserPages c.info.pages = c.info.pages
      · rw [getpages_ok hchecked.2.2.2.2 hall] at hinit hsteps
        simp only [dmaMapsg, mapsgSteps] at hinit hsteps
        set sgl :=
          c.k.mapSg (mapsgEntries (fun i => c.info.uadd.toNat / pageSize + i) c.info.uadd.toNat
          c.info.len.toNat c.info.pages.toNat)
        by_cases hmap : sgl = []
        · have hshort : sgl.length < 1 := by
            rw [hmap]
            decide
          rw [if_pos hshort] at hinit hsteps
          rw [hfail _ hinit hsteps]
          simp [hchecked, hmap]
        · have hlong : ¬ sgl.length < 1 := by
            rw [Nat.lt_one_iff, List.length_eq_zero_iff]
            exact hmap
          rw [if_neg hlong] at hinit hsteps
          obtain ⟨hrel, hsg⟩ := transfer_releases c.k (dmaRegs i) dma64 _ _ c.w
          rw [hall] at hsteps
          rw [steps_ok hi hinit, hsteps]
          exact ⟨fun _ => .inr (.inr (.inr ⟨hall, hmap⟩)),
            fun _ => released_transfer i _ _ hrel hsg⟩
      · obtain ⟨err, herr⟩ := getpages_error M c.info.uadd.toNat hall
        rw [herr] at hinit hsteps
        rw [hfail _ hinit hsteps]
        simp [hchecked, hall]
    · obtain ⟨⟨err, herr⟩, hnil⟩ := init_refused hchecked dma64
      rw [steps_error hi herr, hnil]
      exact ⟨fun _ => .inr (.inl hchecked), fun _ => (released_pins i 0 0).mpr rfl⟩

/-! ### Calls one after the other -/

/-- The engines taken after a step. -/
def DmaStep.busy (b : Fin 3 → Bool) : DmaStep → Fin 3 → Bool
  | .down i => Function.update b i true
  | .up i => Function.update b i false
  | _ => b

/-- The engines taken after a call. -/
def dmaBusy (M : ModParams) (dma64 : Bool) (busy : Fin 3 → Bool) (c : DmaCall) : Fin 3 → Bool :=
  (dmaSteps M dma64 busy c).foldl DmaStep.busy busy

/-- In a sequence of calls, whatever engines others hold, every call gives
everything back exactly when every call is clean. -/
theorem dma_releases_iff (M : ModParams) (dma64 : Bool) (busy : Fin 3 → Bool)
    (calls : List DmaCall) :
    Runs.Along (dmaBusy M dma64) (fun b c => Released (dmaSteps M dma64 b c)) busy calls ↔
      Runs.Along (dmaBusy M dma64) (fun b c => c.Clean M b) busy calls := by
  simp only [released_iff]

/-- A kernel that pins one page of two. -/
def onePage : Kernel :=
  ⟨true, fun _ => 1, fun l => l.map fun e => ⟨e.page * pageSize + e.off, e.len⟩, 0, fun _ => false⟩

/-- A buffer of 5000 bytes, two pages, of which one can be pinned. -/
theorem partial_pin_leaks :
    ¬ Released (dmaSteps {} false (fun _ => false) ⟨onePage, ⟨0, 5000, 0, 0x10000⟩, 1⟩) := by
  intro h
  have hpages : dmaSteps {} false (fun _ => false) ⟨onePage, ⟨0, 5000, 0, 0x10000⟩, 1⟩ =
      [.down 0, .pin 0x10, .up 0] := by
    decide +kernel
  rw [hpages] at h
  exact absurd h.pages.length_eq (by decide)

end AjaDriver
