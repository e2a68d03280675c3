/-
# DMA transfers

The driver's side of a DMA: `dmaGetpages`, `dmaMapsg` and `dmaCardsg` turn a
user buffer into the card's list of descriptors, `dmaInit` checks a request
and runs them, and `dma` is a whole transfer: what it does to the card and to
the buffer, in order. What the kernel does for the driver is `Kernel`. An
`unsigned long` has 64 bits.
-/
import AjaDriver.Ioctls
import AjaDriver.Lib.Segments

namespace AjaDriver

open Word Segments

/-! ### Constants and data -/

def pageSize : ℕ := 4096
def maxDmaSize : ℕ := 0xF0000

/-- The size of an `aja_sglist_t`. -/
def sglistSize : ℕ := 32

/-- The value of an `unsigned long`. -/
def ulong (x : ℕ) : ℕ := x % 2 ^ 64

/-- `dma->dir`. -/
inductive PciDir
  | toDevice
  | fromDevice
  deriving DecidableEq, Repr

/-- An entry of the scatterlist before it is mapped: `len` bytes of page
`page` from `off` on. -/
structure SgPage where
  page : ℕ
  len : ℕ
  off : ℕ
  deriving DecidableEq, Repr

/-- `aja_sglist_t`, without its pad. -/
structure SgList where
  hadd : BitVec 32
  cadd : BitVec 32
  count : BitVec 32
  next : BitVec 32
  hadd_high : BitVec 32
  next_high : BitVec 32
  deriving DecidableEq, Repr, Inhabited

/-- What the kernel does for a transfer: whether `aja_card_create` was given
the engine's buffers, the result of `get_user_pages`, what `pci_map_sg` makes
of a scatterlist (`[]` when it fails), the bus address of the descriptors,
and which pages are reserved. -/
structure Kernel where
  buffers : Bool
  getUserPages : ℤ → ℤ
  mapSg : List SgPage → List Seg
  list_pac : ℕ
  reserved : ℕ → Bool

/-- The part of `aja_dma_t` a request fills in. -/
structure Dma where
  dir : PciDir
  count : ℕ
  pages : ℕ → ℕ
  sgl : List Seg
  list : List SgList

/-- `aja_dmainfo_t`. -/
structure DmaInfo where
  cadd : BitVec 32
  len : BitVec 32
  dir : BitVec 32
  uadd : BitVec 64

def ajaDmatocard : BitVec 32 := 0

/-! ### The scatterlist -/

/-- `aja_dma_getpages`: the pages of the user buffer, each as its number in
the user's address space. -/
def dmaGetpages (M : ModParams) (k : Kernel) (data : ℕ) (count : ℤ) : Except ℤ (ℕ → ℕ) :=
  if count > M.max_dmalist then .error (-EINVAL)
  else
    let err := k.getUserPages count
    if err ≠ count then .error (if err < 0 then err else -EINVAL)
    else .ok fun i => data / pageSize + i

/-- The loop of `aja_dma_mapsg`: the entries of `n` pages from page `i` on. -/
def mapsgLoop (pages : ℕ → ℕ) : ℕ → ℕ → ℕ → List SgPage
  | 0, _, _ => []
  | n + 1, i, size =>
    let fbs := min size pageSize
    ⟨pages i, fbs, 0⟩ :: mapsgLoop pages n (i + 1) (size - fbs)

/-- The scatterlist of `aja_dma_mapsg` before it is mapped. -/
def mapsgEntries (pages : ℕ → ℕ) (data size count : ℕ) : List SgPage :=
  let off := data % pageSize
  let fbs := min size (pageSize - off)
  ⟨pages 0, fbs, off⟩ :: mapsgLoop pages (count - 1) 1 (size - fbs)

/-- `aja_dma_mapsg`. -/
def dmaMapsg (k : Kernel) (pages : ℕ → ℕ) (data size count : ℕ) : Except ℤ (List Seg) :=
  let sgl := k.mapSg (mapsgEntries pages data size count)
  if sgl.length < 1 then .error (-EFAULT) else .ok sgl

/-! ### The descriptors -/

/-- The variables of the loop of `aja_dma_cardsg`. The list filled so far is
`done` and, when there is one, the descriptor `plist` points to. -/
structure CardSg where
  paddr : ℕ
  tsize : ℕ
  cardoff : BitVec 32
  next : ℕ
  done : List SgList
  plist : Option SgList

/-- The descriptor of a block. -/
def cardsgFill (tcm : BitVec 32) (s : CardSg) (b : Seg) : SgList where
  hadd := BitVec.ofNat 32 b.addr
  cadd := s.cardoff
  count := BitVec.ofNat 32 (b.len / 4) ||| tcm
  next := BitVec.ofNat 32 (s.next + sglistSize)
  hadd_high := BitVec.ofNat 32 (b.addr >>> 32)
  next_high := BitVec.ofNat 32 ((s.next + sglistSize) >>> 32)

/-- A block that starts a descriptor of its own. -/
def cardsgNew (tcm : BitVec 32) (s : CardSg) (b : Seg) : CardSg where
  paddr := ulong (b.addr + b.len)
  tsize := ulong b.len
  cardoff := s.cardoff + BitVec.ofNat 32 b.len
  next := s.next + sglistSize
  done := s.done ++ s.plist.toList
  plist := some (cardsgFill tcm s b)

/-- A block merged into the descriptor before it. -/
def cardsgMerge (s : CardSg) (plist : SgList) (b : Seg) : CardSg :=
  { s with
    tsize := ulong (s.tsize + b.len)
    paddr := ulong (s.paddr + b.len)
    cardoff := s.cardoff + BitVec.ofNat 32 b.len
    plist := some { plist with count := plist.count + BitVec.ofNat 32 (b.len / 4) } }

/-- One round of the loop of `aja_dma_cardsg`. -/
def cardsgStep (merge : Bool) (tcm : BitVec 32) (s : CardSg) (b : Seg) : CardSg :=
  match s.plist with
  | none => cardsgNew tcm s b
  | some plist =>
    if merge = true ∧ s.tsize < maxDmaSize ∧ s.paddr = b.addr then cardsgMerge s plist b
      else cardsgNew tcm s b

/-- The flags of a descriptor's count. -/
def tcmOf (dir : PciDir) (dma64 : Bool) : BitVec 32 :=
  (if dir = .fromDevice then 0x80000000 else 0) ||| if dma64 then 0x10000000 else 0

/-- The end of `aja_dma_cardsg`: the last descriptor has no next one. -/
def cardsgEnd (s : CardSg) : List SgList :=
  match s.plist with
  | none => s.done
  | some plist => s.done ++ [{ plist with next := 0, next_high := 0 }]

/-- `aja_dma_cardsg`. -/
def dmaCardsg (M : ModParams) (dir : PciDir) (cardoff : BitVec 32) (dma64 : Bool) (list_pac : ℕ)
    (sgl : List Seg) :
    List SgList :=
  cardsgEnd (sgl.foldl (cardsgStep M.dma_merge (tcmOf dir dma64))
    ⟨0, 0, cardoff, list_pac, [], none⟩)

/-- `aja_dma_init`. -/
def dmaInit (M : ModParams) (k : Kernel) (dma64 : Bool) (dir : BitVec 32) (data : ℕ)
    (cardoff : BitVec 32) (size : ℕ) :
    Except ℤ Dma :=
  let fpage := data / pageSize
  let lpage := ulong (data + size + (2 ^ 64 - 1)) / pageSize
  let count := wrap (lpage - fpage + 1)
  let dir := if dir = ajaDmatocard then PciDir.toDevice else PciDir.fromDevice
  if !k.buffers then .error (-ENOMEM)
  else if data = 0 then .error (-EFAULT)
  else if size < 8 then .error (-ERANGE)
  else if ulong (data + size) < data then .error (-EOVERFLOW)
  else
    match dmaGetpages M k data count with
    | .error err => .error err
    | .ok pages =>
      match dmaMapsg k pages data size count.toNat with
      | .error err => .error err
      | .ok sgl => .ok ⟨dir, count.toNat, pages, sgl, dmaCardsg M dir cardoff dma64 k.list_pac sgl⟩

/-! ### A transfer -/

/-- The registers of a DMA engine. -/
structure DmaRegs where
  hadd : Register
  cadd : Register
  count : Register
  next : Register
  dmago : Register
  hadd_high : Register
  next_high : Register

/-- The registers `aja_card_create` gives the engines. -/
def dmaRegs : Fin 3 → DmaRegs
  | 0 => ⟨dma1hadd, dma1cadd, dma1count, dma1next, dma1go, dma1hadd_high, dma1next_high⟩
  | 1 => ⟨dma2hadd, dma2cadd, dma2count, dma2next, dma2go, dma2hadd_high, dma2next_high⟩
  | 2 => ⟨dma3hadd, dma3cadd, dma3count, dma3next, dma3go, dma3hadd_high, dma3next_high⟩

/-- What a transfer does, one action at a time. -/
inductive DmaAct
  | prset (preg : Register) (value : BitVec 32)
  /-- `wait_event_interruptible_timeout` returns. -/
  | wait (w : ℤ)
  | unmapSg
  | setPageDirty (page : ℕ)
  | release (page : ℕ)
  deriving DecidableEq

/-- `aja_dma_cleanup`. -/
def dmaCleanup (k : Kernel) (d : Dma) : List DmaAct :=
  .unmapSg :: (List.range d.count).flatMap fun i =>
    let p := d.pages i
    (if d.dir = .fromDevice ∧ !k.reserved p then [.setPageDirty p] else []) ++ [.release p]

/-- The first descriptor, loaded into the engine's registers. -/
def dmaLoad (r : DmaRegs) (dma64 : Bool) (l : SgList) : List DmaAct :=
  [.prset r.hadd l.hadd, .prset r.cadd l.cadd, .prset r.count l.count, .prset r.next l.next] ++
    if dma64 then [.prset r.hadd_high l.hadd_high, .prset r.next_high l.next_high] else []

/-- A transfer up to the end of the wait, which returns `w`. -/
def dmaStart (r : DmaRegs) (dma64 : Bool) (l : SgList) (w : ℤ) : List DmaAct :=
  dmaLoad r dma64 l ++ [.prset r.dmago 1, .wait w]

/-- The transfer of `aja_dma` on an engine, from the first register on. -/
def dmaTransfer (k : Kernel) (r : DmaRegs) (dma64 : Bool) (d : Dma) (l : SgList) (w : ℤ) :
    ℤ × List DmaAct :=
  if w = 0 then (-ETIMEDOUT, dmaStart r dma64 l w ++ .prset r.dmago 0 :: dmaCleanup k d)
  else (0, dmaStart r dma64 l w ++ dmaCleanup k d)

/-- The first engine whose mutex is free. -/
def dmaEngine (busy : Fin 3 → Bool) : Option (Fin 3) := [0, 1, 2].find? fun i => !busy i

/-- `aja_dma`: the result, and what it did to the card and to the buffer. -/
def dma (M : ModParams) (k : Kernel) (dma64 : Bool) (busy : Fin 3 → Bool) (info : DmaInfo) (w : ℤ) :
    ℤ × List DmaAct :=
  match dmaEngine busy with
  | none => (-EBUSY, [])
  | some i =>
    match dmaInit M k dma64 info.dir info.uadd.toNat info.cadd info.len.toNat with
    | .error err => (err, [])
    | .ok d => dmaTransfer k (dmaRegs i) dma64 d (d.list.headD default) w

end AjaDriver
