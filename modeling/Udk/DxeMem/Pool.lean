import Udk.DxeMem.Page

/-!
# Pool of the DXE core

`CoreInternalAllocatePool`.  The pool of a memory type has free blocks of thirteen sizes; larger
requests get pages.  The size of a request is aligned and gets a head and a tail in `UINTN`
arithmetic, after it has been compared with `MAX_POOL_SIZE`.
-/

namespace Udk
namespace DxeMem

/-- The processors, with what their builds fix. -/
inductive Architecture
  | ia32
  | x64
  | ipf
  | aarch64

/-- The build for a processor. -/
def Architecture.build (dxeCoreImageHandle : Gcd.EfiHandle) : Architecture → Build
  | .ia32 => ⟨32, pageSize, pageSize, 73, dxeCoreImageHandle⟩
  | .x64 => ⟨64, pageSize, pageSize, 64, dxeCoreImageHandle⟩
  | .ipf => ⟨64, 2 * pageSize, 2 * pageSize, 128, dxeCoreImageHandle⟩
  | .aarch64 => ⟨64, pageSize, 0x10000, 64, dxeCoreImageHandle⟩

section Sizes

variable (b : Build)

/-- `sizeof (UINTN)` -/
def sizeofUintn : Nat := b.width / 8

/-- `SIZE_OF_POOL_HEAD` -/
def sizeofPoolHead : Nat := if b.width = 32 then 16 else 24

/-- `sizeof (POOL_TAIL)` -/
def sizeofPoolTail : Nat := if b.width = 32 then 12 else 16

/-- `sizeof (POOL)` -/
def sizeofPool : Nat := if b.width = 32 then 124 else 248

/-- `POOL_OVERHEAD` -/
def poolOverhead : Nat := sizeofPoolHead b + sizeofPoolTail b

/-- `MAX_POOL_SIZE` -/
def maxPoolSize : Nat := 2 ^ b.width - 1 - poolOverhead b

/-- `mPoolSizeTable` -/
def poolSizeTable : List Nat :=
  [64, 128, 192, 320, 512, 832, 1344, 2176, 3520, 5696, 9216, 14912, 24128]

/-- `GetPoolIndexFromSize` -/
def getPoolIndexFromSize (size : Nat) : Nat :=
  poolSizeTable.findIdx fun entry => decide (entry ≥ size)

/-- `LIST_TO_SIZE` -/
def listToSize (index : Nat) : Nat := poolSizeTable.getD index 0

/-- `ALIGN_VARIABLE` -/
def alignVariable (size : Nat) : Nat :=
  (size + (sizeofUintn b + 2 ^ b.width - size) % 2 ^ b.width % sizeofUintn b) % 2 ^ b.width

/-- The unit in which the pool of a type gets pages. -/
def granularity (poolType : MemoryType) : Nat :=
  if isRuntimeAligned poolType then b.runtimeAlignment else b.defaultPageAllocation

end Sizes

/-- `POOL`, with the addresses of the free blocks of each list. -/
structure Pool where
  memoryType : MemoryType
  used : Nat
  freeList : Nat → List Nat

/-- The pages, `mPoolHead` and `mPoolHeadList`. -/
structure PoolState where
  pages : PageState
  poolHead : MemoryType → Pool
  poolHeadList : List Pool

/-- An allocation: the address of the `POOL_HEAD`, the bytes of the block or pages that start
there, and the size in the head and the tail. -/
structure Allocation where
  head : Nat
  bytes : Nat
  size : Nat
  deriving DecidableEq, Repr

section Allocate

variable (b : Build) (turns : Nat)

/-- The pool with other blocks in a list. -/
def Pool.setList (pool : Pool) (index : Nat) (blocks : List Nat) : Pool :=
  { pool with freeList := fun i => if i = index then blocks else pool.freeList i }

/-- Carve up what is left of a block or a page, from the list below `index` on.  What is left is a
multiple of the smallest size. -/
def carve (newPage maxOffset : Nat) : Nat → Nat → Pool → Pool
  | 0, _, pool => pool
  | index + 1, offset, pool =>
      let fSize := listToSize index
      let count := (maxOffset - offset) / fSize
      carve newPage maxOffset index (offset + count * fSize)
        (pool.setList index
          ((List.range count).reverse.map (fun i => newPage + offset + i * fSize) ++
            pool.freeList index))

/-- A block from the lists of a pool, or from new pages. -/
def allocateBlock (poolType : MemoryType) (size : Nat) (pool : Pool) (s : PageState) :
    Except Stuck (Option Allocation × Pool × PageState) :=
  let limit := getPoolIndexFromSize (granularity b poolType)
  let index := getPoolIndexFromSize size
  if index ≥ limit then
    let noPages := roundPages b (granularity b poolType) (sizeToPages size)
    match coreAllocatePoolPages b turns poolType noPages (granularity b poolType) s with
    | .error stuck => .error stuck
    | .ok (head, s) =>
        .ok (if head = 0 then none else some ⟨head, pagesToBytes noPages, size⟩, pool, s)
  else
    match pool.freeList index with
    | head :: rest =>
        .ok (some ⟨head, listToSize index, size⟩, pool.setList index rest, s)
    | [] =>
        -- a larger block, or new pages
        match (List.range limit).find? fun i => decide (index < i ∧ pool.freeList i ≠ []) with
        | some larger =>
            let head := (pool.freeList larger).headD 0
            .ok (some ⟨head, listToSize index, size⟩,
              carve head (listToSize larger) larger (listToSize index)
                (pool.setList larger (pool.freeList larger).tail), s)
        | none =>
            match coreAllocatePoolPages b turns poolType (sizeToPages (granularity b poolType))
                (granularity b poolType) s with
            | .error stuck => .error stuck
            | .ok (head, s) =>
                if head = 0 then .ok (none, pool, s)
                else
                  .ok (some ⟨head, listToSize index, size⟩,
                    carve head (granularity b poolType) limit (listToSize index) pool, s)

/-- The account of an allocation. -/
def account (allocation : Option Allocation) (pool : Pool) : Pool :=
  match allocation with
  | some a => { pool with used := (pool.used + a.size) % 2 ^ b.width }
  | none => pool

/-- The size with the overhead. -/
def blockSize (size : Nat) : Nat := (alignVariable b size + poolOverhead b) % 2 ^ b.width

/-- `CoreAllocatePoolI` for a type below `EfiMaxMemoryType`. -/
def allocateKnown (poolType : MemoryType) (size : Nat) (s : PoolState) :
    Except Stuck (Option Allocation × PoolState) :=
  match allocateBlock b turns poolType (blockSize b size) (s.poolHead poolType) s.pages with
  | .error stuck => .error stuck
  | .ok (allocation, pool, pages) =>
      .ok (allocation,
        { s with
          pages := pages
          poolHead := fun t => if t = poolType then account b allocation pool else s.poolHead t })

/-- `LookupPoolHead` for a type reserved for OEMs and OS loaders. -/
def lookupPoolHead (poolType : MemoryType) (s : PoolState) :
    Except Stuck (Option Pool × PoolState) :=
  match s.poolHeadList.find? fun pool => pool.memoryType == poolType with
  | some pool => .ok (some pool, s)
  | none =>
      match allocateKnown b turns efiBootServicesData (sizeofPool b) s with
      | .error stuck => .error stuck
      | .ok (none, s) => .ok (none, s)
      | .ok (some _, s) =>
          let pool := ⟨poolType, 0, fun _ => []⟩
          .ok (some pool, { s with poolHeadList := pool :: s.poolHeadList })

/-- `CoreAllocatePoolI` -/
def coreAllocatePoolI (poolType : MemoryType) (size : Nat) (s : PoolState) :
    Except Stuck (Option Allocation × PoolState) :=
  if poolType < efiMaxMemoryType then allocateKnown b turns poolType size s
  else if poolType < 0x70000000 then .ok (none, s)
  else
    match lookupPoolHead b turns poolType s with
    | .error stuck => .error stuck
    | .ok (none, s) => .ok (none, s)
    | .ok (some pool, s) =>
        match allocateBlock b turns poolType (blockSize b size) pool s.pages with
        | .error stuck => .error stuck
        | .ok (allocation, pool, pages) =>
            .ok (allocation,
              { s with
                pages := pages
                poolHeadList := s.poolHeadList.map fun p =>
                  if p.memoryType = poolType then account b allocation pool else p })

/-- `CoreInternalAllocatePool`; `wanted` says that there is a place for the buffer. -/
def coreInternalAllocatePool (poolType : MemoryType) (size : Nat) (wanted : Bool) (s : PoolState) :
    Except Stuck (Status × Option Allocation × PoolState) :=
  if refusedType poolType ∨ wanted = false then .ok (.invalidParameter, none, s)
  else if size > maxPoolSize b then .ok (.outOfResources, none, s)
  else
    match coreAllocatePoolI b turns poolType size s with
    | .error stuck => .error stuck
    | .ok (none, s) => .ok (.outOfResources, none, s)
    | .ok (some allocation, s) => .ok (.success, some allocation, s)

end Allocate

section Property

variable (b : Build)

/-- `Head->Data`, from the head on. -/
def bufferOffset : Nat := sizeofPoolHead b

/-- `HEAD_TO_TAIL`, from the head on. -/
def tailOffset (a : Allocation) : Nat := (a.size + 2 ^ b.width - sizeofPoolTail b) % 2 ^ b.width

/-- The buffer has its bytes inside the block, and the tail lies behind them inside the block. -/
structure BigEnough (size : Nat) (a : Allocation) : Prop where
  buffer : bufferOffset b + size ≤ a.bytes
  tail : bufferOffset b + size ≤ tailOffset b a
  inside : tailOffset b a + sizeofPoolTail b ≤ a.bytes

/-- The size in a multiple of a unit. -/
def roundUp (unit size : Nat) : Nat := (size + (unit - 1)) / unit * unit

/-- The request with its overhead, in whole units of pages, can be expressed. -/
def Expressible (poolType : MemoryType) (size : Nat) : Prop :=
  roundUp (sizeofUintn b) size + poolOverhead b < 2 ^ b.width ∧
    roundUp (granularity b poolType) (roundUp (sizeofUintn b) size + poolOverhead b) < 2 ^ 64

end Property

section Sizes

variable {arch : Architecture} {handle : Gcd.EfiHandle} {poolType : MemoryType} {size : Nat}

theorem build_cases :
    ((arch.build handle).width = 32 ∧ granularity (arch.build handle) poolType = 4096) ∨
      ((arch.build handle).width = 64 ∧
        (granularity (arch.build handle) poolType = 4096 ∨
          granularity (arch.build handle) poolType = 8192 ∨
          granularity (arch.build handle) poolType = 65536)) := by
  unfold granularity
  cases arch with
  | ia32 => exact Or.inl ⟨rfl, by split <;> rfl⟩
  | x64 => exact Or.inr ⟨rfl, Or.inl (by split <;> rfl)⟩
  | ipf => exact Or.inr ⟨rfl, Or.inr (Or.inl (by split <;> rfl))⟩
  | aarch64 =>
      refine Or.inr ⟨rfl, ?_⟩
      split
      · exact Or.inr (Or.inr rfl)
      · exact Or.inl rfl

theorem alignVariable_eq
    (hsize : size < 2 ^ (arch.build handle).width) :
    alignVariable (arch.build handle) size =
      roundUp (sizeofUintn (arch.build handle)) size % 2 ^ (arch.build handle).width := by
  unfold alignVariable roundUp sizeofUintn
  rcases @build_cases arch handle 0 with ⟨hwidth, -⟩ | ⟨hwidth, -⟩
  all_goals
    rw [hwidth] at hsize ⊢
    omega

theorem blockSize_eq
    (hsize : size ≤ maxPoolSize (arch.build handle)) :
    blockSize (arch.build handle) size =
        (roundUp (sizeofUintn (arch.build handle)) size + poolOverhead (arch.build handle)) %
          2 ^ (arch.build handle).width ∧
      roundUp (sizeofUintn (arch.build handle)) size + poolOverhead (arch.build handle) ≤
        2 ^ (arch.build handle).width := by
  have hlt : size < 2 ^ (arch.build handle).width :=
    Nat.lt_of_le_of_lt (hsize.trans (Nat.sub_le _ _))
      (Nat.sub_lt (Nat.two_pow_pos _) Nat.one_pos)
  rw [blockSize, alignVariable_eq hlt, Nat.mod_add_mod]
  refine ⟨rfl, ?_⟩
  unfold maxPoolSize poolOverhead sizeofPoolHead sizeofPoolTail at *
  unfold roundUp sizeofUintn
  rcases @build_cases arch handle 0 with ⟨hwidth, -⟩ | ⟨hwidth, -⟩
  · rw [hwidth] at hsize ⊢
    simp only [if_true] at hsize ⊢
    omega
  · rw [hwidth] at hsize ⊢
    simp only [Nat.reduceEqDiff, if_false] at hsize ⊢
    omega

theorem le_roundUp
    {unit : Nat} (hunit : 0 < unit) :
    size ≤ roundUp unit size := by
  have h := Nat.div_add_mod (size + (unit - 1)) unit
  have hmod := Nat.mod_lt (size + (unit - 1)) hunit
  rw [roundUp, Nat.mul_comm]
  omega

theorem pagesToBytes_eq
    (hsize : size < 2 ^ (arch.build handle).width) :
    pagesToBytes (roundPages (arch.build handle) (granularity (arch.build handle) poolType)
        (sizeToPages size)) =
      roundUp (granularity (arch.build handle) poolType) size % 2 ^ 64 := by
  unfold pagesToBytes roundPages roundUp sizeToPages pageSize
  rcases @build_cases arch handle poolType with ⟨hwidth, hunit⟩ | ⟨hwidth, hunit | hunit | hunit⟩
  all_goals
    rw [hwidth] at hsize ⊢
    rw [hunit]
    simp only [ne_eq, Nat.reduceMod, not_true_eq_false, if_false, Nat.reduceDiv, Nat.add_zero]
    split
    · omega
    · omega

theorem le_listToSize
    (h : getPoolIndexFromSize size < poolSizeTable.length) :
    size ≤ listToSize (getPoolIndexFromSize size) := by
  have hfound := @List.findIdx_getElem Nat (fun entry => decide (entry ≥ size)) poolSizeTable h
  rw [listToSize, List.getD_eq_getElem?_getD, List.getElem?_eq_getElem h, Option.getD_some]
  exact of_decide_eq_true hfound

end Sizes

section Blocks

variable {arch : Architecture} {handle : Gcd.EfiHandle} {turns size : Nat}
variable {poolType : MemoryType} {pool pool' : Pool} {s s' : PageState} {a : Allocation}

/-- A block has the size of the request, and at least as many bytes where the pages for it can be
expressed. -/
theorem allocateBlock_bytes
    (h : allocateBlock (arch.build handle) turns poolType size pool s = .ok (some a, pool', s'))
    (hsize : size < 2 ^ (arch.build handle).width)
    (hpages : roundUp (granularity (arch.build handle) poolType) size < 2 ^ 64) :
    a.size = size ∧ size ≤ a.bytes := by
  have hunit : 0 < granularity (arch.build handle) poolType := by
    rcases @build_cases arch handle poolType with ⟨-, h⟩ | ⟨-, h | h | h⟩
    all_goals
      rw [h]
      decide
  have hlimit : getPoolIndexFromSize (granularity (arch.build handle) poolType) ≤
      poolSizeTable.length := List.findIdx_le_length
  unfold allocateBlock at h
  dsimp only at h
  split at h
  case isTrue =>
    split at h
    case h_1 => cases h
    case h_2 =>
      split at h
      case isTrue => cases h
      case isFalse =>
        cases h
        refine ⟨rfl, ?_⟩
        rw [pagesToBytes_eq hsize, Nat.mod_eq_of_lt hpages]
        exact le_roundUp hunit
  case isFalse hlist =>
    have hbytes : size ≤ listToSize (getPoolIndexFromSize size) := le_listToSize (by omega)
    split at h
    case h_1 =>
      cases h
      exact ⟨rfl, hbytes⟩
    case h_2 =>
      split at h
      case h_1 =>
        cases h
        exact ⟨rfl, hbytes⟩
      case h_2 =>
        split at h
        case h_1 => cases h
        case h_2 =>
          split at h
          case isTrue => cases h
          case isFalse =>
            cases h
            exact ⟨rfl, hbytes⟩

theorem coreAllocatePoolI_block
    {b : Build} {s s' : PoolState}
    (h : coreAllocatePoolI b turns poolType size s = .ok (some a, s')) :
    ∃ pool pool' pages pages',
      allocateBlock b turns poolType (blockSize b size) pool pages = .ok (some a, pool', pages') := by
  unfold coreAllocatePoolI at h
  split at h
  case isTrue =>
    unfold allocateKnown at h
    split at h
    case h_1 => cases h
    case h_2 allocation pool pages hblock =>
      cases h
      exact ⟨_, _, _, _, hblock⟩
  case isFalse =>
    split at h
    case isTrue => cases h
    case isFalse =>
      split at h
      case h_1 => cases h
      case h_2 => cases h
      case h_3 =>
        split at h
        case h_1 => cases h
        case h_2 allocation pool pages hblock =>
          cases h
          exact ⟨_, _, _, _, hblock⟩

/-- A request that can be expressed gets enough bytes. -/
theorem bigEnough_of_expressible
    {b : Build} {s s' : PoolState} {status : Status} {wanted : Bool}
    (hb : b = arch.build handle) (hexpressible : Expressible b poolType size)
    (h : coreInternalAllocatePool b turns poolType size wanted s = .ok (status, some a, s')) :
    BigEnough b size a := by
  subst hb
  unfold coreInternalAllocatePool at h
  split at h
  case isTrue => cases h
  case isFalse =>
    split at h
    case isTrue => cases h
    case isFalse hmax =>
      split at h
      case h_1 => cases h
      case h_2 => cases h
      case h_3 allocation s'' hallocate =>
        cases h
        obtain ⟨pool, pool', pages, pages', hblock⟩ := coreAllocatePoolI_block hallocate
        obtain ⟨heq, -⟩ := @blockSize_eq arch handle size (Nat.not_lt.mp hmax)
        rw [heq, Nat.mod_eq_of_lt hexpressible.1] at hblock
        obtain ⟨hsize, hbytes⟩ := allocateBlock_bytes hblock hexpressible.1 hexpressible.2
        have hle : size ≤ roundUp (sizeofUintn (arch.build handle)) size := by
          apply le_roundUp
          unfold sizeofUintn
          rcases @build_cases arch handle 0 with ⟨hwidth, -⟩ | ⟨hwidth, -⟩
          all_goals
            rw [hwidth]
            decide
        have htail : tailOffset (arch.build handle) a =
            sizeofPoolHead (arch.build handle) +
              roundUp (sizeofUintn (arch.build handle)) size := by
          have hlt := hexpressible.1
          rw [tailOffset, hsize]
          unfold poolOverhead at hlt ⊢
          generalize 2 ^ (arch.build handle).width = limit at *
          rw [Nat.add_comm _ limit, Nat.add_sub_assoc (by omega), Nat.add_mod_left,
            Nat.mod_eq_of_lt (by omega)]
          omega
        have hover : poolOverhead (arch.build handle) =
            sizeofPoolHead (arch.build handle) + sizeofPoolTail (arch.build handle) := rfl
        constructor
        case buffer =>
          rw [bufferOffset]
          omega
        case tail =>
          rw [bufferOffset, htail]
          omega
        case inside =>
          rw [htail]
          omega

end Blocks

section Unexpressible

variable {arch : Architecture} {handle : Gcd.EfiHandle} {poolType : MemoryType} {size : Nat}
  {b : Build}

/-- One free range. -/
def smallPages : PageState where
  memoryMap := [⟨⟨efiConventionalMemory, 0x10000, 0x1ffff, 0⟩, none⟩]
  mapDepth := 0
  freeEntries := 0
  memoryMapKey := 0
  statistics := fun _ => ⟨0, 2 ^ 64 - 1, 0, 0, efiMaxMemoryType, false, false⟩
  informationTypes := []
  informationPages := fun _ => 0
  defaultBaseAddress := 2 ^ 64 - 1
  defaultMaximumAddress := 2 ^ 64 - 1
  initialized := false
  gcdMap := []

/-- A pool with a free block of the smallest size. -/
def smallBlocks (poolType : MemoryType) : Pool where
  memoryType := poolType
  used := 0
  freeList := fun i => if i = 0 then [0x1000] else []

/-- The free range, and a free block of the smallest size in each pool. -/
def smallPool (poolType : MemoryType) : PoolState where
  pages := smallPages
  poolHead := smallBlocks
  poolHeadList := [smallBlocks poolType]

/-- A pool hands out what `allocateBlock` gives for its lists. -/
theorem smallPool_allocates
    {turns : Nat} {a : Allocation} {pool : Pool} {pages : PageState}
    (hblock : allocateBlock b turns poolType (blockSize b size) (smallBlocks poolType) smallPages =
      .ok (some a, pool, pages))
    (htype : ¬ refusedType poolType) (hmax : size ≤ maxPoolSize b) :
    ∃ s', coreInternalAllocatePool b turns poolType size true (smallPool poolType) =
      .ok (.success, some a, s') := by
  have hrefused : ¬ (refusedType poolType ∨ true = false) := by
    rintro (h | h)
    · exact htype h
    · cases h
  have hallocate : ∃ s', coreAllocatePoolI b turns poolType size (smallPool poolType) =
      .ok (some a, s') := by
    unfold coreAllocatePoolI
    by_cases hknown : poolType < efiMaxMemoryType
    · have hhead : allocateBlock b turns poolType (blockSize b size)
          ((smallPool poolType).poolHead poolType) (smallPool poolType).pages =
          .ok (some a, pool, pages) := hblock
      rw [if_pos hknown, allocateKnown, hhead]
      exact ⟨_, rfl⟩
    · have hoem : ¬ poolType < 0x70000000 := fun hlt =>
        htype (Or.inl ⟨Nat.not_lt.mp hknown, hlt⟩)
      have hlookup : lookupPoolHead b turns poolType (smallPool poolType) =
          .ok (some (smallBlocks poolType), smallPool poolType) := by
        have hfind : (smallPool poolType).poolHeadList.find?
            (fun pool => pool.memoryType == poolType) = some (smallBlocks poolType) :=
          List.find?_cons_of_pos (beq_self_eq_true poolType)
        rw [lookupPoolHead, hfind]
      have hlist : allocateBlock b turns poolType (blockSize b size) (smallBlocks poolType)
          (smallPool poolType).pages = .ok (some a, pool, pages) := hblock
      rw [if_neg hknown, if_neg hoem, hlookup]
      dsimp only
      rw [hlist]
      exact ⟨_, rfl⟩
  obtain ⟨s', hs'⟩ := hallocate
  refine ⟨s', ?_⟩
  rw [coreInternalAllocatePool, if_neg hrefused, if_neg (Nat.not_lt.mpr hmax), hs']

theorem smallPool_zero
    {turns : Nat} (hb : b = arch.build handle) :
    ∃ pool, allocateBlock b turns poolType 0 (smallBlocks poolType) smallPages =
      .ok (some ⟨0x1000, 64, 0⟩, pool, smallPages) := by
  subst hb
  have hindex : getPoolIndexFromSize 0 = 0 := by decide
  have hlimit : ¬ getPoolIndexFromSize 0 ≥
      getPoolIndexFromSize (granularity (arch.build handle) poolType) := by
    rcases @build_cases arch handle poolType with ⟨-, h⟩ | ⟨-, h | h | h⟩
    all_goals
      rw [h]
      decide
  rw [allocateBlock]
  dsimp only
  rw [if_neg hlimit, hindex]
  exact ⟨_, rfl⟩

/-- The search for a number of pages with a size of zero returns the end of the free range. -/
theorem smallPages_end
    (hb : b = arch.build handle) (hwidth : b.width = 64) :
    ∃ pages, coreAllocatePoolPages b 1 poolType (2 ^ 52) (granularity b poolType) smallPages =
      .ok (0x20000, pages) := by
  subst hb
  have hfind : coreFindFreePagesI 64 (smallPages.memoryMap.map Node.toMapEntry) (2 ^ 64 - 1) 0
      (2 ^ 52) (granularity (arch.build handle) poolType) = 0x20000 := by
    rcases @build_cases arch handle poolType with ⟨hw, -⟩ | ⟨-, h | h | h⟩
    · rw [hwidth] at hw
      exact absurd hw (by decide)
    all_goals
      rw [h]
      decide +kernel
  have hsearch : ∃ pages, searchBins (arch.build handle) (2 ^ 64 - 1) (2 ^ 52) poolType
      (granularity (arch.build handle) poolType) smallPages = (0x20000, pages) := by
    unfold searchBins
    rw [hwidth]
    by_cases hknown : poolType < efiMaxMemoryType
    · refine ⟨smallPages, ?_⟩
      have hbin : (if poolType < efiMaxMemoryType ∧
          2 ^ 64 - 1 ≥ (smallPages.statistics poolType).maximumAddress then
          coreFindFreePagesI 64 (smallPages.memoryMap.map Node.toMapEntry)
            (smallPages.statistics poolType).maximumAddress
            (smallPages.statistics poolType).baseAddress (2 ^ 52)
            (granularity (arch.build handle) poolType) else 0) = 0x20000 := by
        rw [if_pos ⟨hknown, Nat.le_refl _⟩]
        exact hfind
      dsimp only
      rw [hbin, if_pos (by decide)]
    · have hbin : ∀ found, (if poolType < efiMaxMemoryType ∧
          2 ^ 64 - 1 ≥ (smallPages.statistics poolType).maximumAddress then found else 0) = 0 :=
        fun found => if_neg fun h => hknown h.1
      have hdefault : (if 2 ^ 64 - 1 ≥ smallPages.defaultMaximumAddress then
          coreFindFreePagesI 64 (smallPages.memoryMap.map Node.toMapEntry)
            smallPages.defaultMaximumAddress 0 (2 ^ 52)
            (granularity (arch.build handle) poolType) else 0) = 0x20000 := by
        have hle : 2 ^ 64 - 1 ≥ smallPages.defaultMaximumAddress := Nat.le_refl _
        rw [if_pos hle]
        exact hfind
      dsimp only
      rw [hbin, if_neg (by decide), hdefault, if_pos (by decide)]
      exact ⟨_, rfl⟩
  obtain ⟨pages, hpages⟩ := hsearch
  refine ⟨pages, ?_⟩
  rw [coreAllocatePoolPages, allocatePoolPages, findFreePages, hwidth, hpages]
  rfl

/-- A block whose pages have a size of zero. -/
theorem smallPages_unexpressible
    (hb : b = arch.build handle) (hlt : size < 2 ^ b.width)
    (hlarge : ¬ roundUp (granularity b poolType) size < 2 ^ 64) :
    ∃ pages, allocateBlock b 1 poolType size (smallBlocks poolType) smallPages =
      .ok (some ⟨0x20000, 0, size⟩, smallBlocks poolType, pages) := by
  subst hb
  have hwidth : (arch.build handle).width = 64 := by
    rcases @build_cases arch handle poolType with ⟨hw, hunit⟩ | ⟨hw, -⟩
    · unfold roundUp at hlarge
      rw [hw] at hlt
      rw [hunit] at hlarge
      omega
    · exact hw
  have hpages : roundPages (arch.build handle) (granularity (arch.build handle) poolType)
      (sizeToPages size) = 2 ^ 52 ∧ 24128 < size := by
    unfold roundUp at hlarge
    unfold roundPages sizeToPages pageSize
    rw [hwidth] at hlt ⊢
    rcases @build_cases arch handle poolType with ⟨hw, hunit⟩ | ⟨hw, hunit | hunit | hunit⟩
    · rw [hwidth] at hw
      exact absurd hw (by decide)
    all_goals
      rw [hunit] at hlarge ⊢
      simp only [ne_eq, Nat.reduceMod, not_true_eq_false, if_false, Nat.reduceDiv, Nat.add_zero]
      split
      · omega
      · omega
  obtain ⟨hpages, hsize⟩ := hpages
  have hindex : getPoolIndexFromSize size = poolSizeTable.length := by
    rw [getPoolIndexFromSize, List.findIdx_eq_length]
    intro entry hentry
    have hbound : ∀ x ∈ poolSizeTable, x ≤ 24128 := by decide
    have hle := hbound entry hentry
    exact decide_eq_false (by omega)
  have hlimit : getPoolIndexFromSize size ≥
      getPoolIndexFromSize (granularity (arch.build handle) poolType) := by
    rw [hindex]
    exact List.findIdx_le_length
  obtain ⟨pages, hallocate⟩ := @smallPages_end arch handle poolType _ rfl hwidth
  refine ⟨pages, ?_⟩
  rw [allocateBlock]
  dsimp only
  rw [if_pos hlimit, hpages, hallocate]
  rfl

end Unexpressible

section Result

variable {arch : Architecture} {handle : Gcd.EfiHandle} {poolType : MemoryType} {size : Nat}

theorem roundUp_large
    (hzero : roundUp (sizeofUintn (arch.build handle)) size + poolOverhead (arch.build handle) =
      2 ^ (arch.build handle).width) :
    64 < size := by
  unfold roundUp sizeofUintn poolOverhead sizeofPoolHead sizeofPoolTail at hzero
  rcases @build_cases arch handle 0 with ⟨hwidth, -⟩ | ⟨hwidth, -⟩
  · rw [hwidth] at hzero
    simp only [if_true] at hzero
    omega
  · rw [hwidth] at hzero
    simp only [Nat.reduceEqDiff, if_false] at hzero
    omega

/-- Every successful allocation of a size is big enough exactly where the request with its overhead
can be expressed. -/
theorem coreInternalAllocatePool_bigEnough_iff
    (arch : Architecture) (handle : Gcd.EfiHandle) (poolType : MemoryType) (size : Nat) :
    (∀ turns wanted s status a s',
      coreInternalAllocatePool (arch.build handle) turns poolType size wanted s =
        .ok (status, some a, s') → BigEnough (arch.build handle) size a) ↔
      refusedType poolType ∨ maxPoolSize (arch.build handle) < size ∨
        Expressible (arch.build handle) poolType size := by
  constructor
  · intro hall
    by_contra hnot
    obtain ⟨htype, hmax, hexpressible⟩ := not_or.mp hnot |>.imp_right not_or.mp
    rw [Nat.not_lt] at hmax
    obtain ⟨heq, hle⟩ := @blockSize_eq arch handle size hmax
    rcases Nat.lt_or_eq_of_le hle with hlt | hzero
    · have hlarge := fun h => hexpressible ⟨hlt, h⟩
      rw [Nat.mod_eq_of_lt hlt] at heq
      rw [← heq] at hlt hlarge
      obtain ⟨pages, hblock⟩ := @smallPages_unexpressible arch handle poolType _ _ rfl hlt hlarge
      obtain ⟨s', hs'⟩ := smallPool_allocates hblock htype hmax
      have hbig := (hall _ _ _ _ _ _ hs').buffer
      unfold bufferOffset sizeofPoolHead at hbig
      split at hbig
      all_goals
        dsimp only at hbig
        omega
    · rw [hzero, Nat.mod_self] at heq
      obtain ⟨pool, hblock⟩ := @smallPool_zero arch handle poolType _ 0 rfl
      rw [← heq] at hblock
      obtain ⟨s', hs'⟩ := smallPool_allocates hblock htype hmax
      have hbig := (hall _ _ _ _ _ _ hs').buffer
      have hlarge := roundUp_large hzero
      unfold bufferOffset sizeofPoolHead at hbig
      split at hbig
      all_goals
        dsimp only at hbig
        omega
  · rintro (htype | hmax | hexpressible) turns wanted s status a s' h
    · rw [coreInternalAllocatePool, if_pos (Or.inl htype)] at h
      cases h
    · unfold coreInternalAllocatePool at h
      split at h
      · cases h
      · cases h
    · exact bigEnough_of_expressible rfl hexpressible h

/-- The largest size that is not refused gets a block of 64 bytes, and its tail is written in front
of the head. -/
theorem coreInternalAllocatePool_small :
    (coreInternalAllocatePool (Architecture.x64.build 0) 0 efiBootServicesData (2 ^ 64 - 41) true
        (smallPool efiBootServicesData)).map (fun r => (r.1, r.2.1)) =
      .ok (.success, some ⟨0x1000, 64, 0⟩) ∧
    ¬ BigEnough (Architecture.x64.build 0) (2 ^ 64 - 41) ⟨0x1000, 64, 0⟩ ∧
    tailOffset (Architecture.x64.build 0) ⟨0x1000, 64, 0⟩ = 2 ^ 64 - 16 := by
  refine ⟨by decide +kernel, fun h => ?_, by decide +kernel⟩
  have hbuffer : 24 + (2 ^ 64 - 41) ≤ 64 := h.buffer
  omega

end Result

end DxeMem
end Udk
