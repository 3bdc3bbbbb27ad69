import Udk.Gcd.Services
import Udk.PropertiesTable.MemoryMap

/-!
# Pages of the DXE core

`Page.c`.  `UINTN` has the number of bits of the processor; addresses and page counts are `UINT64`.
-/

namespace Udk
namespace DxeMem

open PropertiesTable (add64 sub64)

/-- `EFI_MEMORY_TYPE` -/
abbrev MemoryType := Nat

def efiBootServicesData : MemoryType := 4
def efiRuntimeServicesCode : MemoryType := 5
def efiRuntimeServicesData : MemoryType := 6
def efiConventionalMemory : MemoryType := 7
def efiACPIReclaimMemory : MemoryType := 9
def efiACPIMemoryNVS : MemoryType := 10
def efiPersistentMemory : MemoryType := 14
def efiMaxMemoryType : MemoryType := 15

/-- `MEMORY_MAP`, with `End` as `endAddress` and `Attribute` as `attributes`. -/
structure MapEntry where
  memoryType : MemoryType
  start : Nat
  endAddress : Nat
  attributes : Nat
  deriving DecidableEq, Repr

/-- `EFI_PAGE_SIZE` -/
def pageSize : Nat := 4096

/-- `LShiftU64 (NumberOfPages, EFI_PAGE_SHIFT)` -/
def pagesToBytes (numberOfPages : Nat) : Nat := numberOfPages * pageSize % 2 ^ 64

section FindFreePages

variable (width : Nat)

/-- `MaxAddress` at the end of a page. -/
def pageEnd (maxAddress : Nat) : Nat :=
  if maxAddress % pageSize ≠ pageSize - 1 then
    sub64 maxAddress pageSize / pageSize * pageSize + (pageSize - 1)
  else maxAddress

/-- `((DescEnd + 1) & (~(Alignment - 1))) - 1`.  The mask is a `UINTN`. -/
def alignEnd (alignment descEnd : Nat) : Nat :=
  sub64 (add64 descEnd 1 &&& (2 ^ width - 1 - (alignment - 1))) 1

/-- The end of the pages that an entry offers, if it is considered at all. -/
def suitableEnd (maxAddress minAddress numberOfBytes alignment : Nat) (entry : MapEntry) :
    Option Nat :=
  if entry.memoryType ≠ efiConventionalMemory then none
  else if entry.start ≥ maxAddress ∨ entry.endAddress < minAddress then none
  else
    let descEnd := alignEnd width alignment
      (if entry.endAddress ≥ maxAddress then maxAddress else entry.endAddress)
    if descEnd < entry.start then none
    else if add64 (sub64 descEnd entry.start) 1 < numberOfBytes then none
    else if add64 (sub64 descEnd numberOfBytes) 1 < minAddress then none
    else some descEnd

/-- The loop of `CoreFindFreePagesI`. -/
def findFreeLoop (maxAddress minAddress numberOfBytes alignment : Nat) :
    List MapEntry → Nat → Nat
  | [], target => target
  | entry :: rest, target =>
      match suitableEnd width maxAddress minAddress numberOfBytes alignment entry with
      | none => findFreeLoop maxAddress minAddress numberOfBytes alignment rest target
      | some descEnd =>
          findFreeLoop maxAddress minAddress numberOfBytes alignment rest
            (if descEnd > target then descEnd else target)

/-- `CoreFindFreePagesI` -/
def coreFindFreePagesI (memoryMap : List MapEntry)
    (maxAddress minAddress numberOfPages alignment : Nat) : Nat :=
  if maxAddress < pageSize - 1 ∨ numberOfPages = 0 then 0
  else
    let numberOfBytes := pagesToBytes numberOfPages
    let target := sub64
      (findFreeLoop width (pageEnd maxAddress) minAddress numberOfBytes alignment memoryMap 0)
      (sub64 numberOfBytes 1)
    if target % pageSize ≠ 0 then 0 else target

end FindFreePages

/-- A descriptor on `gMemoryMap`: one on `mMapStack` has its place there as `slot`, the others have
`FromPages`. -/
structure Node extends MapEntry where
  slot : Option Nat
  deriving DecidableEq, Repr

/-- `EFI_MEMORY_TYPE_STATISTICS` -/
structure TypeStatistics where
  baseAddress : Nat
  maximumAddress : Nat
  currentNumberOfPages : Nat
  numberOfPages : Nat
  informationIndex : Nat
  special : Bool
  runtime : Bool
  deriving DecidableEq, Repr

/-- What the build fixes: the width of `UINTN`, `DEFAULT_PAGE_ALLOCATION`,
`EFI_ACPI_RUNTIME_PAGE_ALLOCATION_ALIGNMENT`, the number of `MEMORY_MAP`s in a
`DEFAULT_PAGE_ALLOCATION`, and `gDxeCoreImageHandle`. -/
structure Build where
  width : Nat
  defaultPageAllocation : Nat
  runtimeAlignment : Nat
  descriptorsPerAllocation : Nat
  dxeCoreImageHandle : Gcd.EfiHandle

/-- The variables of `Page.c` and `mGcdMemorySpaceMap`; of `mFreeMemoryMapEntryList` the number of
its entries, and of `gMemoryTypeInformation` the types and the numbers of pages. -/
structure PageState where
  memoryMap : List Node
  mapDepth : Nat
  freeEntries : Nat
  memoryMapKey : Nat
  statistics : MemoryType → TypeStatistics
  informationTypes : List MemoryType
  informationPages : Nat → Nat
  defaultBaseAddress : Nat
  defaultMaximumAddress : Nat
  initialized : Bool
  gcdMap : Gcd.GcdMap

/-- Why a call does not return: the turns that it is given are used up, or it writes to the
descriptor that `AllocateMemoryMapEntry` did not get. -/
inductive Stuck
  | turns
  | noDescriptor
  deriving DecidableEq, Repr

/-- The statuses of the page services. -/
inductive Status
  | success
  | invalidParameter
  | notFound
  | outOfResources
  deriving DecidableEq, Repr

section Ranges

variable (memoryType attributes : Nat)

/-- The loop of `CoreAddRange`: the range with what adjoins it, the entries that stay, and the
number of entries given back to `mFreeMemoryMapEntryList`. -/
def mergeAdjoining : List Node → Nat → Nat → Nat × Nat × List Node × Nat
  | [], start, endAddress => (start, endAddress, [], 0)
  | entry :: rest, start, endAddress =>
      let freed := if entry.slot = none then 1 else 0
      if entry.memoryType = memoryType ∧ entry.attributes = attributes ∧
          add64 entry.endAddress 1 = start then
        let merged := mergeAdjoining rest entry.start endAddress
        (merged.1, merged.2.1, merged.2.2.1, merged.2.2.2 + freed)
      else if entry.memoryType = memoryType ∧ entry.attributes = attributes ∧
          entry.start = add64 endAddress 1 then
        let merged := mergeAdjoining rest start entry.endAddress
        (merged.1, merged.2.1, merged.2.2.1, merged.2.2.2 + freed)
      else
        let merged := mergeAdjoining rest start endAddress
        (merged.1, merged.2.1, entry :: merged.2.2.1, merged.2.2.2)

/-- `CoreAddRange`.  The new descriptor is on the stack. -/
def coreAddRange (s : PageState) (start endAddress : Nat) : PageState :=
  let merged := mergeAdjoining memoryType attributes s.memoryMap start endAddress
  { s with
    memoryMap := merged.2.2.1 ++
      [⟨⟨memoryType, merged.1, merged.2.1, attributes⟩, some s.mapDepth⟩]
    mapDepth := s.mapDepth + 1
    freeEntries := s.freeEntries + merged.2.2.2
    memoryMapKey := s.memoryMapKey + 1 }

end Ranges

/-- A conversion to a type or to attributes. -/
inductive Change
  | type (newType : MemoryType)
  | attributes (newAttributes : Nat)

section Counters

variable (s : PageState) (start : Nat) (type : MemoryType)

/-- The address is in the bin of a type or in the default bin. -/
def counted : Prop :=
  ((s.statistics type).baseAddress ≤ start ∧ start ≤ (s.statistics type).maximumAddress) ∨
    (s.defaultBaseAddress ≤ start ∧ start ≤ s.defaultMaximumAddress)

instance : Decidable (counted s start type) := inferInstanceAs (Decidable (_ ∨ _))

/-- A type gets another number of pages. -/
def setCurrent (pages : Nat) : PageState :=
  { s with
    statistics := fun t =>
      if t = type then { s.statistics t with currentNumberOfPages := pages } else s.statistics t }

/-- The pages that a type loses. -/
def uncount (numberOfPages : Nat) : PageState :=
  if type < efiMaxMemoryType ∧ counted s start type then
    setCurrent s type
      (if numberOfPages > (s.statistics type).currentNumberOfPages then 0
      else (s.statistics type).currentNumberOfPages - numberOfPages)
  else s

/-- The pages that a type gets, and the largest number of them. -/
def count (numberOfPages : Nat) : PageState :=
  if type < efiMaxMemoryType ∧ counted s start type then
    let pages := add64 (s.statistics type).currentNumberOfPages numberOfPages
    let index := (s.statistics type).informationIndex
    { setCurrent s type pages with
      informationPages := fun i =>
        if i = index ∧ pages > s.informationPages index then pages % 2 ^ 32
        else s.informationPages i }
  else s

end Counters

section Convert

variable (flush : PageState → Except Stuck PageState)

/-- The first descriptor on the list that covers an address, between the others. -/
def findCovering (start : Nat) : List Node → Option (List Node × Node × List Node)
  | [] => none
  | entry :: rest =>
      if entry.start ≤ start ∧ entry.endAddress > start then some ([], entry, rest)
      else (findCovering start rest).map fun found => (entry :: found.1, found.2.1, found.2.2)

/-- Pull a range out of a descriptor between the others. -/
def pullOut (s : PageState) (before : List Node) (entry : Node) (after : List Node)
    (start rangeEnd : Nat) : PageState :=
  if entry.start = start then
    if add64 rangeEnd 1 = add64 entry.endAddress 1 then
      { s with
        memoryMap := before ++ after
        freeEntries := s.freeEntries + if entry.slot = none then 1 else 0 }
    else { s with memoryMap := before ++ { entry with start := add64 rangeEnd 1 } :: after }
  else if entry.endAddress = rangeEnd then
    { s with memoryMap := before ++ { entry with endAddress := sub64 start 1 } :: after }
  else
    { s with
      memoryMap := before ++ { entry with endAddress := sub64 start 1 } :: after ++
        [⟨⟨entry.memoryType, add64 rangeEnd 1, entry.endAddress, entry.attributes⟩,
          some s.mapDepth⟩]
      mapDepth := s.mapDepth + 1 }

/-- A type may only change from or to conventional memory. -/
def compatible (change : Change) (entry : Node) : Prop :=
  match change with
  | .type newType => ¬ (newType = efiConventionalMemory ↔ entry.memoryType = efiConventionalMemory)
  | .attributes _ => True

instance (change : Change) (entry : Node) : Decidable (compatible change entry) :=
  match change with
  | .type newType => inferInstanceAs (Decidable (¬ (newType = _ ↔ entry.memoryType = _)))
  | .attributes _ => inferInstanceAs (Decidable True)

/-- The counters of the old type and of the new one. -/
def updateCounters (s : PageState) (numberOfPages start : Nat) (change : Change) (entry : Node) :
    PageState :=
  match change with
  | .type newType =>
      count (uncount s start entry.memoryType numberOfPages) start newType numberOfPages
  | .attributes _ => s

/-- The new range has the attributes or the type of the old one. -/
def addConverted (s : PageState) (change : Change) (entry : Node) (start rangeEnd : Nat) :
    PageState :=
  match change with
  | .type newType => coreAddRange newType entry.attributes s start rangeEnd
  | .attributes newAttributes => coreAddRange entry.memoryType newAttributes s start rangeEnd

/-- One turn of `CoreConvertPagesEx`: the end of the converted range, if there is one. -/
def convertRange (numberOfPages : Nat) (change : Change) (start endAddress : Nat) (s : PageState) :
    Except Stuck (Option Nat × PageState) :=
  match findCovering start s.memoryMap with
  | none => .ok (none, s)
  | some (before, entry, after) =>
      let rangeEnd := if entry.endAddress < endAddress then entry.endAddress else endAddress
      if compatible change entry then
        (flush (addConverted
          (pullOut (updateCounters s numberOfPages start change entry) before entry after start
            rangeEnd)
          change entry start rangeEnd)).map fun s => (some rangeEnd, s)
      else .ok (none, s)

/-- The loop of `CoreConvertPagesEx`. -/
def convertLoop (numberOfPages : Nat) (change : Change) (endAddress : Nat) :
    Nat → Nat → PageState → Except Stuck (Status × PageState)
  | 0, _, _ => .error .turns
  | turns + 1, start, s =>
      if start < endAddress then
        match convertRange flush numberOfPages change start endAddress s with
        | .error stuck => .error stuck
        | .ok (none, s) => .ok (.notFound, s)
        | .ok (some rangeEnd, s) =>
            convertLoop numberOfPages change endAddress turns (add64 rangeEnd 1) s
      else .ok (.success, s)

/-- `CoreConvertPagesEx` -/
def coreConvertPagesEx (turns start numberOfPages : Nat) (change : Change) (s : PageState) :
    Except Stuck (Status × PageState) :=
  let numberOfBytes := pagesToBytes numberOfPages
  if numberOfPages = 0 ∨ start % pageSize ≠ 0 ∨ start > add64 start numberOfBytes then
    .ok (.invalidParameter, s)
  else
    convertLoop flush numberOfPages change (sub64 (add64 start numberOfBytes) 1) turns start s

end Convert

section Allocate

variable (b : Build) (flush : PageState → Except Stuck PageState)

/-- `EFI_MEMORY_PRESENT`, `EFI_MEMORY_INITIALIZED`, `EFI_MEMORY_TESTED` -/
def efiMemoryPresent : UInt64 := 0x0100000000000000
def efiMemoryInitialized : UInt64 := 0x0200000000000000
def efiMemoryTested : UInt64 := 0x0400000000000000
def efiMemoryMoreReliable : UInt64 := 0x10000

def efiGcdMemoryTypeReserved : UInt32 := 1
def efiGcdMemoryTypeSystemMemory : UInt32 := 2
def efiGcdMemoryTypeMoreReliable : UInt32 := 5

/-- An untested but initialized entry that `PromoteMemoryResource` takes. -/
def promotable (entry : Gcd.GcdMapEntry) : Prop :=
  entry.gcdMemoryType = efiGcdMemoryTypeReserved ∧ entry.endAddress.toNat < 2 ^ b.width - 1 ∧
    entry.capabilities &&& (efiMemoryPresent ||| efiMemoryInitialized ||| efiMemoryTested) =
      efiMemoryPresent ||| efiMemoryInitialized

instance (entry : Gcd.GcdMapEntry) : Decidable (promotable b entry) :=
  inferInstanceAs (Decidable (_ ∧ _ ∧ _))

/-- The promoted entry. -/
def promoteEntry (entry : Gcd.GcdMapEntry) : Gcd.GcdMapEntry :=
  { entry with
    gcdMemoryType :=
      if entry.capabilities &&& efiMemoryMoreReliable = efiMemoryMoreReliable then
        efiGcdMemoryTypeMoreReliable
      else efiGcdMemoryTypeSystemMemory
    capabilities := entry.capabilities ||| efiMemoryTested
    imageHandle := some b.dxeCoreImageHandle
    deviceHandle := none }

/-- The attributes of promoted memory. -/
def promotedAttributes (entry : Gcd.GcdMapEntry) : Nat :=
  ((promoteEntry b entry).capabilities &&& ~~~(efiMemoryPresent ||| efiMemoryInitialized |||
    efiMemoryTested ||| Gcd.efiMemoryRuntime)).toNat

/-- The loop of `PromoteMemoryResource` over the places in the GCD map from `index` on. -/
def promoteLoop : Nat → Nat → Bool → PageState → Except Stuck (Bool × PageState)
  | 0, _, promoted, s => .ok (promoted, s)
  | count + 1, index, promoted, s =>
      match s.gcdMap[index]? with
      | none => .ok (promoted, s)
      | some entry =>
          if promotable b entry then
            match flush (coreAddRange efiConventionalMemory (promotedAttributes b entry)
                { s with gcdMap := s.gcdMap.set index (promoteEntry b entry) }
                entry.baseAddress.toNat entry.endAddress.toNat) with
            | .error stuck => .error stuck
            | .ok s => promoteLoop count (index + 1) true s
          else promoteLoop count (index + 1) promoted s

/-- `PromoteMemoryResource` -/
def promoteMemoryResource (s : PageState) : Except Stuck (Bool × PageState) :=
  promoteLoop b flush s.gcdMap.length 0 false s

/-- The searches of `FindFreePages` in the bins and anywhere. -/
def searchBins (maxAddress noPages : Nat) (newType : MemoryType) (alignment : Nat)
    (s : PageState) : Nat × PageState :=
  let find := coreFindFreePagesI b.width (s.memoryMap.map Node.toMapEntry)
  let bin := s.statistics newType
  let inBin :=
    if newType < efiMaxMemoryType ∧ maxAddress ≥ bin.maximumAddress then
      find bin.maximumAddress bin.baseAddress noPages alignment
    else 0
  if inBin ≠ 0 then (inBin, s)
  else
    let inDefault :=
      if maxAddress ≥ s.defaultMaximumAddress then
        find s.defaultMaximumAddress 0 noPages alignment
      else 0
    if inDefault ≠ 0 then
      (inDefault,
        if inDefault < s.defaultBaseAddress then { s with defaultBaseAddress := inDefault } else s)
    else (find maxAddress 0 noPages alignment, s)

/-- `FindFreePages` -/
def findFreePages (maxAddress noPages : Nat) (newType : MemoryType) (alignment : Nat) :
    Nat → PageState → Except Stuck (Nat × PageState)
  | 0, _ => .error .turns
  | turns + 1, s =>
      let found := searchBins b maxAddress noPages newType alignment s
      if found.1 ≠ 0 then .ok found
      else
        match promoteMemoryResource b flush found.2 with
        | .error stuck => .error stuck
        | .ok (false, s) => .ok (0, s)
        | .ok (true, s) => findFreePages maxAddress noPages newType alignment turns s

/-- `CoreAllocatePoolPages`, with a null pointer as zero. -/
def allocatePoolPages (turns : Nat) (poolType : MemoryType) (numberOfPages alignment : Nat)
    (s : PageState) : Except Stuck (Nat × PageState) :=
  match findFreePages b flush (2 ^ b.width - 1) numberOfPages poolType alignment turns s with
  | .error stuck => .error stuck
  | .ok (start, s) =>
      if start = 0 then .ok (0, s)
      else
        (coreConvertPagesEx flush turns start numberOfPages (.type poolType) s).map
          fun converted => (start % 2 ^ b.width, converted.2)

end Allocate

section Flush

variable (b : Build) (turns : Nat)

/-- `EFI_SIZE_TO_PAGES` -/
def sizeToPages (size : Nat) : Nat :=
  size / pageSize + if size % pageSize ≠ 0 then 1 else 0

/-- `AllocateMemoryMapEntry`.  It is called while `mFreeMapStack` is not zero, where
`CoreFreeMemoryMapStack` returns at once. -/
def allocateMemoryMapEntry (s : PageState) : Except Stuck PageState :=
  if s.freeEntries = 0 then
    match allocatePoolPages b .ok turns efiBootServicesData (sizeToPages b.defaultPageAllocation)
        b.defaultPageAllocation s with
    | .error stuck => .error stuck
    | .ok (freeDescriptorEntries, s) =>
        if freeDescriptorEntries = 0 then .error .noDescriptor
        else .ok { s with freeEntries := s.freeEntries + b.descriptorsPerAllocation - 1 }
  else .ok { s with freeEntries := s.freeEntries - 1 }

/-- Insert a descriptor in front of the first one from pages with a higher start. -/
def insertFromPages (entry : Node) : List Node → List Node
  | [] => [entry]
  | entry2 :: rest =>
      if entry2.slot = none ∧ entry2.start > entry.start then entry :: entry2 :: rest
      else entry2 :: insertFromPages entry rest

/-- The descriptor at the top of the stack goes to a descriptor from pages. -/
def moveTop (s : PageState) : PageState :=
  let depth := s.mapDepth - 1
  match s.memoryMap.find? fun entry => entry.slot = some depth with
  | some entry =>
      { s with
        memoryMap := insertFromPages { entry with slot := none } (s.memoryMap.erase entry)
        mapDepth := depth }
  | none => { s with mapDepth := depth, freeEntries := s.freeEntries + 1 }

/-- The loop of `CoreFreeMemoryMapStack`. -/
def flushLoop : Nat → PageState → Except Stuck PageState
  | 0, _ => .error .turns
  | count + 1, s =>
      if s.mapDepth = 0 then .ok s
      else
        match allocateMemoryMapEntry b turns s with
        | .error stuck => .error stuck
        | .ok s => flushLoop count (moveTop s)

/-- `CoreFreeMemoryMapStack`, while the stack is not being freed already. -/
def coreFreeMemoryMapStack (s : PageState) : Except Stuck PageState :=
  flushLoop b turns turns s

end Flush

/-- `EFI_ALLOCATE_TYPE` -/
inductive AllocateType
  | anyPages
  | maxAddress
  | address
  | other
  deriving DecidableEq, Repr

section Services

variable (b : Build) (turns : Nat)

/-- The types with the alignment for the runtime. -/
def isRuntimeAligned (memoryType : MemoryType) : Bool :=
  memoryType == efiACPIReclaimMemory || memoryType == efiACPIMemoryNVS ||
    memoryType == efiRuntimeServicesCode || memoryType == efiRuntimeServicesData

/-- The alignment of the pages of a type. -/
def typeAlignment (memoryType : MemoryType) : Nat :=
  if isRuntimeAligned memoryType then b.runtimeAlignment else pageSize

/-- The number of pages as a multiple of the alignment, which is a power of two. -/
def roundPages (alignment numberOfPages : Nat) : Nat :=
  (numberOfPages + (sizeToPages alignment - 1)) % 2 ^ b.width / sizeToPages alignment *
    sizeToPages alignment

/-- Types that are neither below `EfiMaxMemoryType` nor reserved for OEMs and OS loaders, and
types that cannot be allocated. -/
def refusedType (memoryType : MemoryType) : Prop :=
  (efiMaxMemoryType ≤ memoryType ∧ memoryType < 0x70000000) ∨
    memoryType = efiConventionalMemory ∨ memoryType = efiPersistentMemory

instance (memoryType : MemoryType) : Decidable (refusedType memoryType) :=
  inferInstanceAs (Decidable (_ ∨ _))

/-- `CoreInternalAllocatePages`, with a null `Memory` as `none`. -/
def coreInternalAllocatePages (type : AllocateType) (memoryType : MemoryType)
    (numberOfPages : Nat) (memory : Option Nat) (s : PageState) :
    Except Stuck (Status × Option Nat × PageState) :=
  if type = .other ∨ refusedType memoryType then .ok (.invalidParameter, memory, s)
  else
    match memory with
    | none => .ok (.invalidParameter, none, s)
    | some start =>
        let alignment := typeAlignment b memoryType
        if type = .address ∧ start % alignment ≠ 0 then .ok (.notFound, memory, s)
        else
          let numberOfPages := roundPages b alignment numberOfPages
          let maxAddress := if type = .maxAddress then start else 2 ^ b.width - 1
          let found :=
            if type = .address then .ok (start, s)
            else
              findFreePages b (coreFreeMemoryMapStack b turns) maxAddress numberOfPages memoryType
                alignment turns s
          match found with
          | .error stuck => .error stuck
          | .ok (start, s) =>
              if type ≠ .address ∧ start = 0 then .ok (.outOfResources, memory, s)
              else
                match coreConvertPagesEx (coreFreeMemoryMapStack b turns) turns start numberOfPages
                    (.type memoryType) s with
                | .error stuck => .error stuck
                | .ok (.success, s) => .ok (.success, some start, s)
                | .ok (status, s) => .ok (status, memory, s)

/-- `CoreInternalFreePages` -/
def coreInternalFreePages (memory numberOfPages : Nat) (s : PageState) :
    Except Stuck (Status × PageState) :=
  match findCovering memory s.memoryMap with
  | none => .ok (.notFound, s)
  | some (_, entry, _) =>
      let alignment := typeAlignment b entry.memoryType
      if memory % alignment ≠ 0 then .ok (.invalidParameter, s)
      else
        coreConvertPagesEx (coreFreeMemoryMapStack b turns) turns memory
          (roundPages b alignment numberOfPages) (.type efiConventionalMemory) s

/-- `CoreUpdateMemoryAttributes` -/
def coreUpdateMemoryAttributes (start numberOfPages newAttributes : Nat) (s : PageState) :
    Except Stuck PageState :=
  (coreConvertPagesEx (coreFreeMemoryMapStack b turns) turns start numberOfPages
    (.attributes newAttributes) s).map Prod.snd

/-- `CoreAllocatePoolPages` and `CoreFreePoolPages` -/
def coreAllocatePoolPages (poolType : MemoryType) (numberOfPages alignment : Nat)
    (s : PageState) : Except Stuck (Nat × PageState) :=
  allocatePoolPages b (coreFreeMemoryMapStack b turns) turns poolType numberOfPages alignment s

def coreFreePoolPages (memory numberOfPages : Nat) (s : PageState) : Except Stuck PageState :=
  (coreConvertPagesEx (coreFreeMemoryMapStack b turns) turns memory numberOfPages
    (.type efiConventionalMemory) s).map Prod.snd

end Services

end DxeMem
end Udk
