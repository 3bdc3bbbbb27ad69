import Udk.PropertiesTable.MemoryMap

/-!
# SMRAM page services

`Page.c` of the SMM core.  A free node lives in the first of its pages, so that it is
named by its address; `mSmmMemoryMap` is the list of the nodes.  The places at which the
code would link a node behind itself have no list as a result.
-/

namespace Udk
namespace PiSmmCore

open PropertiesTable

/-- `TRUNCATE_TO_PAGES`. -/
def truncateToPages (a : Nat) : Nat :=
  a / efiPageSize

/-- `FREE_PAGE_LIST`, with the address of the node. -/
structure FreePageList where
  address : Nat
  numberOfPages : Nat
deriving DecidableEq

/-- The nodes on `mSmmMemoryMap`; none when its links form no list. -/
abbrev MemoryMap := Option (List FreePageList)

/-- `EFI_STATUS`, as far as the services return it. -/
inductive EfiStatus where
  | success
  | invalidParameter
  | outOfResources
  | notFound
deriving DecidableEq

/-- `EFI_ALLOCATE_TYPE`. -/
inductive EfiAllocateType where
  | allocateAnyPages
  | allocateMaxAddress
  | allocateAddress
  /-- A value that is none of the type. -/
  | other
deriving DecidableEq

/-- `EFI_ALLOCATED | EFI_NEEDS_TESTING | EFI_NEEDS_ECC_INITIALIZATION`. -/
def unusableRegion : UInt64 := 0x70

/-- The nodes that `InternalAllocPagesOnOneNode` leaves of a node. -/
def remainingNodes (pages : FreePageList) (top bottom : Nat) : MemoryMap :=
  if top < pages.numberOfPages ∧ efiPagesToSize top = 0 then
    -- `Node` is `Pages`: it is inserted behind itself
    none
  else
    some
      ((if bottom > 0 then [⟨pages.address, bottom⟩] else []) ++
        (if top < pages.numberOfPages then
          [⟨add64 pages.address (efiPagesToSize top), sub64 pages.numberOfPages top⟩]
        else []))

/-- `InternalAllocPagesOnOneNode`: the address, and the nodes in place of `pages`. -/
def internalAllocPagesOnOneNode (pages : FreePageList) (numberOfPages maxAddress : Nat) :
    Nat × MemoryMap :=
  let top := truncateToPages (sub64 (add64 maxAddress 1) pages.address)
  let top := if top > pages.numberOfPages then pages.numberOfPages else top
  let bottom := sub64 top numberOfPages
  (add64 pages.address (efiPagesToSize bottom), remainingNodes pages top bottom)

/-- `(UINTN)(-1)`. -/
def noAddress : Nat :=
  2 ^ 64 - 1

/-- `~Address`. -/
def complement (address : Nat) : Nat :=
  2 ^ 64 - 1 - address

/-- The list with other nodes in place of one. -/
def relink (before after : List FreePageList) (result : Nat × MemoryMap) : Nat × MemoryMap :=
  (result.1, result.2.map fun nodes => before ++ (nodes ++ after))

/-- The loop of `InternalAllocMaxAddress`, over the nodes from the last one on; `after`
are those it has passed. -/
def allocMaxAddressLoop (numberOfPages maxAddress : Nat) :
    List FreePageList → List FreePageList → Nat × MemoryMap
  | [], after => (noAddress, some after)
  | pages :: before, after =>
    if pages.numberOfPages ≥ numberOfPages ∧
        sub64 (add64 pages.address (efiPagesToSize numberOfPages)) 1 ≤ maxAddress then
      relink before.reverse after (internalAllocPagesOnOneNode pages numberOfPages maxAddress)
    else allocMaxAddressLoop numberOfPages maxAddress before (pages :: after)

/-- `InternalAllocMaxAddress`. -/
def internalAllocMaxAddress (freePageList : List FreePageList) (numberOfPages maxAddress : Nat) :
    Nat × MemoryMap :=
  allocMaxAddressLoop numberOfPages maxAddress freePageList.reverse []

/-- The loop of `InternalAllocAddress`, over the nodes from the last one on. -/
def allocAddressLoop (numberOfPages address endAddress : Nat) :
    List FreePageList → List FreePageList → Nat × MemoryMap
  | [], after => (complement address, some after)
  | pages :: before, after =>
    if pages.address ≤ address then
      if add64 pages.address (efiPagesToSize pages.numberOfPages) < endAddress then
        (complement address, some ((pages :: before).reverse ++ after))
      else
        relink before.reverse after (internalAllocPagesOnOneNode pages numberOfPages endAddress)
    else allocAddressLoop numberOfPages address endAddress before (pages :: after)

/-- `InternalAllocAddress`. -/
def internalAllocAddress (freePageList : List FreePageList) (numberOfPages address : Nat) :
    Nat × MemoryMap :=
  if address % efiPageSize ≠ 0 then (complement address, some freePageList)
  else
    allocAddressLoop numberOfPages address (add64 address (efiPagesToSize numberOfPages))
      freePageList.reverse []

/-- What a service returns, with `*Memory` and the list after it. -/
structure PageResult where
  status : EfiStatus
  memory : Nat
  map : MemoryMap
deriving DecidableEq

/-- `SmmInternalAllocatePages` for `AllocateAnyPages` and `AllocateMaxAddress`. -/
def allocateBelow (nodes : List FreePageList) (numberOfPages requestedAddress : Nat) :
    PageResult :=
  let result := internalAllocMaxAddress nodes numberOfPages requestedAddress
  if result.1 = noAddress then ⟨.outOfResources, result.1, result.2⟩
  else ⟨.success, result.1, result.2⟩

/-- `SmmInternalAllocatePages` for `AllocateAddress`. -/
def allocateAt (nodes : List FreePageList) (numberOfPages requestedAddress : Nat) :
    PageResult :=
  let result := internalAllocAddress nodes numberOfPages requestedAddress
  if result.1 ≠ requestedAddress then ⟨.notFound, result.1, result.2⟩
  else ⟨.success, result.1, result.2⟩

/-- `SmmInternalAllocatePages`. -/
def smmInternalAllocatePages (nodes : List FreePageList) (type : EfiAllocateType)
    (memoryType : UInt32) (numberOfPages memory : Nat) : PageResult :=
  if memoryType ≠ efiRuntimeServicesCode ∧ memoryType ≠ efiRuntimeServicesData then
    ⟨.invalidParameter, memory, some nodes⟩
  else if numberOfPages > truncateToPages noAddress + 1 then
    ⟨.outOfResources, memory, some nodes⟩
  else
    match type with
    | .allocateAnyPages => allocateBelow nodes numberOfPages noAddress
    | .allocateMaxAddress => allocateBelow nodes numberOfPages memory
    | .allocateAddress => allocateAt nodes numberOfPages memory
    | .other => ⟨.invalidParameter, memory, some nodes⟩

/-- `InternalMergeNodes`: the two nodes after it. -/
def internalMergeNodes (first next : FreePageList) : List FreePageList :=
  if truncateToPages (sub64 next.address first.address) = first.numberOfPages then
    [⟨first.address, add64 first.numberOfPages next.numberOfPages⟩]
  else [first, next]

/-- The nodes in front of the place of an address, from the last one on, and those behind
it. -/
def splitAtAddress (memory : Nat) (nodes : List FreePageList) :
    List FreePageList × List FreePageList :=
  ((nodes.takeWhile fun pages => decide (pages.address ≤ memory)).reverse,
    nodes.dropWhile fun pages => decide (pages.address ≤ memory))

/-- `InternalMergeNodes` on the last of some nodes and the node behind them. -/
def mergeBehind (before : List FreePageList) (node : FreePageList) : List FreePageList :=
  match before.reverse with
  | [] => [node]
  | first :: rest => rest.reverse ++ internalMergeNodes first node

/-- The insertion of `SmmInternalFreePages` with its calls of `InternalMergeNodes`. -/
def insertNode (before : List FreePageList) (pages : FreePageList) (after : List FreePageList) :
    List FreePageList :=
  match after with
  | [] => mergeBehind before pages
  | node :: rest => mergeBehind (mergeBehind before pages) node ++ rest

/-- `SmmInternalFreePages`. -/
def smmInternalFreePages (nodes : List FreePageList) (memory numberOfPages : Nat) :
    EfiStatus × MemoryMap :=
  if memory % efiPageSize ≠ 0 then (.invalidParameter, some nodes)
  else
    let (before, after) := splitAtAddress memory nodes
    if after.head?.any
        (fun node => decide (add64 memory (efiPagesToSize numberOfPages) > node.address)) then
      (.invalidParameter, some nodes)
    else if before.head?.any
        (fun node => decide (add64 node.address (efiPagesToSize node.numberOfPages) > memory)) then
      (.invalidParameter, some nodes)
    else if before.head?.any (fun node => decide (node.address = memory)) then
      -- the node that is inserted is on the list already
      (.success, none)
    else (.success, some (insertNode before.reverse ⟨memory, numberOfPages⟩ after))

/-- `SmmAddMemoryRegion`. -/
def smmAddMemoryRegion (nodes : List FreePageList) (memBase memLength : Nat)
    (attributes : UInt64) : MemoryMap :=
  if attributes &&& unusableRegion ≠ 0 then some nodes
  else
    let rounded := add64 memBase (efiPageSize - 1)
    let alignedMemBase := rounded - rounded % efiPageSize
    let memLength := sub64 memLength (sub64 alignedMemBase memBase)
    (smmInternalFreePages nodes alignedMemBase (truncateToPages memLength)).2

end PiSmmCore
end Udk
