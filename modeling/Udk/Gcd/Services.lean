import Mathlib.Data.List.Basic
import Mathlib.Tactic

/-!
# `CoreConvertSpace` and `CoreAllocateSpace`

The two workers of the GCD services over the memory space map and the I/O space map.
Outcomes of the pool and of the CPU protocol are inputs of a call.
-/

/-!
## GCD maps

A map is the list of its entries from the first link to the last.  A pair of links
`StartLink`, `EndLink` is a split of the list into what stands before `StartLink`, the
entries from `StartLink` to `EndLink` and what stands behind `EndLink`.
-/

namespace Udk
namespace Gcd

/-- `EFI_HANDLE` other than `NULL`. -/
abbrev EfiHandle := Nat

/-- What an entry records of its addresses. -/
structure GcdRegion where
  capabilities : UInt64
  attributes : UInt64
  /-- `EFI_GCD_MEMORY_TYPE`. -/
  gcdMemoryType : UInt32
  /-- `EFI_GCD_IO_TYPE`. -/
  gcdIoType : UInt32
  imageHandle : Option EfiHandle
  deviceHandle : Option EfiHandle
deriving DecidableEq

/-- `EFI_GCD_MAP_ENTRY`. -/
structure GcdMapEntry extends GcdRegion where
  baseAddress : UInt64
  endAddress : UInt64
deriving DecidableEq

abbrev GcdMap := List GcdMapEntry

def efiGcdMemoryTypeNonExistent : UInt32 := 0
def efiGcdMemoryTypeMemoryMappedIo : UInt32 := 3
def efiGcdMemoryTypeMaximum : UInt32 := 6
def efiGcdIoTypeNonExistent : UInt32 := 0
def efiGcdIoTypeMaximum : UInt32 := 3

/-- `mGcdMemorySpaceMapEntryTemplate` and `mGcdIoSpaceMapEntryTemplate` but for the
addresses. -/
def gcdTemplate : GcdRegion where
  capabilities := 0
  attributes := 0
  gcdMemoryType := efiGcdMemoryTypeNonExistent
  gcdIoType := efiGcdIoTypeNonExistent
  imageHandle := none
  deviceHandle := none

/-- The address lies between `BaseAddress` and `EndAddress`. -/
def GcdMapEntry.contains (entry : GcdMapEntry) (address : UInt64) : Bool :=
  decide (address ≥ entry.baseAddress) && decide (address ≤ entry.endAddress)

/-- `CoreInsertGcdMapEntry`: the pad that goes in front of the entry, the entry and the
pad that goes behind it. -/
def coreInsertGcdMapEntry (entry : GcdMapEntry) (baseAddress length : UInt64) :
    GcdMap × GcdMapEntry × GcdMap :=
  let (bottom, entry) :=
    if baseAddress > entry.baseAddress then
      ([{ entry with endAddress := baseAddress - 1 }],
        { entry with baseAddress := baseAddress })
    else ([], entry)
  if baseAddress + length - 1 < entry.endAddress then
    (bottom, { entry with endAddress := baseAddress + length - 1 },
      [{ entry with baseAddress := baseAddress + length }])
  else (bottom, entry, [])

/-- The links from `StartLink` to `EndLink` with what stands on either side. -/
structure GcdSplit where
  before : GcdMap
  window : GcdMap
  after : GcdMap
deriving DecidableEq

/-- The loop of `CoreSearchGcdMapEntry` at a link; `start` is what stands before
`StartLink` and from there on up to this link. -/
def searchGcdMapLoop (baseAddress length : UInt64) (before : GcdMap)
    (start : Option (GcdMap × GcdMap)) : GcdMap → Option GcdSplit
  | [] => none
  | entry :: rest =>
    let start := if entry.contains baseAddress then some (before, []) else start
    match start with
    | none => searchGcdMapLoop baseAddress length (before ++ [entry]) none rest
    | some (first, window) =>
      if entry.contains (baseAddress + length - 1) then
        some ⟨first, window ++ [entry], rest⟩
      else
        searchGcdMapLoop baseAddress length (before ++ [entry])
          (some (first, window ++ [entry])) rest

/-- `CoreSearchGcdMapEntry`, none when the range is not found. -/
def coreSearchGcdMapEntry (baseAddress length : UInt64) (map : GcdMap) : Option GcdSplit :=
  searchGcdMapLoop baseAddress length [] none map

/-- The loop over the links from `StartLink` to `EndLink` that inserts the pads and edits
each entry; a pad in front of the first entry is outside these links, as is one behind
the last. -/
def convertWindow (edit : GcdRegion → GcdRegion) (baseAddress length : UInt64) :
    GcdMap → GcdSplit
  | [] => ⟨[], [], []⟩
  | entry :: rest =>
    let (bottom, entry, top) := coreInsertGcdMapEntry entry baseAddress length
    let entry := { entry with toGcdRegion := edit entry.toGcdRegion }
    match rest with
    | [] => ⟨bottom, [entry], top⟩
    | _ :: _ =>
      let split := convertWindow edit baseAddress length rest
      ⟨bottom, entry :: top ++ split.before ++ split.window, split.after⟩

/-- The comparison of `CoreMergeGcdMapEntry`. -/
def sameRegion (entry adjacent : GcdMapEntry) : Bool :=
  entry.capabilities == adjacent.capabilities && entry.attributes == adjacent.attributes &&
    entry.gcdMemoryType == adjacent.gcdMemoryType && entry.gcdIoType == adjacent.gcdIoType &&
    entry.imageHandle == adjacent.imageHandle && entry.deviceHandle == adjacent.deviceHandle

/-- `CoreMergeGcdMapEntry` with `Forward` false; the entries before this link stand in the
order of their `BackLink`s. -/
def mergeBackward (back : GcdMap) (entry : GcdMapEntry) : GcdMap × GcdMapEntry :=
  match back with
  | [] => ([], entry)
  | adjacent :: rest =>
    if sameRegion entry adjacent then (rest, { entry with baseAddress := adjacent.baseAddress })
    else (adjacent :: rest, entry)

/-- `CoreMergeGcdMapEntry` with `Forward` true. -/
def mergeForward (entry : GcdMapEntry) (forward : GcdMap) : GcdMapEntry × GcdMap :=
  match forward with
  | [] => (entry, [])
  | adjacent :: rest =>
    if sameRegion entry adjacent then ({ entry with endAddress := adjacent.endAddress }, rest)
    else (entry, adjacent :: rest)

/-- The loop of `CoreCleanupGcdMapEntry` from `StartLink` to `EndLink`: the entries up to
`EndLink` in the order of their `BackLink`s. -/
def cleanupLoop (back : GcdMap) : GcdMap → GcdMap
  | [] => back
  | entry :: rest =>
    let (back, entry) := mergeBackward back entry
    cleanupLoop (entry :: back) rest

/-- `CoreCleanupGcdMapEntry`: the whole map. -/
def coreCleanupGcdMapEntry (split : GcdSplit) : GcdMap :=
  match cleanupLoop split.before.reverse split.window with
  | [] => split.after
  | entry :: back =>
    let (entry, after) := mergeForward entry split.after
    back.reverse ++ entry :: after

/-- The map when the entries of a split have been converted and cleaned up. -/
def convertSplit (edit : GcdRegion → GcdRegion) (baseAddress length : UInt64)
    (split : GcdSplit) : GcdMap :=
  let converted := convertWindow edit baseAddress length split.window
  coreCleanupGcdMapEntry
    ⟨split.before ++ converted.before, converted.window, converted.after ++ split.after⟩

end Gcd
end Udk

namespace Udk
namespace Gcd

/-- The `GCD_…_OPERATION`s. -/
inductive GcdOperation where
  | addMemory
  | allocateMemory
  | freeMemory
  | removeMemory
  | setAttributesMemory
  | setCapabilitiesMemory
  | addIo
  | allocateIo
  | freeIo
  | removeIo
deriving DecidableEq

/-- `(Operation & GCD_MEMORY_SPACE_OPERATION) != 0`. -/
def GcdOperation.isMemory : GcdOperation → Bool
  | addIo | allocateIo | freeIo | removeIo => false
  | _ => true

/-- The `EFI_STATUS` values of the GCD workers. -/
inductive Status where
  | success
  | invalidParameter
  | unsupported
  | accessDenied
  | notFound
  | outOfResources
  | notAvailableYet
  /-- Another error of the CPU protocol. -/
  | deviceError
deriving DecidableEq

/-- `mGcdMemorySpaceMap` and `mGcdIoSpaceMap`. -/
structure GcdState where
  memorySpaceMap : GcdMap
  ioSpaceMap : GcdMap
deriving DecidableEq

namespace GcdState

/-- The map of an operation. -/
def map (s : GcdState) (operation : GcdOperation) : GcdMap :=
  if operation.isMemory then s.memorySpaceMap else s.ioSpaceMap

def setMap (s : GcdState) (operation : GcdOperation) (map : GcdMap) : GcdState :=
  if operation.isMemory then { s with memorySpaceMap := map }
  else { s with ioSpaceMap := map }

end GcdState

def efiMemoryUc : UInt64 := 0x1
def efiMemoryWc : UInt64 := 0x2
def efiMemoryWt : UInt64 := 0x4
def efiMemoryWb : UInt64 := 0x8
def efiMemoryWp : UInt64 := 0x1000
def efiMemoryPortIo : UInt64 := 0x4000000000000000
def efiMemoryRuntime : UInt64 := 0x8000000000000000
def efiPageMask : UInt64 := 0xfff

/-- `ConverToCpuArchAttributes`, none for `INVALID_CPU_ARCH_ATTRIBUTES`. -/
def converToCpuArchAttributes (attributes : UInt64) : Option UInt64 :=
  [efiMemoryUc, efiMemoryWc, efiMemoryWt, efiMemoryWb, efiMemoryWp].find?
    (fun mask => attributes &&& mask == mask)

/-- The parameters of `CoreConvertSpace`. -/
structure ConvertRequest where
  operation : GcdOperation
  gcdMemoryType : UInt32
  gcdIoType : UInt32
  baseAddress : UInt64
  length : UInt64
  capabilities : UInt64
  attributes : UInt64
deriving DecidableEq

/-- What a call asks of the pool and the CPU protocol. -/
structure GcdEnvironment where
  /-- `CoreAllocateGcdMapEntry` succeeds. -/
  allocateEntries : Bool
  /-- `gCpu`, as its answer to `SetMemoryAttributes`. -/
  cpu : Option (UInt64 → UInt64 → UInt64 → Status)

section Convert

variable (request : ConvertRequest)

/-- The verification of an entry in `CoreConvertSpace`. -/
def convertCheck (entry : GcdRegion) : Status :=
  match request.operation with
  | .addMemory =>
    if entry.gcdMemoryType != efiGcdMemoryTypeNonExistent || entry.imageHandle != none then
      .accessDenied
    else .success
  | .addIo =>
    if entry.gcdIoType != efiGcdIoTypeNonExistent || entry.imageHandle != none then
      .accessDenied
    else .success
  | .freeMemory | .freeIo => if entry.imageHandle == none then .notFound else .success
  | .removeMemory =>
    if entry.gcdMemoryType == efiGcdMemoryTypeNonExistent then .notFound
    else if entry.imageHandle != none then .accessDenied
    else .success
  | .removeIo =>
    if entry.gcdIoType == efiGcdIoTypeNonExistent then .notFound
    else if entry.imageHandle != none then .accessDenied
    else .success
  | .setAttributesMemory =>
    if request.attributes &&& efiMemoryRuntime != 0 &&
        (request.baseAddress &&& efiPageMask != 0 || request.length &&& efiPageMask != 0) then
      .invalidParameter
    else if entry.capabilities &&& request.attributes != request.attributes then .unsupported
    else .success
  | .setCapabilitiesMemory =>
    if request.baseAddress &&& efiPageMask != 0 || request.length &&& efiPageMask != 0 then
      .invalidParameter
    else if request.capabilities &&& entry.attributes != entry.attributes then .unsupported
    else .success
  | .allocateMemory | .allocateIo => .success

/-- The edit of an entry in `CoreConvertSpace`. -/
def convertEdit (entry : GcdRegion) : GcdRegion :=
  match request.operation with
  | .addMemory =>
    { entry with
      gcdMemoryType := request.gcdMemoryType
      capabilities :=
        if request.gcdMemoryType = efiGcdMemoryTypeMemoryMappedIo then
          request.capabilities ||| efiMemoryRuntime ||| efiMemoryPortIo
        else request.capabilities ||| efiMemoryRuntime }
  | .addIo => { entry with gcdIoType := request.gcdIoType }
  | .freeMemory | .freeIo => { entry with imageHandle := none, deviceHandle := none }
  | .removeMemory =>
    { entry with gcdMemoryType := efiGcdMemoryTypeNonExistent, capabilities := 0 }
  | .removeIo => { entry with gcdIoType := efiGcdIoTypeNonExistent }
  | .setAttributesMemory => { entry with attributes := request.attributes }
  | .setCapabilitiesMemory => { entry with capabilities := request.capabilities }
  | .allocateMemory | .allocateIo => entry

/-- The status of the first entry that does not pass a check. -/
def checkWindow (check : GcdRegion → Status) : GcdMap → Status
  | [] => .success
  | entry :: rest =>
    match check entry.toGcdRegion with
    | .success => checkWindow check rest
    | status => status

/-- The call of the CPU protocol for `GCD_SET_ATTRIBUTES_MEMORY_OPERATION`. -/
def setCpuAttributes (env : GcdEnvironment) : Status :=
  if request.operation = .setAttributesMemory then
    match converToCpuArchAttributes request.attributes with
    | none => .success
    | some cpuArchAttributes =>
      match env.cpu with
      | none => .notAvailableYet
      | some setMemoryAttributes =>
        setMemoryAttributes request.baseAddress request.length cpuArchAttributes
  else .success

/-- `CoreConvertSpace`. -/
def coreConvertSpace (env : GcdEnvironment) (s : GcdState) : Status × GcdState :=
  if request.length = 0 then (.invalidParameter, s)
  else
    match coreSearchGcdMapEntry request.baseAddress request.length (s.map request.operation) with
    | none => (.unsupported, s)
    | some split =>
      match checkWindow (convertCheck request) split.window with
      | .success =>
        if !env.allocateEntries then (.outOfResources, s)
        else
          match setCpuAttributes request env with
          | .success =>
            (.success, s.setMap request.operation
              (convertSplit (convertEdit request) request.baseAddress request.length split))
          | status => (status, s)
      | status => (status, s)

end Convert

/-- `EFI_GCD_ALLOCATE_TYPE`, a number other than the five being
`EfiGcdMaxAllocateType` or above. -/
inductive GcdAllocateType where
  | anySearchBottomUp
  | maxAddressSearchBottomUp
  | address
  | anySearchTopDown
  | maxAddressSearchTopDown
  | other
deriving DecidableEq

def GcdAllocateType.isTopDown : GcdAllocateType → Bool
  | anySearchTopDown | maxAddressSearchTopDown => true
  | _ => false

def GcdAllocateType.hasMaxAddress : GcdAllocateType → Bool
  | maxAddressSearchBottomUp | maxAddressSearchTopDown => true
  | _ => false

/-- The parameters of `CoreAllocateSpace`; `baseAddress` is what `BaseAddress` points
at. -/
structure AllocateRequest where
  operation : GcdOperation
  gcdAllocateType : GcdAllocateType
  gcdMemoryType : UInt32
  gcdIoType : UInt32
  alignment : UInt64
  length : UInt64
  baseAddress : Option UInt64
  imageHandle : Option EfiHandle
  deviceHandle : Option EfiHandle
deriving DecidableEq

/-- How the choice of a place in `CoreAllocateSpace` ends. -/
inductive Placement where
  | found (baseAddress : UInt64) (split : GcdSplit)
  | failed (status : Status)
deriving DecidableEq

section Allocate

variable (request : AllocateRequest)

/-- `CoreAllocateSpaceCheckEntry`. -/
def coreAllocateSpaceCheckEntry (entry : GcdRegion) : Status :=
  if entry.imageHandle != none then .notFound
  else
    match request.operation with
    | .allocateMemory => if entry.gcdMemoryType != request.gcdMemoryType then .notFound else .success
    | .allocateIo => if entry.gcdIoType != request.gcdIoType then .notFound else .success
    | _ => .unsupported

/-- `LShiftU64 (1, Alignment) - 1`. -/
def alignmentMask : UInt64 := ((1 : UInt64) <<< request.alignment) - 1

/-- The start of the range in an entry that passed the check, in a search from the
bottom. -/
def bottomUpBase (entry : GcdMapEntry) : UInt64 :=
  (entry.baseAddress + alignmentMask request) &&& ~~~alignmentMask request

/-- The start of the range in an entry that passed the check, in a search from the top. -/
def topDownBase (maxAddress : UInt64) (entry : GcdMapEntry) : UInt64 :=
  ((if entry.endAddress > maxAddress then maxAddress else entry.endAddress) + 1 -
    request.length) &&& ~~~alignmentMask request

/-- What the search does at an entry. -/
inductive Candidate where
  | skip
  | stop
  | base (baseAddress : UInt64)
deriving DecidableEq

/-- The bounds and the start of the range at an entry that passed the check. -/
def candidate (maxAddress : UInt64) (entry : GcdMapEntry) : Candidate :=
  if request.gcdAllocateType.isTopDown then
    if entry.baseAddress + request.length > maxAddress then .skip
    else if request.length > entry.endAddress + 1 then .stop
    else .base (topDownBase request maxAddress entry)
  else
    let baseAddress := bottomUpBase request entry
    if baseAddress + request.length - 1 > maxAddress then .stop
    else .base baseAddress

/-- The link behind a position in the direction of the search. -/
def nextLink (map : GcdMap) (link : Nat) : Option Nat :=
  if request.gcdAllocateType.isTopDown then
    if link = 0 then none else some (link - 1)
  else if link + 1 < map.length then some (link + 1) else none

/-- The search loop of `CoreAllocateSpace` at a position, none when it needs more turns. -/
def allocateSearch (map : GcdMap) (maxAddress : UInt64) : Nat → Option Nat → Option Placement
  | 0, _ => none
  | _ + 1, none => some (.failed .notFound)
  | turns + 1, some link =>
    match map[link]? with
    | none => some (.failed .notFound)
    | some entry =>
      match coreAllocateSpaceCheckEntry request entry.toGcdRegion with
      | .success =>
        match candidate request maxAddress entry with
        | .skip => allocateSearch map maxAddress turns (nextLink request map link)
        | .stop => some (.failed .notFound)
        | .base baseAddress =>
          match coreSearchGcdMapEntry baseAddress request.length map with
          | none => some (.failed .notFound)
          | some split =>
            -- the first entry of the range that does not pass is where the search goes on
            match split.window.findIdx? (fun entry =>
              coreAllocateSpaceCheckEntry request entry.toGcdRegion != .success) with
            | none => some (.found baseAddress split)
            | some index =>
              allocateSearch map maxAddress turns (some (split.before.length + index))
      | _ => allocateSearch map maxAddress turns (nextLink request map link)

/-- The place that `CoreAllocateSpace` chooses, none when the search needs more turns. -/
def allocatePlace (turns : Nat) (map : GcdMap) (baseAddress : UInt64) : Option Placement :=
  if request.gcdAllocateType = .address then
    if baseAddress &&& alignmentMask request != 0 then some (.failed .notFound)
    else
      match coreSearchGcdMapEntry baseAddress request.length map with
      | none => some (.failed .notFound)
      | some split =>
        match checkWindow (coreAllocateSpaceCheckEntry request) split.window with
        | .success => some (.found baseAddress split)
        | status => some (.failed status)
  else
    match map.getLast? with
    | none => some (.failed .notFound)
    | some last =>
      let maxAddress :=
        if request.gcdAllocateType.hasMaxAddress then baseAddress else last.endAddress
      allocateSearch request map maxAddress turns
        (some (if request.gcdAllocateType.isTopDown then map.length - 1 else 0))

/-- The parameter checks of `CoreAllocateSpace`. -/
def allocateParameters : Status :=
  if request.gcdAllocateType = .other then .invalidParameter
  else if request.gcdMemoryType ≥ efiGcdMemoryTypeMaximum then .invalidParameter
  else if request.gcdIoType ≥ efiGcdIoTypeMaximum then .invalidParameter
  else if request.baseAddress = none then .invalidParameter
  else if request.imageHandle = none then .invalidParameter
  else if request.alignment ≥ 64 then .notFound
  else if request.length = 0 then .invalidParameter
  else .success

/-- The owner that `CoreAllocateSpace` writes into an entry. -/
def allocateEdit (entry : GcdRegion) : GcdRegion :=
  { entry with imageHandle := request.imageHandle, deviceHandle := request.deviceHandle }

/-- `CoreAllocateSpace`, none when the search needs more turns; on success with the
allocated address. -/
def coreAllocateSpace (turns : Nat) (env : GcdEnvironment) (s : GcdState) :
    Option (Status × Option UInt64 × GcdState) :=
  match allocateParameters request, request.baseAddress with
  | .success, some baseAddress =>
    (allocatePlace request turns (s.map request.operation) baseAddress).map fun
      | .failed status => (status, none, s)
      | .found baseAddress split =>
        if !env.allocateEntries then (.outOfResources, none, s)
        else
          (.success, some baseAddress, s.setMap request.operation
            (convertSplit (allocateEdit request) baseAddress request.length split))
  | status, _ => some (status, none, s)

end Allocate

end Gcd
end Udk
