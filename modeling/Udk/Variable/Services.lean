import Udk.Variable.Update

/-!
# Reading services, space queries and the life cycle of the driver

`VariableServiceGetVariable` and `VariableServiceGetNextVariableName` read what
`FindVariable` finds; `VariableServiceQueryVariableInfoInternal` and
`CheckRemainingSpaceForConsistencyInternal` compute with record sizes.  The last
section has the entry points that run between services: the end of DXE, the
reclaim before the operating system starts, and a restart of the machine.
-/

namespace Udk
namespace Variable

section Read

variable (P : Platform) (d : Driver)

/-- What `VariableServiceGetVariable` returns. -/
structure GetResult where
  status : EfiStatus
  attributes : UInt32
  data : Bytes
deriving DecidableEq

/-- `VariableServiceGetVariable` with room for `dataSize` bytes. -/
def variableServiceGetVariable (name : Char16Str) (guid : Guid) (dataSize : Nat) : GetResult :=
  let track := findVariable P d name guid false
  match track.currPtr with
  | none => ⟨.notFound, 0, []⟩
  | some currPtr =>
      let ptr := ((d.searchedStore track.type).getD []).drop currPtr
      if dataSizeOfVariable P.authFormat ptr ≤ dataSize then
        ⟨.success, attributes ptr, variableContents P.authFormat ptr⟩
      else ⟨.bufferTooSmall, 0, []⟩

/-- The stores behind a store in the order volatile, HOB, non-volatile. -/
def laterStores : StoreType → List StoreType
  | .volatile => if d.hob.isSome then [.hob, .nv] else [.nv]
  | .hob => [.nv]
  | .nv => []

/-- The records `VariableServiceGetNextVariableInternal` looks at from a pointer on. -/
def remainingRecords (type : StoreType) (ptr : Nat) : List (StoreType × Nat) :=
  let store := (d.searchedStore type).getD []
  (walkFrom P.authFormat store (getEndPointer store) store.length ptr).map (fun p => (type, p)) ++
    (laterStores d type).flatMap (fun t =>
      (storeWalk P.authFormat ((d.searchedStore t).getD [])).map (fun p => (t, p)))

/-- The name and GUID of a record. -/
def recordName (ptr : Bytes) : Char16Str × Guid :=
  (readChar16Str (getVariableNamePtr P.authFormat ptr), vendorGuid P.authFormat ptr)

/-- A record that `VariableServiceGetNextVariableInternal` returns: live and visible, not
in transition beside an added record of its name, and not overridden by the HOB. -/
def isReturned (type : StoreType) (currPtr : Nat) : Bool :=
  let store := (d.searchedStore type).getD []
  let ptr := store.drop currPtr
  let (name, guid) := recordName P ptr
  let hasAdded : Bool :=
    match (findVariableEx P.authFormat store name guid false d.atRuntime).1 with
    | none => false
    | some p => state (store.drop p) == varAdded
  let inHob : Bool := (findVariableIn P d name guid false .hob).currPtr.isSome
  isLive ptr && isVisible false d.atRuntime ptr &&
    !(state ptr == varInTransition && hasAdded) && !(type == .nv && inHob)

/-- `VariableServiceGetNextVariableInternal`. -/
def variableServiceGetNextVariableInternal (name : Char16Str) (guid : Guid) :
    Option (StoreType × Nat) :=
  let track := findVariable P d name guid false
  match track.currPtr with
  | none => none
  | some currPtr =>
      let store := (d.searchedStore track.type).getD []
      let start :=
        if name.chars.isEmpty then currPtr else getNextVariablePtr P.authFormat store currPtr
      (remainingRecords P d track.type start).find? (fun r => isReturned P d r.1 r.2)

/-- `VariableServiceGetNextVariableName`, with a buffer that is large enough: `none`
stands for `EFI_NOT_FOUND`. -/
def variableServiceGetNextVariableName (name : Char16Str) (guid : Guid) :
    Option (Char16Str × Guid) :=
  (variableServiceGetNextVariableInternal P d name guid).map (fun r =>
    recordName P (((d.searchedStore r.1).getD []).drop r.2))

end Read

section Space

variable (P : Platform) (d : Driver)

/-- The space a record takes in a query: at runtime every record, at boot time only
what a reclaim would keep. -/
def isCounted (store : Bytes) (currPtr : Nat) : Bool :=
  let ptr := store.drop currPtr
  if d.atRuntime then true
  else if state ptr == varAdded then true
  else if state ptr == varInTransition then
    match (findVariableEx P.authFormat store (recordName P ptr).1 (recordName P ptr).2
        false d.atRuntime).1 with
    | none => false
    | some p => state (store.drop p) != varAdded
  else false

/-- The total size of the counted records of one class. -/
def countedSize (store : Bytes) (hwErr : Bool) : Nat :=
  ((storeWalk P.authFormat store).map (fun ptr =>
    if isCounted P d store ptr && isHwErrRecord (store.drop ptr) == hwErr then
      recordSize P.authFormat store ptr
    else 0)).sum

/-- `VariableServiceQueryVariableInfoInternal`: the maximum and the remaining variable
storage size.  The remaining size of hardware error records is subtracted in `UINT64`
without a guard. -/
def variableServiceQueryVariableInfoInternal (queryAttributes : UInt32) : Nat × Nat :=
  let isNv := hasAttribute queryAttributes efiVariableNonVolatile
  let isHwErr := hasAttribute queryAttributes efiVariableHardwareErrorRecord
  let store := if isNv then d.mNvVariableCache else d.volatileStore
  let maximum :=
    if isNv && isHwErr then P.pcdHwErrStorageSize
    else if isNv then
      if d.atRuntime then P.commonRuntimeVariableSpace else P.commonVariableSpace
    else storeSize store - storeHeaderSize
  let remaining :=
    if isHwErr then uintnSub maximum (countedSize P d store true)
    else if maximum < countedSize P d store false then 0
    else maximum - countedSize P d store false
  (maximum, remaining)

/-- `VARIABLE_ENTRY_CONSISTENCY`; `variableSize` is the data size. -/
structure VariableEntryConsistency where
  name : Char16Str
  guid : Guid
  variableSize : Nat

/-- Total size of an entry's record, computed in `UINTN`. -/
def entrySize (entry : VariableEntryConsistency) : Nat :=
  headerAlign ((getVariableHeaderSize P.authFormat + entry.name.strSize +
    getPadSize entry.name.strSize + entry.variableSize + getPadSize entry.variableSize) %
      2 ^ 64) % 2 ^ 64

/-- The second loop of the check: entry by entry, the space of the record that an entry
replaces is given back and the space of its new record is taken. -/
def simulateEntries : Nat → List VariableEntryConsistency → Bool
  | _, [] => true
  | remaining, entry :: entries =>
      let original :=
        match (findVariableEx P.authFormat d.mNvVariableCache entry.name entry.guid
            false d.atRuntime).1 with
        | none => 0
        | some p => recordSize P.authFormat d.mNvVariableCache p
      let remaining := (remaining + original) % 2 ^ 64
      if remaining < entrySize P entry then false
      else simulateEntries (remaining - entrySize P entry) entries

/-- `CheckRemainingSpaceForConsistencyInternal`. -/
def checkRemainingSpaceForConsistencyInternal (queryAttributes : UInt32)
    (entries : List VariableEntryConsistency) : Bool :=
  let remaining := (variableServiceQueryVariableInfoInternal P d queryAttributes).2
  let totalNeededSize := (entries.map (entrySize P)).sum % 2 ^ 64
  if totalNeededSize ≤ remaining then true
  else if d.atRuntime then false
  else simulateEntries P d remaining entries

end Space

section LifeCycle

variable (P : Platform) (d : Driver)

/-- `InitializeVarErrorFlag`. -/
def initializeVarErrorFlag : Driver :=
  if !d.mEndOfDxe then d
  else
    let flag := d.mCurrentBootVarErrFlag
    let track := findVariable P d varErrorFlagName edkiiVarErrorFlagGuid false
    let stored := track.currPtr.map (fun p =>
      (getVariableDataPtr P.authFormat (((d.searchedStore track.type).getD []).drop p)).getD 0 0)
    if stored == some flag then d
    else
      (updateVariable P d
        ⟨varErrorFlagName, edkiiVarErrorFlagGuid, [flag], variableAttributeNvBsRt, 0, 0, none⟩
        track).2

/-- `CalculateCommonUserVariableTotalSize`. -/
def calculateCommonUserVariableTotalSize : Driver :=
  if d.mEndOfDxe && P.commonMaxUserVariableSpace != P.commonVariableSpace then
    let cache := d.mNvVariableCache
    { d with
      commonUserVariableTotalSize :=
        (storeWalk P.authFormat cache).foldl (fun total ptr =>
          let (name, guid) := recordName P (cache.drop ptr)
          if !isHwErrRecord (cache.drop ptr) && !P.hasProperty name guid then
            total + recordSize P.authFormat cache ptr
          else total) d.commonUserVariableTotalSize }
  else d

/-- `InitializeVariableQuota`, called when `mEndOfDxe` is set. -/
def initializeVariableQuota : Driver :=
  calculateCommonUserVariableTotalSize P (initializeVarErrorFlag P { d with mEndOfDxe := true })

/-- `ReclaimForOS`; the caller makes sure that it runs once. -/
def reclaimForOS : Driver :=
  let remainingCommon := P.commonRuntimeVariableSpace - d.commonVariableTotalSize
  let remainingHwErr := uintnSub P.pcdHwErrStorageSize d.hwErrVariableTotalSize
  if decide (remainingCommon < P.maxVariableSize) ||
      decide (remainingCommon < P.maxAuthVariableSize) ||
      (P.pcdHwErrStorageSize != 0 &&
        decide (remainingHwErr < P.pcdMaxHardwareErrorVariableSize)) then
    (reclaim P d false none none none).2
  else d

/-- The totals that `InitNonVolatileVariableStore` computes from a store. -/
def initTotals (store : Bytes) : Totals :=
  (storeWalk P.authFormat store).foldl (fun totals ptr =>
    let size := recordSize P.authFormat store ptr
    if hasAttribute (attributes (store.drop ptr)) efiVariableNonVolatile &&
        isHwErrRecord (store.drop ptr) then
      { totals with hwErr := totals.hwErr + size }
    else { totals with common := totals.common + size }) ⟨0, 0, 0⟩

/-- A restart with the given flash contents: `InitNonVolatileVariableStore` and
`VariableCommonInitialize`, before the FVB protocol is there. -/
def powerOn (flash volatileStore : Bytes) (hob : Option Bytes) (faults : Faults) : Driver :=
  Driver.setTotals
    { hob := hob
      volatileStore := volatileStore
      flash := flash
      mNvVariableCache := flash
      fvbInstance := false
      volatileLastVariableOffset := getStartPointer
      nonVolatileLastVariableOffset := storeWalkEnd P.authFormat flash
      commonVariableTotalSize := 0
      commonUserVariableTotalSize := 0
      hwErrVariableTotalSize := 0
      mEndOfDxe := false
      atRuntime := false
      mCurrentBootVarErrFlag := varErrorFlagNoError
      faults := faults
      history := [] }
    (initTotals P flash)

/-- The free area of the store has a byte that is not erased. -/
def freeAreaIsDirty : Bool :=
  (slice d.mNvVariableCache d.nonVolatileLastVariableOffset
    (storeSize d.flash - d.nonVolatileLastVariableOffset)).any (fun b => b != 0xff)

/-- `VariableWriteServiceInitialize`, run when `FvbInstance` has been set: reclaim a store
whose free area is not free, then flush the HOB variables. -/
def variableWriteServiceInitialize : EfiStatus × Driver :=
  let d := { d with fvbInstance := true }
  if freeAreaIsDirty d then
    let (status, d) := reclaim P d false none none none
    if status.isError then (status, d) else (.success, flushHobVariableToFlash P d none)
  else (.success, flushHobVariableToFlash P d none)

end LifeCycle

end Variable
end Udk
