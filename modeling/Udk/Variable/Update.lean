import Udk.Variable.Reclaim

/-!
# Updating a variable

`UpdateVariable` is split at its labels: the part for an existing variable, the
part that creates one, and the common part that installs the new record, either
in place or through a reclaim.  It calls `FlushHobVariableToFlash` and
`RecordVarErrorFlag` only as its last action, so its body returns which of them
is still to run (`Exit`), and `updateVariable` runs it.
-/

namespace Udk
namespace Variable

/-- Subtraction in `UINTN`. -/
def uintnSub (a b : Nat) : Nat :=
  (a % 2 ^ 64 + 2 ^ 64 - b % 2 ^ 64) % 2 ^ 64

/-- Arguments of `UpdateVariable` but for the pointer track; `DataSize` is the
length of `data`. -/
structure UpdateRequest where
  variableName : Char16Str
  vendorGuid : Guid
  data : Bytes
  attributes : UInt32
  keyIndex : UInt32
  monotonicCount : UInt64
  timeStamp : Option EfiTime
deriving DecidableEq

namespace UpdateRequest

variable (req : UpdateRequest)

def isAppend : Bool :=
  hasAttribute req.attributes efiVariableAppendWrite

/-- Zero `DataSize` without append, or no access attribute. -/
def isDelete : Bool :=
  (!req.isAppend && req.data.isEmpty) ||
    !hasAttribute req.attributes (efiVariableRuntimeAccess ||| efiVariableBootserviceAccess)

end UpdateRequest

/-- What `UpdateVariable` does last. -/
inductive Exit where
  | done
  /-- `FlushHobVariableToFlash` for the updated name. -/
  | flush
  /-- `RecordVarErrorFlag` with the user and the system error flag. -/
  | recordErrors (user system : Bool)
deriving DecidableEq

structure Outcome where
  status : EfiStatus
  exit : Exit
  driver : Driver

section Record

variable (authFormat : Bool)

/-- A variable header. -/
def buildHeader (recordState : UInt8) (recordAttributes : UInt32) (monotonicCount : UInt64)
    (time : EfiTime) (keyIndex : UInt32) (nameSize dataSize : Nat) (guid : Guid) : Bytes :=
  let start := toLE 2 variableData ++ [recordState, 0] ++ toLE 4 recordAttributes.toNat
  let sizes := toLE 4 nameSize ++ toLE 4 dataSize ++ guid.bytes
  if authFormat then
    start ++ toLE 8 monotonicCount.toNat ++ time.bytes ++ toLE 4 keyIndex.toNat ++ sizes
  else start ++ sizes

/-- The timestamp of the new record; `old` is the record it replaces. -/
def newTimeStamp (req : UpdateRequest) (old : Option Bytes) : EfiTime :=
  match req.timeStamp with
  | none => EfiTime.zero
  | some time =>
      if !hasAttribute req.attributes efiVariableTimeBasedAuthenticatedWriteAccess then
        EfiTime.zero
      else if !req.isAppend then time
      else
        match old with
        | none => EfiTime.zero
        | some ptr =>
            if variableCompareTimeStamp (timeStamp ptr) time then time else EfiTime.zero

/-- The record prepared in the scratch buffer, of `VarSize` bytes.  Its state is
still erased.  For an append the old data was merged behind the same name, so that
it lies at the same offset. -/
def buildVariable (req : UpdateRequest) (old : Option Bytes) (data : Bytes) : Bytes :=
  buildHeader authFormat 0xff (req.attributes &&& ~~~efiVariableAppendWrite)
      req.monotonicCount (newTimeStamp req old) req.keyIndex
      req.variableName.strSize data.length req.vendorGuid ++
    req.variableName.bytes ++ data

/-- The scratch buffer up to the aligned end of the record. -/
def padRecord (record : Bytes) : Bytes :=
  record ++ List.replicate (headerAlign record.length - record.length) 0xff

end Record

section Body

variable (P : Platform)

/-- If the track points into the HOB, look the variable up in the NV cache instead;
`none` when it is only to be deleted from the HOB. -/
def redirectHob (d : Driver) (req : UpdateRequest) (cacheVariable : PointerTrack) :
    Option PointerTrack :=
  if cacheVariable.currPtr.isSome && d.hob.isSome && cacheVariable.type == .hob then
    let inNv := findVariableIn P d req.variableName req.vendorGuid false .nv
    if inNv.currPtr.isNone && ((!req.isAppend && req.data.isEmpty) || req.attributes == 0) then
      none
    else some inNv
  else some cacheVariable

/-- Clear state bits of a record, in its store and, for an NV record, in the cache. -/
def writeState (d : Driver) (isVolatile : Bool) (ptr : Nat) (mask : UInt8) :
    EfiStatus × Driver :=
  let newState := state ((d.updatedStore isVolatile).drop ptr) &&& mask
  let (status, d) := updateVariableStore P d isVolatile (ptr + 2) [newState]
  if status.isError || isVolatile then (status, d)
  else (status, { d with mNvVariableCache := copyMem d.mNvVariableCache (ptr + 2) [newState] })

/-- Set the records a track points to to `VAR_DELETED`, the one in transition first. -/
def deleteRecords (d : Driver) (track : PointerTrack) (currPtr : Nat) :
    EfiStatus × Driver :=
  match track.inDeletedTransitionPtr with
  | none => writeState P d track.isVolatile currPtr varDeleted
  | some ptr =>
      let (status, d) := writeState P d track.isVolatile ptr varDeleted
      if status.isError then (status, d)
      else writeState P d track.isVolatile currPtr varDeleted

/-- Store writes in order, up to the first that fails. -/
def writeSequence (d : Driver) : List (Nat × Bytes) → EfiStatus × Driver
  | [] => (.success, d)
  | (offset, buffer) :: writes =>
      let (status, d) := updateVariableStore P d false offset buffer
      if status.isError then (status, d) else writeSequence d writes

/-- The four steps: header, state, name and data, state. -/
def recordWrites (offset : Nat) (next : Bytes) : List (Nat × Bytes) :=
  let headerSize := getVariableHeaderSize P.authFormat
  [(offset, next.take headerSize),
    (offset + 2, [varHeaderValidOnly]),
    (offset + headerSize, next.drop headerSize),
    (offset + 2, [varAdded])]

/-- The totals of the driver with a record of `size` bytes added. -/
def totalsWith (d : Driver) (size : Nat) (hwErr isCommonUserVariable : Bool) : Totals :=
  if hwErr then { d.totals with hwErr := d.hwErrVariableTotalSize + size }
  else
    { d.totals with
      common := d.commonVariableTotalSize + size
      user :=
        if isCommonUserVariable then d.commonUserVariableTotalSize + size
        else d.commonUserVariableTotalSize }

/-- Write a new record behind the last one and account for it. -/
def writeRecord (d : Driver) (next : Bytes) (hwErr isCommonUserVariable : Bool) :
    EfiStatus × Driver :=
  let offset := d.nonVolatileLastVariableOffset
  let size := headerAlign next.length
  let (status, d) := writeSequence P d (recordWrites P offset next)
  if status.isError then (status, d)
  else
    (status,
      { d.setTotals (totalsWith d size hwErr isCommonUserVariable) with
        nonVolatileLastVariableOffset := offset + size
        mNvVariableCache := copyMem d.mNvVariableCache offset (next.set 2 varAdded) })

/-- Mark the replaced records as deleted once the new record is in place. -/
def deleteReplaced (d : Driver) (track : PointerTrack) (intoVolatile : Bool) : Outcome :=
  match track.currPtr with
  | none => ⟨.success, if intoVolatile then .done else .flush, d⟩
  | some currPtr =>
      let (status, d) := deleteRecords P d track currPtr
      ⟨status, if status.isError || intoVolatile then .done else .flush, d⟩

/-- A record of a track, when the track points into the store being reclaimed. -/
def trackedIn (isVolatile : Bool) (track : PointerTrack) (ptr : Option Nat) : Option Nat :=
  if track.isVolatile == isVolatile then ptr else none

/-- More bytes than a quota has left. -/
def exceeds (quota total size : Nat) : Bool :=
  decide (quota < size + total)

section Quota

variable (d : Driver) (req : UpdateRequest) (next : Bytes)

/-- `EFI_VARIABLE_HARDWARE_ERROR_RECORD` is requested. -/
def UpdateRequest.isHwErr : Bool :=
  hasAttribute req.attributes efiVariableHardwareErrorRecord

/-- `IsCommonUserVariable`. -/
def isCommonUserVariable : Bool :=
  !req.isHwErr && isUserVariable P d next

def overHwErr : Bool :=
  req.isHwErr && exceeds P.pcdHwErrStorageSize d.hwErrVariableTotalSize next.length

def overCommon : Bool :=
  !req.isHwErr && exceeds P.commonVariableSpace d.commonVariableTotalSize next.length

def overRuntime : Bool :=
  !req.isHwErr && exceeds P.commonRuntimeVariableSpace d.commonVariableTotalSize next.length

def overUser : Bool :=
  isCommonUserVariable P d req next &&
    exceeds P.commonMaxUserVariableSpace d.commonUserVariableTotalSize next.length

/-- The record does not fit into what the quotas have left. -/
def overQuota : Bool :=
  overHwErr P d req next || overCommon P d req next ||
    (d.atRuntime && overRuntime P d req next) || overUser P d req next

end Quota

/-- Install a record in the non-volatile store. -/
def installNonVolatile (d : Driver) (req : UpdateRequest) (track : PointerTrack)
    (next : Bytes) : Outcome :=
  if overQuota P d req next then
    if d.atRuntime then
      ⟨.outOfResources, .recordErrors (overUser P d req next) (overRuntime P d req next), d⟩
    else
      let (status, d) := reclaim P d false
        (trackedIn false track track.currPtr)
        (trackedIn false track track.inDeletedTransitionPtr) (some (padRecord next))
      if status.isError then
        ⟨status, .recordErrors (overUser P d req next) (overCommon P d req next), d⟩
      else ⟨status, .flush, d⟩
  else
    let (status, d) := writeRecord P d next req.isHwErr (isCommonUserVariable P d req next)
    if status.isError then ⟨status, .done, d⟩
    else deleteReplaced P d track false

/-- Install a record in the volatile store. -/
def installVolatile (d : Driver) (track : PointerTrack) (next : Bytes) : Outcome :=
  let varSize := next.length
  if storeSize d.volatileStore < (varSize + d.volatileLastVariableOffset) % 2 ^ 32 then
    let (status, d) := reclaim P d true
      (trackedIn true track track.currPtr)
      (trackedIn true track track.inDeletedTransitionPtr) (some (padRecord next))
    ⟨status, .done, d⟩
  else
    let (status, d) := updateVariableStore P d true d.volatileLastVariableOffset
      (next.set 2 varAdded)
    if status.isError then ⟨status, .done, d⟩
    else
      deleteReplaced P
        { d with
          volatileLastVariableOffset := d.volatileLastVariableOffset + headerAlign varSize }
        track true

/-- Memory of the record a track points to. -/
def trackedRecord (d : Driver) (track : PointerTrack) (currPtr : Nat) : Bytes :=
  (d.updatedStore track.isVolatile).drop currPtr

/-- The common part: create the record with `data` and install it. -/
def installVariable (d : Driver) (req : UpdateRequest) (track : PointerTrack)
    (data : Bytes) : Outcome :=
  let old := track.currPtr.map (trackedRecord d track)
  let next := buildVariable P.authFormat req old data
  if hasAttribute req.attributes efiVariableNonVolatile then
    installNonVolatile P d req track next
  else installVolatile P d track next

/-- The data of the new record: for an append the old data followed by the new,
`none` when that is longer than a variable may be. -/
def mergedData (req : UpdateRequest) (old : Bytes) : Option Bytes :=
  if req.isAppend then
    let dataOffset := getVariableDataOffset P.authFormat old
    let maxDataSize :=
      if hasAttribute req.attributes efiVariableHardwareErrorRecord then
        uintnSub P.pcdMaxHardwareErrorVariableSize dataOffset
      else if hasAttribute req.attributes variableAttributeAtAw then
        uintnSub P.maxAuthVariableSize dataOffset
      else uintnSub P.maxVariableSize dataOffset
    if maxDataSize < dataSizeOfVariable P.authFormat old + req.data.length then none
    else some (variableContents P.authFormat old ++ req.data)
  else some req.data

/-- The request has the data the variable already has, without append and timestamp. -/
def isUnchanged (req : UpdateRequest) (old : Bytes) : Bool :=
  dataSizeOfVariable P.authFormat old == req.data.length &&
    req.data == (getVariableDataPtr P.authFormat old).take req.data.length &&
    !req.isAppend && req.timeStamp.isNone

/-- The part for a variable that exists, at `currPtr`. -/
def updateExisting (d : Driver) (req : UpdateRequest) (track : PointerTrack)
    (currPtr : Nat) : Outcome :=
  let old := trackedRecord d track currPtr
  if d.atRuntime && track.isVolatile then ⟨.writeProtected, .done, d⟩
  else if d.atRuntime && !hasAttribute (attributes old) efiVariableNonVolatile then
    ⟨.invalidParameter, .done, d⟩
  else if d.atRuntime && !hasAttribute (attributes old) efiVariableRuntimeAccess then
    ⟨.invalidParameter, .done, d⟩
  else if req.isDelete then
    let (status, d) := deleteRecords P d track currPtr
    ⟨status, if status.isError || track.isVolatile then .done else .flush, d⟩
  else if isUnchanged P req old then ⟨.success, .done, d⟩
  else if isLive old then
    match mergedData P req old with
    | none => ⟨.invalidParameter, .done, d⟩
    | some data =>
        let (status, d) := writeState P d track.isVolatile currPtr varInDeletedTransition
        if status.isError then ⟨status, .done, d⟩
        else installVariable P d req track data
  else installVariable P d req track req.data

/-- The part for a variable that does not exist. -/
def updateAbsent (d : Driver) (req : UpdateRequest) (track : PointerTrack) : Outcome :=
  if req.data.isEmpty && req.isAppend then ⟨.success, .done, d⟩
  else if req.data.isEmpty ||
      !hasAttribute req.attributes
        (efiVariableRuntimeAccess ||| efiVariableBootserviceAccess) then
    ⟨.notFound, .done, d⟩
  else if d.atRuntime && (!hasAttribute req.attributes efiVariableRuntimeAccess ||
      !hasAttribute req.attributes efiVariableNonVolatile) then
    ⟨.invalidParameter, .done, d⟩
  else installVariable P d req track req.data

/-- `UpdateVariable` up to its last action. -/
def updateVariableBody (d : Driver) (req : UpdateRequest) (cacheVariable : PointerTrack) :
    Outcome :=
  if !d.fvbInstance && (hasAttribute req.attributes efiVariableNonVolatile ||
      hasAttribute req.attributes variableAttributeAtAw) then
    ⟨.notAvailableYet, .done, d⟩
  else
    match redirectHob P d req cacheVariable with
    | none => ⟨.success, .flush, d⟩
    | some track =>
        match track.currPtr with
        | none => updateAbsent P d req track
        | some currPtr => updateExisting P d req track currPtr

end Body

section ErrorFlag

/-- `VAR_ERROR_FLAG_NAME`. -/
def varErrorFlagName : Char16Str :=
  ⟨[0x56, 0x61, 0x72, 0x45, 0x72, 0x72, 0x6f, 0x72, 0x46, 0x6c, 0x61, 0x67], by decide⟩

/-- `gEdkiiVarErrorFlagGuid`. -/
def edkiiVarErrorFlagGuid : Guid :=
  ⟨[0xe8, 0x7f, 0xb3, 0x04, 0xae, 0xf6, 0x0b, 0x48,
    0xbd, 0xd5, 0x37, 0xd9, 0x8c, 0x5e, 0x89, 0xaa], by decide⟩

def varErrorFlagNoError : UInt8 := 0xff
def varErrorFlagSystemError : UInt8 := 0xef
def varErrorFlagUserError : UInt8 := 0xfe

variable (P : Platform)

/-- `VarErrFlag` in the NV cache: the address and value of the variable's data.  The
pointer arithmetic of the source is only meaningful for a variable found there. -/
def findVarErrorFlag (d : Driver) : Option (Nat × UInt8) :=
  let track := findVariable P d varErrorFlagName edkiiVarErrorFlagGuid false
  match track.currPtr with
  | none => none
  | some currPtr =>
      if track.type == .nv then
        let offset := currPtr +
          getVariableDataOffset P.authFormat (d.mNvVariableCache.drop currPtr)
        some (offset, d.mNvVariableCache.getD offset 0)
      else none

/-- `RecordVarErrorFlag`. -/
def recordVarErrorFlag (d : Driver) (flag : UInt8) : Driver :=
  if !d.mEndOfDxe then
    { d with mCurrentBootVarErrFlag := d.mCurrentBootVarErrFlag &&& flag }
  else
    match findVarErrorFlag P d with
    | none => d
    | some (offset, varErrFlag) =>
        let tempFlag := varErrFlag &&& flag
        if tempFlag == varErrFlag then d
        else
          let (status, d) := updateVariableStore P d false offset [tempFlag]
          if status.isError then d
          else { d with mNvVariableCache := copyMem d.mNvVariableCache offset [flag] }

/-- The calls of `RecordVarErrorFlag` at the end of `UpdateVariable`. -/
def recordErrors (d : Driver) (user system : Bool) : Driver :=
  let d := if user then recordVarErrorFlag P d varErrorFlagUserError else d
  if system then recordVarErrorFlag P d varErrorFlagSystemError else d

end ErrorFlag

section Flush

variable (P : Platform)

/-- `UpdateVariable` while `HobVariableBase` is zero: there is nothing to flush. -/
def updateVariableFlushed (d : Driver) (req : UpdateRequest) (cacheVariable : PointerTrack) :
    EfiStatus × Driver :=
  let outcome := updateVariableBody P d req cacheVariable
  match outcome.exit with
  | .recordErrors user system => (outcome.status, recordErrors P outcome.driver user system)
  | _ => (outcome.status, outcome.driver)

/-- The request that flushes the HOB variable at an address. -/
def hobRequest (ptr : Bytes) : UpdateRequest where
  variableName := readChar16Str (getVariableNamePtr P.authFormat ptr)
  vendorGuid := vendorGuid P.authFormat ptr
  data := variableContents P.authFormat ptr
  attributes := attributes ptr
  keyIndex := 0
  monotonicCount := 0
  timeStamp := none

/-- The HOB store, the driver and `ErrorFlag` while HOB variables are flushed. -/
structure FlushState where
  hob : Bytes
  driver : Driver
  errorFlag : Bool

/-- One HOB variable; `updated` is the name and GUID that need not be flushed. -/
def flushHobVariable (updated : Option (Char16Str × Guid)) (s : FlushState) (ptr : Nat) :
    FlushState :=
  let current := s.hob.drop ptr
  if state current != varAdded then s
  else
    let req := hobRequest P current
    let (status, driver) :=
      if updated == some (req.variableName, req.vendorGuid) then (.success, s.driver)
      else
        updateVariableFlushed P s.driver req
          (findVariable P s.driver req.variableName req.vendorGuid false)
    if status.isError then { s with driver := driver, errorFlag := true }
    else
      { s with
        hob := copyMem s.hob (ptr + 2) [state current &&& varDeleted]
        driver := driver }

/-- `FlushHobVariableToFlash`. -/
def flushHobVariableToFlash (d : Driver) (updated : Option (Char16Str × Guid)) : Driver :=
  match d.hob with
  | none => d
  | some hob =>
      let s := (storeWalk P.authFormat hob).foldl (flushHobVariable P updated)
        ⟨hob, { d with hob := none }, false⟩
      if s.errorFlag then { s.driver with hob := some s.hob } else s.driver

/-- `UpdateVariable`. -/
def updateVariable (d : Driver) (req : UpdateRequest) (cacheVariable : PointerTrack) :
    EfiStatus × Driver :=
  let outcome := updateVariableBody P d req cacheVariable
  match outcome.exit with
  | .done => (outcome.status, outcome.driver)
  | .flush =>
      (outcome.status,
        flushHobVariableToFlash P outcome.driver (some (req.variableName, req.vendorGuid)))
  | .recordErrors user system =>
      (outcome.status, recordErrors P outcome.driver user system)

end Flush

end Variable
end Udk
