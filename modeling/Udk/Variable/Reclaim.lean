import Udk.Variable.Driver

/-!
# Garbage collection

`Reclaim` rebuilds a store in a buffer: first the added records, then those in
transition that have no copy in the buffer yet, then the record of the running
update.  A volatile store takes the buffer over by a memory copy, the
non-volatile one through a fault tolerant write.
-/

namespace Udk
namespace Variable

/-- `CommonVariableTotalSize`, `CommonUserVariableTotalSize` and `HwErrVariableTotalSize`. -/
structure Totals where
  common : Nat
  user : Nat
  hwErr : Nat
deriving DecidableEq

/-- The record counts against the hardware error quota. -/
def isHwErrRecord (ptr : Bytes) : Bool :=
  hasAttribute (attributes ptr) efiVariableHardwareErrorRecord

/-- The totals of the driver. -/
def Driver.totals (d : Driver) : Totals :=
  ⟨d.commonVariableTotalSize, d.commonUserVariableTotalSize, d.hwErrVariableTotalSize⟩

def Driver.setTotals (d : Driver) (totals : Totals) : Driver :=
  { d with
    commonVariableTotalSize := totals.common
    commonUserVariableTotalSize := totals.user
    hwErrVariableTotalSize := totals.hwErr }

/-- The part of `[ValidBuffer, CurrPtr)` written so far and its totals. -/
structure ReclaimBuffer where
  bytes : Bytes
  totals : Totals

/-- The buffer as memory: erased behind `CurrPtr`. -/
def validBuffer (size : Nat) (bytes : Bytes) : Bytes :=
  (bytes ++ List.replicate (size - bytes.length) 0xff).take size

section Reclaim

variable (P : Platform) (d : Driver)

/-- Add a record of `size` bytes to the totals. -/
def Totals.add (totals : Totals) (ptr : Bytes) (size : Nat) : Totals :=
  if isHwErrRecord ptr then { totals with hwErr := totals.hwErr + size }
  else
    { totals with
      common := totals.common + size
      user := if isUserVariable P d ptr then totals.user + size else totals.user }

/-- Reinstall the record at `ptr`, promoted to `VAR_ADDED` where needed. -/
def ReclaimBuffer.install (buffer : ReclaimBuffer) (store : Bytes) (ptr : Nat)
    (promote : Bool) : ReclaimBuffer :=
  let size := recordSize P.authFormat store ptr
  let copy := slice store ptr size
  { bytes := buffer.bytes ++ (if promote then copy.set 2 varAdded else copy)
    totals := buffer.totals.add P d (store.drop ptr) size }

/-- Reinstall all added records but the one being updated. -/
def reinstallAdded (store : Bytes) (updating : Option Nat) (buffer : ReclaimBuffer) :
    ReclaimBuffer :=
  (storeWalk P.authFormat store).foldl (fun buffer ptr =>
    if updating != some ptr && state (store.drop ptr) == varAdded then
      buffer.install P d store ptr false
    else buffer) buffer

/-- `FoundAdded`: the buffer has a record with the name and GUID of the given one. -/
def foundAdded (size : Nat) (bytes ptr : Bytes) : Bool :=
  let valid := validBuffer size bytes
  (storeWalk P.authFormat valid).any (fun added =>
    vendorGuid P.authFormat (valid.drop added) == vendorGuid P.authFormat ptr &&
      nameSizeOfVariable P.authFormat (valid.drop added) ==
        nameSizeOfVariable P.authFormat ptr &&
      variableName P.authFormat (valid.drop added) == variableName P.authFormat ptr)

/-- Reinstall the records in transition that have no added copy. -/
def reinstallInTransition (store : Bytes) (updating updatingInTransition : Option Nat)
    (buffer : ReclaimBuffer) : ReclaimBuffer :=
  (storeWalk P.authFormat store).foldl (fun buffer ptr =>
    if updating != some ptr && updatingInTransition != some ptr &&
        state (store.drop ptr) == varInTransition &&
        !foundAdded P (storeSize store) buffer.bytes (store.drop ptr) then
      buffer.install P d store ptr true
    else buffer) buffer

/-- What survives a reclaim of `store`, behind a copy of the store header. -/
def reinstall (store : Bytes) (updating updatingInTransition : Option Nat) : ReclaimBuffer :=
  reinstallInTransition P d store updating updatingInTransition
    (reinstallAdded P d store updating
      ⟨slice store 0 storeHeaderSize, ⟨0, 0, 0⟩⟩)

/-- Install the new record; `none` when there is no room for it in the store or,
for a non-volatile store, in the quotas. -/
def installNew (isVolatile : Bool) (size : Nat) (buffer : ReclaimBuffer)
    (newVariable : Option Bytes) : Option ReclaimBuffer :=
  match newVariable with
  | none => some buffer
  | some new =>
      let totals := buffer.totals.add P d new new.length
      if size < buffer.bytes.length + new.length then none
      else if !isVolatile && (decide (P.pcdHwErrStorageSize < totals.hwErr) ||
          decide (P.commonVariableSpace < totals.common) ||
          decide (P.commonMaxUserVariableSpace < totals.user)) then none
      else some ⟨buffer.bytes ++ new.set 2 varAdded, totals⟩

/-- The buffer a reclaim builds; `none` when the new record does not fit. -/
def reclaimBuffer (isVolatile : Bool) (store : Bytes) (updating updatingInTransition : Option Nat)
    (newVariable : Option Bytes) : Option ReclaimBuffer :=
  installNew P d isVolatile (storeSize store)
    (reinstall P d store updating updatingInTransition) newVariable

/-- `Reclaim` of the volatile store. -/
def reclaimVolatile (updating updatingInTransition : Option Nat) (newVariable : Option Bytes) :
    EfiStatus × Driver :=
  let store := d.volatileStore
  -- `ValidBuffer` is allocated from pool.
  let rest := { d with faults := { d.faults with pool := d.faults.pool.tail } }
  if d.faults.pool.headD false then (.outOfResources, rest)
  else
    match reclaimBuffer P d true store updating updatingInTransition newVariable with
    | none => (.outOfResources, rest)
    | some buffer =>
        (.success,
          { rest with
            volatileStore := validBuffer (storeSize store) buffer.bytes
            volatileLastVariableOffset := buffer.bytes.length })

/-- Sizes of all records of the flash store are added to the totals of the driver. -/
def recountFlash : Driver :=
  let totals := (storeWalk P.authFormat d.flash).foldl (fun totals ptr =>
    Totals.add P d totals (d.flash.drop ptr) (recordSize P.authFormat d.flash ptr)) d.totals
  { d.setTotals totals with
    nonVolatileLastVariableOffset := storeWalkEnd P.authFormat d.flash }

/-- The cache served as `ValidBuffer`: copy the flash store back. -/
def copyBackCache : Driver :=
  { d with
    mNvVariableCache :=
      copyMem d.mNvVariableCache 0 (slice d.flash 0 (storeSize d.flash)) }

/-- `Reclaim` of the non-volatile store. -/
def reclaimNv (updating updatingInTransition : Option Nat) (newVariable : Option Bytes) :
    EfiStatus × Driver :=
  match reclaimBuffer P d false d.flash updating updatingInTransition newVariable with
  | none => (.outOfResources, copyBackCache d)
  | some buffer =>
      let (status, d) := ftwVariableSpace d (validBuffer (storeSize d.flash) buffer.bytes)
      if status.isError then (status, copyBackCache (recountFlash P d))
      else
        (status, copyBackCache
          { d.setTotals buffer.totals with
            nonVolatileLastVariableOffset := buffer.bytes.length })

/-- `Reclaim`. -/
def reclaim (isVolatile : Bool) (updating updatingInTransition : Option Nat)
    (newVariable : Option Bytes) : EfiStatus × Driver :=
  if isVolatile then reclaimVolatile P d updating updatingInTransition newVariable
  else reclaimNv P d updating updatingInTransition newVariable

end Reclaim

end Variable
end Udk
