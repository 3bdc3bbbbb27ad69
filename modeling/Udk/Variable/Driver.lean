import Udk.Variable.Store

/-!
# State of the variable driver and the two ways it writes a store

`UpdateVariableStore` writes a few bytes in place, block by block through the FVB
protocol; `FtwVariableSpace` replaces the whole non-volatile store through the
fault tolerant write protocol.  Both protocols and the pool allocator lie outside the driver.  Whether
their next calls fail is listed in `faults`, so that a run of the driver is a
function of its state.

Flash is the variable store region of the firmware volume, addressed from the
store header as the driver addresses it; bytes of the volume behind the region
are not kept.
-/

namespace Udk
namespace Variable

/-- Status codes the driver returns. -/
inductive EfiStatus where
  | success
  | invalidParameter
  | bufferTooSmall
  | notFound
  | outOfResources
  | writeProtected
  | notAvailableYet
  | securityViolation
  | deviceError
  | aborted
  | accessDenied
deriving DecidableEq, Repr

/-- `EFI_ERROR`. -/
def EfiStatus.isError (status : EfiStatus) : Bool :=
  status != .success

/-- How the flash part behind the FVB protocol programs a byte. -/
inductive FlashKind where
  /-- A write stores its bytes. -/
  | rewritable
  /-- A write can only clear bits. -/
  | nor
deriving DecidableEq

/-- Content of a flash byte after `new` has been written to it. -/
def FlashKind.combine : FlashKind → UInt8 → UInt8 → UInt8
  | .rewritable, _, new => new
  | .nor, old, new => old &&& new

/-- The platform's choices, with the assertions of `InitNonVolatileVariableStore`. -/
structure Platform where
  flashKind : FlashKind
  authFormat : Bool
  /-- Lengths of the blocks of the firmware volume, in LBA order. -/
  blockLengths : List Nat
  /-- `HeaderLength` of the firmware volume: offset of the variable store in it. -/
  headerLength : Nat
  /-- `VariableStoreLength`. -/
  storeLength : Nat
  pcdHwErrStorageSize : Nat
  pcdMaxUserNvVariableSpaceSize : Nat
  pcdBoottimeReservedNvVariableSpaceSize : Nat
  pcdMaxVariableSize : Nat
  pcdMaxAuthVariableSize : Nat
  pcdMaxHardwareErrorVariableSize : Nat
  /-- `VarCheckLibVariablePropertyGet` finds a property. -/
  hasProperty : Char16Str → Guid → Bool
  /-- Flash blocks and firmware volume headers have word-aligned lengths. -/
  storeLength_mod : storeLength % 4 = 0
  hwErr_lt : pcdHwErrStorageSize < storeLength - storeHeaderSize
  maxUser_lt : pcdMaxUserNvVariableSpaceSize < storeLength - storeHeaderSize - pcdHwErrStorageSize
  reserved_lt :
    pcdBoottimeReservedNvVariableSpaceSize < storeLength - storeHeaderSize - pcdHwErrStorageSize

namespace Platform

variable (P : Platform)

/-- `FvLength`. -/
def fvLength : Nat :=
  P.blockLengths.sum

/-- `CommonVariableSpace`. -/
def commonVariableSpace : Nat :=
  P.storeLength - storeHeaderSize - P.pcdHwErrStorageSize

/-- `CommonMaxUserVariableSpace`. -/
def commonMaxUserVariableSpace : Nat :=
  if P.pcdMaxUserNvVariableSpaceSize != 0 then P.pcdMaxUserNvVariableSpaceSize
  else P.commonVariableSpace

/-- `CommonRuntimeVariableSpace`. -/
def commonRuntimeVariableSpace : Nat :=
  P.commonVariableSpace - P.pcdBoottimeReservedNvVariableSpaceSize

/-- `MaxVariableSize`. -/
def maxVariableSize : Nat :=
  P.pcdMaxVariableSize

/-- `MaxAuthVariableSize`. -/
def maxAuthVariableSize : Nat :=
  if P.pcdMaxAuthVariableSize != 0 then P.pcdMaxAuthVariableSize else P.maxVariableSize

/-- Program bytes of the variable store region. -/
def program (flash : Bytes) (offset : Nat) (bs : Bytes) : Bytes :=
  overlay P.flashKind.combine flash offset bs

end Platform

/-- `VARIABLE_STORE_TYPE`. -/
inductive StoreType where
  | volatile
  | hob
  | nv
deriving DecidableEq

/-- `VARIABLE_POINTER_TRACK`.  `StartPtr`, `EndPtr` and `Volatile` follow from the store. -/
structure PointerTrack where
  currPtr : Option Nat
  inDeletedTransitionPtr : Option Nat
  type : StoreType
deriving DecidableEq

/-- `Volatile` of a pointer track. -/
def PointerTrack.isVolatile (track : PointerTrack) : Bool :=
  track.type == .volatile

/-- Whether the next calls of a service fail; calls behind the end of a list succeed. -/
structure Faults where
  fvb : List Bool
  ftw : List Bool
  pool : List Bool
deriving DecidableEq

/-- Every call succeeds. -/
def Faults.none : Faults := ⟨[], [], []⟩

/-- `VARIABLE_MODULE_GLOBAL`, the globals of the driver and the memory they point to. -/
structure Driver where
  /-- Store at `HobVariableBase`, when that is not zero. -/
  hob : Option Bytes
  volatileStore : Bytes
  /-- Store at `NonVolatileVariableBase`. -/
  flash : Bytes
  mNvVariableCache : Bytes
  /-- `FvbInstance` is not NULL. -/
  fvbInstance : Bool
  volatileLastVariableOffset : Nat
  nonVolatileLastVariableOffset : Nat
  commonVariableTotalSize : Nat
  commonUserVariableTotalSize : Nat
  hwErrVariableTotalSize : Nat
  mEndOfDxe : Bool
  atRuntime : Bool
  mCurrentBootVarErrFlag : UInt8
  /-- Outcomes of the next calls out of the driver (not kept by the code). -/
  faults : Faults
  /-- Flash contents after each store write so far, the latest first (not kept by the code). -/
  history : List Bytes

section Write

variable (P : Platform)

/-- `Fvb->Write` of bytes that lie in one block. -/
def fvbWrite (d : Driver) (offset : Nat) (buffer : Bytes) : EfiStatus × Driver :=
  let rest := { d with faults := { d.faults with fvb := d.faults.fvb.tail } }
  if d.faults.fvb.headD false then (.deviceError, rest)
  else (.success, { rest with flash := P.program d.flash offset buffer })

/-- The loop of `UpdateVariableStore` over the block map.  `linearOffset` and `ptr`
count from the start of the firmware volume. -/
def writeBlocks : List Nat → Nat → Driver → Nat → Bytes → EfiStatus × Driver
  | [], _, d, _, _ => (.success, d)
  | length :: blocks, linearOffset, d, ptr, buffer =>
      if linearOffset ≤ ptr ∧ ptr < linearOffset + length then
        if ptr + buffer.length ≤ linearOffset + length then
          fvbWrite P d (ptr - P.headerLength) buffer
        else
          let size := linearOffset + length - ptr
          let (status, d) := fvbWrite P d (ptr - P.headerLength) (buffer.take size)
          if status.isError then (status, d)
          else writeBlocks blocks (linearOffset + length) d (linearOffset + length)
            (buffer.drop size)
      else writeBlocks blocks (linearOffset + length) d ptr buffer

/-- `UpdateVariableStore`, at an offset from the store header. -/
def updateVariableStore (d : Driver) (isVolatile : Bool) (dataPtr : Nat) (buffer : Bytes) :
    EfiStatus × Driver :=
  if isVolatile then
    if storeSize d.volatileStore ≤ dataPtr + buffer.length then (.invalidParameter, d)
    else (.success, { d with volatileStore := copyMem d.volatileStore dataPtr buffer })
  else if !d.fvbInstance then (.invalidParameter, d)
  else if P.fvLength ≤ P.headerLength + dataPtr + buffer.length then (.invalidParameter, d)
  else
    let (status, d) := writeBlocks P P.blockLengths 0 d (P.headerLength + dataPtr) buffer
    (status, { d with history := d.flash :: d.history })

/-- `FtwVariableSpace`: the store is replaced as a whole or not at all. -/
def ftwVariableSpace (d : Driver) (variableBuffer : Bytes) : EfiStatus × Driver :=
  let rest := { d with faults := { d.faults with ftw := d.faults.ftw.tail } }
  if d.faults.ftw.headD false then (.aborted, rest)
  else (.success, { rest with flash := variableBuffer, history := variableBuffer :: d.history })

end Write

section Lookup

variable (P : Platform)

/-- Memory a pointer track points into: the cache stands for the NV store. -/
def Driver.searchedStore (d : Driver) : StoreType → Option Bytes
  | .volatile => some d.volatileStore
  | .hob => d.hob
  | .nv => some d.mNvVariableCache

/-- Memory an update works on: flash is the NV store. -/
def Driver.updatedStore (d : Driver) (isVolatile : Bool) : Bytes :=
  if isVolatile then d.volatileStore else d.flash

/-- One store of `FindVariable`. -/
def findVariableIn (d : Driver) (name : Char16Str) (guid : Guid) (ignoreRtCheck : Bool)
    (type : StoreType) : PointerTrack :=
  match d.searchedStore type with
  | none => ⟨none, none, type⟩
  | some store =>
      let found := findVariableEx P.authFormat store name guid ignoreRtCheck d.atRuntime
      ⟨found.1, found.2, type⟩

/-- `FindVariable`: the volatile store, then the HOB, then the NV cache.  It returns
`EFI_SUCCESS` when `CurrPtr` is set. -/
def findVariable (d : Driver) (name : Char16Str) (guid : Guid) (ignoreRtCheck : Bool) :
    PointerTrack :=
  let inVolatile := findVariableIn P d name guid ignoreRtCheck .volatile
  let inHob := findVariableIn P d name guid ignoreRtCheck .hob
  if inVolatile.currPtr.isSome then inVolatile
  else if inHob.currPtr.isSome then inHob
  else findVariableIn P d name guid ignoreRtCheck .nv

/-- `IsUserVariable`, of a header in memory. -/
def isUserVariable (d : Driver) (ptr : Bytes) : Bool :=
  d.mEndOfDxe && P.commonMaxUserVariableSpace != P.commonVariableSpace &&
    !P.hasProperty (readChar16Str (getVariableNamePtr P.authFormat ptr))
      (vendorGuid P.authFormat ptr)

end Lookup

end Variable
end Udk
