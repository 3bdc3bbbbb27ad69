import Udk.PiSmmCore.Page

/-!
# SMM pool services

`Pool.c` of the SMM core.  A block is named by the address of its header; the headers are
a function of the address, so that it can be followed how they are rewritten.  No state
is the result where an `ASSERT` fails.
-/

namespace Udk
namespace PiSmmCore

open PropertiesTable

/-- `MIN_POOL_SHIFT`. -/
def minPoolShift : Nat := 6

/-- `MIN_POOL_SIZE`. -/
def minPoolSize : Nat := 64

/-- `MAX_POOL_SIZE`. -/
def maxPoolSize : Nat := 2048

/-- `MAX_POOL_INDEX`. -/
def maxPoolIndex : Nat := 6

/-- `sizeof (POOL_HEADER)`. -/
def sizeOfPoolHeader : Nat := 16

/-- `POOL_HEADER`. -/
structure PoolHeader where
  size : Nat
  available : Bool
deriving DecidableEq

/-- A buffer that a caller holds: the address of its header, the size of its block and the
size that was asked for. -/
structure LiveBlock where
  address : Nat
  size : Nat
  requested : Nat
deriving DecidableEq

/-- The state of the pool services. -/
structure PoolState where
  mSmmMemoryMap : MemoryMap
  headers : Nat → PoolHeader
  /-- The blocks on each list, the first node first. -/
  mSmmPoolLists : Nat → List Nat
  /-- No field of the source: the buffers that callers hold. -/
  live : List LiveBlock

namespace PoolState

/-- An assignment to a header. -/
def setHeader (s : PoolState) (address : Nat) (header : PoolHeader) : PoolState :=
  { s with headers := Function.update s.headers address header }

/-- `InsertHeadList (&mSmmPoolLists[PoolIndex], &Hdr->Link)`. -/
def insertHead (s : PoolState) (poolIndex address : Nat) : PoolState :=
  { s with
    mSmmPoolLists :=
      Function.update s.mSmmPoolLists poolIndex (address :: s.mSmmPoolLists poolIndex) }

/-- The first node of a list is removed. -/
def removeFirst (s : PoolState) (poolIndex : Nat) : PoolState :=
  { s with
    mSmmPoolLists := Function.update s.mSmmPoolLists poolIndex (s.mSmmPoolLists poolIndex).tail }

end PoolState

/-- `SmmInternalAllocatePages` for `AllocateAnyPages`, on the state of the pool. -/
def allocateAnyPages (s : PoolState) (memoryType : UInt32) (numberOfPages : Nat) :
    Option (EfiStatus × Nat × PoolState) :=
  s.mSmmMemoryMap.map fun nodes =>
    let result := smmInternalAllocatePages nodes .allocateAnyPages memoryType numberOfPages 0
    (result.status, result.memory, { s with mSmmMemoryMap := result.map })

/-- `MIN_POOL_SIZE << PoolIndex`. -/
def poolSize (poolIndex : Nat) : Nat :=
  minPoolSize <<< poolIndex

/-- `InternalAllocPoolByIndex` for `PoolIndex = MAX_POOL_INDEX - levels`: the block, none
for `EFI_OUT_OF_RESOURCES`. -/
def internalAllocPoolByIndex : Nat → PoolState → Option (Option Nat × PoolState)
  | 0, s =>
    match allocateAnyPages s efiRuntimeServicesData (efiSizeToPages (maxPoolSize <<< 1)) with
    | none => none
    | some (.success, hdr, s) =>
      some (some hdr, s.setHeader hdr ⟨poolSize maxPoolIndex, false⟩)
    | some (_, _, s) => some (none, s)
  | levels + 1, s =>
    let poolIndex := maxPoolIndex - (levels + 1)
    match s.mSmmPoolLists poolIndex with
    | hdr :: _ =>
      some (some hdr, (s.removeFirst poolIndex).setHeader hdr ⟨poolSize poolIndex, false⟩)
    | [] =>
      match internalAllocPoolByIndex levels s with
      | none => none
      | some (none, s) => some (none, s)
      | some (some hdr, s) =>
        let size := (s.headers hdr).size >>> 1
        let s := (s.setHeader hdr ⟨size, true⟩).insertHead poolIndex hdr
        let second := add64 hdr size
        some (some second, s.setHeader second ⟨poolSize poolIndex, false⟩)

/-- `HighBitSet32`, as an unsigned index: -1 for zero. -/
def highBitSet32 (operand : Nat) : Nat :=
  if operand % 2 ^ 32 = 0 then 2 ^ 64 - 1 else Nat.log2 (operand % 2 ^ 32)

/-- What an allocation returns: the status, the buffer when there is one, and the state. -/
structure PoolResult where
  status : EfiStatus
  buffer : Option Nat
  state : PoolState

/-- `SmmInternalAllocatePool` for a size, with the header, above `MAX_POOL_SIZE`. -/
def allocatePoolPages (s : PoolState) (poolType : UInt32) (requested size : Nat) :
    Option PoolResult :=
  let pages := efiSizeToPages size
  (allocateAnyPages s poolType pages).map fun result =>
    match result with
    | (.success, address, s) =>
      let s := s.setHeader address ⟨efiPagesToSize pages, false⟩
      ⟨.success, some (add64 address sizeOfPoolHeader),
        { s with live := ⟨address, efiPagesToSize pages, requested⟩ :: s.live }⟩
    | (status, _, s) => ⟨status, none, s⟩

/-- The index of the list for a size with its header. -/
def poolIndexOf (size : Nat) : Nat :=
  let size := (size + minPoolSize - 1) >>> minPoolShift
  let poolIndex := highBitSet32 size
  if size &&& sub64 size 1 ≠ 0 then add64 poolIndex 1 else poolIndex

/-- `SmmInternalAllocatePool` for a size, with the header, up to `MAX_POOL_SIZE`. -/
def allocatePoolBlock (s : PoolState) (requested size : Nat) : Option PoolResult :=
  let poolIndex := poolIndexOf size
  if poolIndex > maxPoolIndex then none
  else
    (internalAllocPoolByIndex (maxPoolIndex - poolIndex) s).map fun result =>
      match result with
      | (some hdr, s) =>
        ⟨.success, some (add64 hdr sizeOfPoolHeader),
          { s with live := ⟨hdr, poolSize poolIndex, requested⟩ :: s.live }⟩
      | (none, s) => ⟨.outOfResources, none, s⟩

/-- `SmmInternalAllocatePool`. -/
def smmInternalAllocatePool (s : PoolState) (poolType : UInt32) (requested : Nat) :
    Option PoolResult :=
  if poolType ≠ efiRuntimeServicesCode ∧ poolType ≠ efiRuntimeServicesData then
    some ⟨.invalidParameter, none, s⟩
  else
    let size := add64 requested sizeOfPoolHeader
    if size > maxPoolSize then allocatePoolPages s poolType requested size
    else allocatePoolBlock s requested size

/-- `InternalFreePoolByIndex`. -/
def internalFreePoolByIndex (s : PoolState) (hdr : Nat) : Option PoolState :=
  let size := (s.headers hdr).size
  let poolIndex := sub64 (highBitSet32 size) minPoolShift
  if size &&& sub64 size 1 = 0 ∧ hdr &&& sub64 size 1 = 0 ∧ size ≥ minPoolSize ∧
      poolIndex < maxPoolIndex then
    some ((s.setHeader hdr ⟨size, true⟩).insertHead poolIndex hdr)
  else none

/-- The caller that freed a block does not hold it any more. -/
def PoolState.release (s : PoolState) (hdr : Nat) : PoolState :=
  { s with live := s.live.filter fun block => decide (block.address ≠ hdr) }

/-- `SmmInternalFreePool` for a block of pages. -/
def freePoolPages (s : PoolState) (hdr : Nat) : Option (EfiStatus × PoolState) :=
  if hdr % efiPageSize = 0 ∧ (s.headers hdr).size % efiPageSize = 0 then
    s.mSmmMemoryMap.map fun nodes =>
      let result := smmInternalFreePages nodes hdr (efiSizeToPages (s.headers hdr).size)
      (result.1, { s with mSmmMemoryMap := result.2 })
  else none

/-- `SmmInternalFreePool`. -/
def smmInternalFreePool (s : PoolState) (buffer : Option Nat) : Option (EfiStatus × PoolState) :=
  match buffer with
  | none => some (.invalidParameter, s)
  | some buffer =>
    let hdr := sub64 buffer sizeOfPoolHeader
    if (s.headers hdr).available then none
    else if (s.headers hdr).size > maxPoolSize then freePoolPages (s.release hdr) hdr
    else (internalFreePoolByIndex (s.release hdr) hdr).map fun s => (.success, s)

end PiSmmCore
end Udk
