import Udk.VersionLog
import Udk.Variable.Format

/-!
# Walking a variable store

A pointer into a store is the offset from the store header.  Every loop of the
driver over a store has the shape

    for (Variable = GetStartPointer (Store);
         IsValidVariableHeader (Variable, GetEndPointer (Store));
         Variable = GetNextVariablePtr (Variable))

and is a fold over `storeWalk`, the offsets such a loop visits; `storeWalkEnd` is
the value of the loop variable at the end.
-/

namespace Udk
namespace Variable

/-- `sizeof (VARIABLE_STORE_HEADER)`. -/
def storeHeaderSize : Nat := 28

/-- The `Size` field of a store header. -/
def storeSize (store : Bytes) : Nat :=
  field store 16 4

/-- `GetStartPointer`. -/
def getStartPointer : Nat :=
  headerAlign storeHeaderSize

/-- `GetEndPointer`. -/
def getEndPointer (store : Bytes) : Nat :=
  headerAlign (storeSize store)

/-- `IsValidVariableHeader`. -/
def isValidVariableHeader (store : Bytes) (endPtr ptr : Nat) : Bool :=
  decide (ptr < endPtr) && startId (store.drop ptr) == variableData

section Walk

variable (authFormat : Bool) (store : Bytes)

/-- `GetNextVariablePtr`. -/
def getNextVariablePtr (ptr : Nat) : Nat :=
  headerAlign (ptr + variableSize authFormat (store.drop ptr))

/-- Offsets visited from `ptr` on, in at most `fuel` steps. -/
def walkFrom (endPtr : Nat) : Nat → Nat → List Nat
  | 0, _ => []
  | fuel + 1, ptr =>
      if isValidVariableHeader store endPtr ptr then
        ptr :: walkFrom endPtr fuel (getNextVariablePtr authFormat store ptr)
      else []

/-- Where a walk of at most `fuel` steps stops. -/
def walkFromEnd (endPtr : Nat) : Nat → Nat → Nat
  | 0, ptr => ptr
  | fuel + 1, ptr =>
      if isValidVariableHeader store endPtr ptr then
        walkFromEnd endPtr fuel (getNextVariablePtr authFormat store ptr)
      else ptr

/-- Offsets of the records of a store.  Each step is longer than a byte, so the
length of the store bounds their number. -/
def storeWalk : List Nat :=
  walkFrom authFormat store (getEndPointer store) store.length getStartPointer

/-- Offset at which a walk of the whole store stops. -/
def storeWalkEnd : Nat :=
  walkFromEnd authFormat store (getEndPointer store) store.length getStartPointer

/-- `NextVariable - Variable`. -/
def recordSize (ptr : Nat) : Nat :=
  getNextVariablePtr authFormat store ptr - ptr

variable {authFormat store}

theorem lt_getNextVariablePtr
    (authFormat : Bool) (store : Bytes) (ptr : Nat) :
    ptr + 32 ≤ getNextVariablePtr authFormat store ptr := by
  have hle := le_headerAlign (ptr + variableSize authFormat (store.drop ptr))
  have hhdr : 32 ≤ getVariableHeaderSize authFormat := by
    cases authFormat <;> decide
  unfold getNextVariablePtr
  unfold variableSize getVariableDataOffset at *
  omega

end Walk

section Find

variable (authFormat : Bool)

/-- The record is added or in transition. -/
def isLive (ptr : Bytes) : Bool :=
  state ptr == varAdded || state ptr == varInTransition

/-- The record has the given name and GUID, as `FindVariableEx` compares them.
The empty name stands for every variable.  `CompareMem` takes the name size of
the record; bytes behind the terminator of the given name never match. -/
def nameMatches (name : Char16Str) (guid : Guid) (ptr : Bytes) : Bool :=
  name.chars.isEmpty ||
    (guid == vendorGuid authFormat ptr &&
      name.bytes.take (nameSizeOfVariable authFormat ptr) == variableName authFormat ptr)

/-- The record may be seen: always at boot time, else only with runtime access. -/
def isVisible (ignoreRtCheck atRuntime : Bool) (ptr : Bytes) : Bool :=
  ignoreRtCheck || !atRuntime || hasAttribute (attributes ptr) efiVariableRuntimeAccess

/-- `FindVariableEx`: `CurrPtr` and `InDeletedTransitionPtr` of the pointer track. -/
def findVariableEx (store : Bytes) (name : Char16Str) (guid : Guid)
    (ignoreRtCheck atRuntime : Bool) : Option Nat × Option Nat :=
  let candidate (ptr : Nat) : Bool :=
    isVisible ignoreRtCheck atRuntime (store.drop ptr) &&
      nameMatches authFormat name guid (store.drop ptr)
  VersionLog.scan
    (fun ptr => state (store.drop ptr) == varAdded && candidate ptr)
    (fun ptr => state (store.drop ptr) == varInTransition && candidate ptr)
    (storeWalk authFormat store) none

end Find

end Variable
end Udk
