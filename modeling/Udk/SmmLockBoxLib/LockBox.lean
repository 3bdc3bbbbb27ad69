import Mathlib.Data.List.Pairwise
import Udk.ByteMemory

/-!
# The SMM lock box

`SmmLockBoxSmmLib.c` over a memory and the queue of lock boxes.  A box has its content in
SMRAM pages that are its own; each call records the ranges of SMRAM that it copies from or
to.  `w` is the width of `UINTN`; null pointers are `none` or the address 0.

What the page allocator and the pool allocator answer is part of a call.  `ASSERT`s are
empty, as in a release build.
-/

namespace Udk
namespace LockBox

universe u

inductive EfiStatus
  | success
  | invalidParameter
  | alreadyStarted
  | outOfResources
  | notFound
  | bufferTooSmall
  | writeProtected
  deriving DecidableEq, Repr

/-- `EFI_SIZE_TO_PAGES`. -/
def efiSizeToPages (size : Nat) : Nat :=
  size / 4096 + if size % 4096 ≠ 0 then 1 else 0

/-- `LOCK_BOX_ATTRIBUTE_RESTORE_IN_PLACE`. -/
def lockBoxAttributeRestoreInPlace : BitVec 64 := 1

/-- `SMM_LOCK_BOX_DATA`. -/
structure LockBoxData (Guid : Type u) where
  guid : Guid
  buffer : Nat
  length : Nat
  attributes : BitVec 64
  smramBuffer : Nat

/-- The bytes of the pages of a box. -/
def LockBoxData.room {Guid : Type u} (box : LockBoxData Guid) : Nat :=
  4096 * efiSizeToPages box.length

structure State (Guid : Type u) where
  memory : Memory
  lockBoxQueue : List (LockBoxData Guid)

/-- A range of SMRAM that is read or written for a box. -/
structure Access (Guid : Type u) where
  guid : Guid
  address : Nat
  length : Nat

/-- The status of a call, the state after it, its accesses and what it leaves in `*Length`. -/
structure Outcome (Guid : Type u) where
  status : EfiStatus
  state : State Guid
  accesses : List (Access Guid)
  length : Option Nat

section Calls

variable {Guid : Type u} [DecidableEq Guid]

/-- `InternalFindLockBoxByGuid`. -/
def internalFindLockBoxByGuid (queue : List (LockBoxData Guid)) (guid : Guid) :
    Option (LockBoxData Guid) :=
  queue.find? fun box => decide (box.guid = guid)

/-- The attributes of the box that `InternalFindLockBoxByGuid` finds are replaced. -/
def assignAttributes (guid : Guid) (attributes : BitVec 64) :
    List (LockBoxData Guid) → List (LockBoxData Guid)
  | [] => []
  | box :: queue =>
      if box.guid = guid then
        { box with attributes := attributes } :: queue
      else
        box :: assignAttributes guid attributes queue

/-- `SaveLockBox`; `pages` and `pool` are the answers of the two allocators. -/
def saveLockBox (s : State Guid) (guid : Option Guid) (buffer length : Nat)
    (pages : Option Nat) (pool : Bool) : Outcome Guid :=
  match guid with
  | none => ⟨.invalidParameter, s, [], none⟩
  | some guid =>
      if buffer = 0 ∨ length = 0 then
        ⟨.invalidParameter, s, [], none⟩
      else if (internalFindLockBoxByGuid s.lockBoxQueue guid).isSome then
        ⟨.alreadyStarted, s, [], none⟩
      else
        match pages with
        | none => ⟨.outOfResources, s, [], none⟩
        | some smramBuffer =>
            if pool = false then
              ⟨.outOfResources, s, [], none⟩
            else
              ⟨.success,
                { memory := moveBytes s.memory smramBuffer buffer length
                  lockBoxQueue := s.lockBoxQueue ++ [⟨guid, buffer, length, 0, smramBuffer⟩] },
                [⟨guid, smramBuffer, length⟩], none⟩

/-- `SetLockBoxAttributes`. -/
def setLockBoxAttributes (s : State Guid) (guid : Option Guid) (attributes : BitVec 64) :
    Outcome Guid :=
  match guid with
  | none => ⟨.invalidParameter, s, [], none⟩
  | some guid =>
      if attributes &&& ~~~lockBoxAttributeRestoreInPlace ≠ 0 then
        ⟨.invalidParameter, s, [], none⟩
      else
        match internalFindLockBoxByGuid s.lockBoxQueue guid with
        | none => ⟨.notFound, s, [], none⟩
        | some _ =>
            ⟨.success,
              { s with lockBoxQueue := assignAttributes guid attributes s.lockBoxQueue }, [], none⟩

/-- `UpdateLockBox`.  Both sums are computed in `UINTN`. -/
def updateLockBox (w : Nat) (s : State Guid) (guid : Option Guid) (offset buffer length : Nat) :
    Outcome Guid :=
  match guid with
  | none => ⟨.invalidParameter, s, [], none⟩
  | some guid =>
      if buffer = 0 ∨ length = 0 then
        ⟨.invalidParameter, s, [], none⟩
      else
        match internalFindLockBoxByGuid s.lockBoxQueue guid with
        | none => ⟨.notFound, s, [], none⟩
        | some lockBox =>
            if lockBox.length < (offset + length) % 2 ^ w then
              ⟨.bufferTooSmall, s, [], none⟩
            else
              let dest := (lockBox.smramBuffer + offset) % 2 ^ w
              ⟨.success, { s with memory := moveBytes s.memory dest buffer length },
                [⟨guid, dest, length⟩], none⟩

/-- `RestoreLockBox`. -/
def restoreLockBox (s : State Guid) (guid : Option Guid) (buffer : Nat) (length : Option Nat) :
    Outcome Guid :=
  match guid with
  | none => ⟨.invalidParameter, s, [], length⟩
  | some guid =>
      if (buffer = 0 ∧ length.isSome) ∨ (buffer ≠ 0 ∧ length.isNone) then
        ⟨.invalidParameter, s, [], length⟩
      else
        match internalFindLockBoxByGuid s.lockBoxQueue guid with
        | none => ⟨.notFound, s, [], length⟩
        | some lockBox =>
            if buffer = 0 ∧ lockBox.attributes &&& lockBoxAttributeRestoreInPlace = 0 then
              ⟨.writeProtected, s, [], length⟩
            else
              let restoreBuffer := if buffer ≠ 0 then buffer else lockBox.buffer
              let restored : Outcome Guid :=
                ⟨.success,
                  { s with
                    memory :=
                      moveBytes s.memory restoreBuffer lockBox.smramBuffer lockBox.length },
                  [⟨guid, lockBox.smramBuffer, lockBox.length⟩],
                  length.map fun _ => lockBox.length⟩
              match length with
              | none => restored
              | some given =>
                  if given < lockBox.length then
                    ⟨.bufferTooSmall, s, [], some lockBox.length⟩
                  else
                    restored

/-- One turn of the loop of `RestoreAllLockBoxInPlace`. -/
def restoreInPlace (mem : Memory) (lockBox : LockBoxData Guid) : Memory :=
  if lockBox.attributes &&& lockBoxAttributeRestoreInPlace ≠ 0 then
    moveBytes mem lockBox.buffer lockBox.smramBuffer lockBox.length
  else
    mem

/-- `RestoreAllLockBoxInPlace`. -/
def restoreAllLockBoxInPlace (s : State Guid) : Outcome Guid :=
  ⟨.success, { s with memory := s.lockBoxQueue.foldl restoreInPlace s.memory },
    (s.lockBoxQueue.filter fun lockBox =>
      lockBox.attributes &&& lockBoxAttributeRestoreInPlace ≠ 0).map
        fun lockBox => ⟨lockBox.guid, lockBox.smramBuffer, lockBox.length⟩, none⟩

end Calls

/-- A call, or anything else that happens to memory between two calls. -/
inductive Event (Guid : Type u)
  | save (guid : Option Guid) (buffer length : Nat) (pages : Option Nat) (pool : Bool)
  | setAttributes (guid : Option Guid) (attributes : BitVec 64)
  | update (guid : Option Guid) (offset buffer length : Nat)
  | restore (guid : Option Guid) (buffer : Nat) (length : Option Nat)
  | restoreAll
  | other (memory : Memory)

/-- What an event does. -/
def perform {Guid : Type u} [DecidableEq Guid] (w : Nat) (s : State Guid) :
    Event Guid → Outcome Guid
  | .save guid buffer length pages pool => saveLockBox s guid buffer length pages pool
  | .setAttributes guid attributes => setLockBoxAttributes s guid attributes
  | .update guid offset buffer length => updateLockBox w s guid offset buffer length
  | .restore guid buffer length => restoreLockBox s guid buffer length
  | .restoreAll => restoreAllLockBoxInPlace s
  | .other memory => ⟨.success, { s with memory := memory }, [], none⟩

section Promises

variable {Guid : Type u} (w : Nat) (smram : Nat → Prop)

/-- A buffer of a caller: in the address space and disjoint from SMRAM. -/
structure Clear (address length : Nat) : Prop where
  below : address + length ≤ 2 ^ w
  outside : ∀ k < length, ¬ smram (address + k)

/-- What `SmmAllocatePages` promises of the pages for a length: they are in SMRAM and
nobody else has them. -/
structure FreshPages (s : State Guid) (address length : Nat) : Prop where
  below : address + 4096 * efiSizeToPages length ≤ 2 ^ w
  inside : ∀ k < 4096 * efiSizeToPages length, smram (address + k)
  apart : ∀ box ∈ s.lockBoxQueue,
    Apart address (4096 * efiSizeToPages length) box.smramBuffer box.room

/-- What callers and allocators promise of an event. -/
def Event.Allowed (s : State Guid) : Event Guid → Prop
  | .save _ buffer length pages _ =>
      length < 2 ^ w ∧ (buffer ≠ 0 → Clear w smram buffer length) ∧
        ∀ address ∈ pages, FreshPages w smram s address length
  | .setAttributes _ _ => True
  | .update _ offset buffer length =>
      offset < 2 ^ w ∧ length < 2 ^ w ∧ (buffer ≠ 0 → Clear w smram buffer length)
  | .restore _ buffer length =>
      ∀ given ∈ length, given < 2 ^ w ∧ (buffer ≠ 0 → Clear w smram buffer given)
  | .restoreAll => True
  | .other memory =>
      ∀ box ∈ s.lockBoxQueue, ∀ k < box.room,
        memory (box.smramBuffer + k) = s.memory (box.smramBuffer + k)

/-- An event under the promises. -/
def Step [DecidableEq Guid] (s : State Guid) (e : Event Guid) (s' : State Guid) : Prop :=
  e.Allowed w smram s ∧ s' = (perform w s e).state

end Promises

end LockBox
end Udk
