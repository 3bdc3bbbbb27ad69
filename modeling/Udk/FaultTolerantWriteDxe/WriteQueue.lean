import Udk.MemoryWords
import Udk.PartitionDxe.Gpt
import Udk.Walk

/-!
# The write queue of the fault tolerant write driver

The work space is a header that `IsValidWorkSpace` compares with a fixed one, followed by write
headers with their records.  `FtwGetLastWriteHeader` and `FtwGetLastWriteRecord` look for the place
of the next write.  Places are offsets from the start of the work space in memory, all numbers have
64 bits, and the results carry the places that were looked at.
-/

namespace Udk
namespace Ftw

open List

section Layout

def ftwErasedByte : UInt8 := 255
def ftwPolarityRevert : UInt8 := 255

def ftwValidState : Nat := 0
def ftwInvalidState : Nat := 1

/-- `sizeof (EFI_FAULT_TOLERANT_WORKING_BLOCK_HEADER)`. -/
def sizeofWorkingBlockHeader : Nat := 32

/-- `sizeof (EFI_FAULT_TOLERANT_WRITE_HEADER)`. -/
def sizeofWriteHeader : Nat := 40

/-- `sizeof (EFI_FAULT_TOLERANT_WRITE_RECORD)`. -/
def sizeofWriteRecord : Nat := 40

/-- `FTW_RECORD_SIZE`. -/
def ftwRecordSize (privateDataSize : Nat) : Nat :=
  (sizeofWriteRecord + privateDataSize) % 2 ^ 64

/-- `FTW_WRITE_TOTAL_SIZE`. -/
def ftwWriteTotalSize (numberOfWrites privateDataSize : Nat) : Nat :=
  (sizeofWriteHeader + numberOfWrites * (sizeofWriteRecord + privateDataSize)) % 2 ^ 64

/-- The space that a header really needs, without a bound on the numbers. -/
def extent (numberOfWrites privateDataSize : Nat) : Nat :=
  sizeofWriteHeader + numberOfWrites * (sizeofWriteRecord + privateDataSize)

/-- A bit of the state byte of a header or a record. -/
def stateBit (mem : Memory) (offset bit : Nat) : Nat :=
  (mem offset).toNat / 2 ^ bit % 2

variable (mem : Memory) (offset : Nat)

def headerAllocated : Nat := stateBit mem offset 0
def writesAllocated : Nat := stateBit mem offset 1
def complete : Nat := stateBit mem offset 2
def callerId : Bytes := peek mem (offset + 4) 16
def numberOfWrites : Nat := word mem (offset + 24) 8
def privateDataSize : Nat := word mem (offset + 32) 8

def spareComplete : Nat := stateBit mem offset 1
def destinationComplete : Nat := stateBit mem offset 2

/-- What the header at a place says it takes, modulo `2 ^ 64`. -/
def writeTotalSize : Nat :=
  ftwWriteTotalSize (numberOfWrites mem offset) (privateDataSize mem offset)

end Layout

section WorkSpace

/-- `gEdkiiWorkingBlockSignatureGuid`. -/
def edkiiWorkingBlockSignature : Bytes :=
  toLE 4 0x9e58292b ++ toLE 2 0x7c68 ++ toLE 2 0x497d ++
    [0xa0, 0xce, 0x65, 0x00, 0xfd, 0x9f, 0x1b, 0x95]

/-- `mWorkingBlockHeader` with the two state bits and the CRC given. -/
def workingBlockHeaderWith (crc : Bytes) (state : UInt8) (workingSize : Nat) : Bytes :=
  edkiiWorkingBlockSignature ++ crc ++ [state, ftwErasedByte, ftwErasedByte, ftwErasedByte] ++
    toLE 8 ((workingSize + 2 ^ 64 - sizeofWorkingBlockHeader) % 2 ^ 64)

/-- `InitializeLocalWorkSpaceHeader`: the CRC is taken while it and the state are still erased;
then the block is set valid and not invalid. -/
def mWorkingBlockHeader (workingSize : Nat) : Bytes :=
  let erased := workingBlockHeaderWith (List.replicate 4 ftwErasedByte) ftwErasedByte workingSize
  workingBlockHeaderWith (toLE 4 ((Gpt.calculateCrc32 erased).getD 0)) 0xfe workingSize

/-- `IsValidWorkSpace`. -/
def isValidWorkSpace (mem : Memory) (workingSize : Nat) : Bool :=
  peek mem 0 sizeofWorkingBlockHeader == mWorkingBlockHeader workingSize

end WorkSpace

section Scan

inductive Status where
  | success
  | aborted
  | accessDenied
  | bufferTooSmall
  | outOfResources
  | deviceError
deriving DecidableEq, Repr

/-- What a search returns, with the places of the structures it has looked at. -/
structure Search where
  status : Status
  place : Nat
  examined : List Nat
deriving DecidableEq, Repr

/-- A search that has looked at one more place first. -/
def Search.after (offset : Nat) (search : Search) : Search :=
  { search with examined := offset :: search.examined }

variable (mem : Memory)

/-- The loop of `FtwGetLastWriteHeader`; nothing if it takes more turns than allowed. -/
def headerLoop (size : Nat) : Nat → Nat → Option Search
  | 0, _ => none
  | fuel + 1, offset =>
      if complete mem offset = ftwValidState then
        let next := (offset + writeTotalSize mem offset) % 2 ^ 64
        if size ≤ next then some ⟨.aborted, offset, [offset]⟩
        else (headerLoop size fuel next).map (·.after offset)
      else some ⟨.success, offset, [offset]⟩

/-- `FtwGetLastWriteHeader`. -/
def ftwGetLastWriteHeader (size fuel : Nat) : Option Search :=
  headerLoop mem size fuel sizeofWorkingBlockHeader

/-- The loop of `FtwGetLastWriteRecord` with the turns that are left.  Behind the last record it
returns the record before the place. -/
def recordLoop (privateSize : Nat) : Nat → Nat → Search
  | 0, record => ⟨.success, (record + 2 ^ 64 - ftwRecordSize privateSize) % 2 ^ 64, []⟩
  | turns + 1, record =>
      if destinationComplete mem record ≠ ftwValidState then ⟨.success, record, [record]⟩
      else
        (recordLoop privateSize turns
          ((record + sizeofWriteRecord + privateSize) % 2 ^ 64)).after record

/-- `FtwGetLastWriteRecord`. -/
def ftwGetLastWriteRecord (header : Nat) : Search :=
  recordLoop mem (privateDataSize mem header) (numberOfWrites mem header)
    ((header + sizeofWriteHeader) % 2 ^ 64)

end Scan

section Safety

variable (mem : Memory) (size : Nat)

/-- The two searches end, look only at headers and records inside the work space, and the header
they succeed with has its records inside the work space. -/
def ScanSafe : Prop :=
  ∃ fuel scan, ftwGetLastWriteHeader mem size fuel = some scan ∧
    (∀ header ∈ scan.examined, header + sizeofWriteHeader ≤ size) ∧
    (scan.status = .success →
      (ftwGetLastWriteRecord mem scan.place).status = .success ∧
      (∀ record ∈ (ftwGetLastWriteRecord mem scan.place).examined,
        record + sizeofWriteRecord ≤ size) ∧
      scan.place + extent (numberOfWrites mem scan.place) (privateDataSize mem scan.place) ≤ size)

/-- The header that follows a completed one, if it starts inside the work space. -/
def nextHeader (offset : Nat) : Option Nat :=
  if complete mem offset = ftwValidState ∧ (offset + writeTotalSize mem offset) % 2 ^ 64 < size then
    some ((offset + writeTotalSize mem offset) % 2 ^ 64)
  else none

/-- The stored headers from the first one on: none lies across the end of the work space, none
leads back to itself, and one that is not completed has its records inside the work space. -/
structure SoundQueue : Prop where
  inside : ∀ header, WalksTo (nextHeader mem size) sizeofWorkingBlockHeader header →
    header + sizeofWriteHeader ≤ size
  forward : ∀ header, WalksTo (nextHeader mem size) sizeofWorkingBlockHeader header →
    ¬ Leads (nextHeader mem size) header header
  records : ∀ header, WalksTo (nextHeader mem size) sizeofWorkingBlockHeader header →
    complete mem header ≠ ftwValidState →
    header + extent (numberOfWrites mem header) (privateDataSize mem header) ≤ size

variable {mem size} {header offset fuel turns : Nat}

theorem headerLoop_eq :
    headerLoop mem size fuel offset =
      (walk (nextHeader mem size) fuel offset).map fun headers =>
        let last := headers.getLastD offset
        ⟨if complete mem last = ftwValidState then .aborted else .success, last, headers⟩ := by
  induction fuel generalizing offset with
  | zero => rfl
  | succ fuel ih =>
      by_cases hcomplete : complete mem offset = ftwValidState
      · by_cases hlt : (offset + writeTotalSize mem offset) % 2 ^ 64 < size
        · have hnext : nextHeader mem size offset =
              some ((offset + writeTotalSize mem offset) % 2 ^ 64) := if_pos ⟨hcomplete, hlt⟩
          rw [headerLoop, if_pos hcomplete, if_neg (Nat.not_le.mpr hlt), walk_step hnext, ih,
            Option.map_map, Option.map_map]
          cases hwalk : walk (nextHeader mem size) fuel
              ((offset + writeTotalSize mem offset) % 2 ^ 64) with
          | none => rfl
          | some headers =>
              obtain ⟨first, rest, rfl⟩ : ∃ first rest, headers = first :: rest := by
                cases headers with
                | nil => exact absurd (walk_starts hwalk) not_mem_nil
                | cons first rest => exact ⟨first, rest, rfl⟩
              simp only [Option.map_some, Function.comp_apply, Search.after]
              rfl
        · have hnext : nextHeader mem size offset = none := if_neg fun h => hlt h.2
          rw [headerLoop, if_pos hcomplete, if_pos (Nat.not_lt.mp hlt), walk_last hnext]
          simp [hcomplete]
      · have hnext : nextHeader mem size offset = none := if_neg fun h => hcomplete h.1
        rw [headerLoop, if_neg hcomplete, walk_last hnext]
        simp [hcomplete]

theorem recordLoop_inside
    {privateSize record : Nat}
    (hsize : size < 2 ^ 64)
    (hend : record + turns * (sizeofWriteRecord + privateSize) ≤ size) :
    ∀ place ∈ (recordLoop mem privateSize turns record).examined,
      place + sizeofWriteRecord ≤ size := by
  induction turns generalizing record with
  | zero => exact fun place hplace => absurd hplace not_mem_nil
  | succ turns ih =>
      rw [Nat.succ_mul] at hend
      have hhere : record + sizeofWriteRecord ≤ size := by omega
      rw [recordLoop]
      split
      case isTrue =>
        intro place hplace
        rw [mem_singleton.mp hplace]
        exact hhere
      case isFalse =>
        have hplace : (record + sizeofWriteRecord + privateSize) % 2 ^ 64 =
            record + sizeofWriteRecord + privateSize := Nat.mod_eq_of_lt (by omega)
        rw [hplace]
        intro place hmem
        rcases mem_cons.mp hmem with rfl | hmem
        · exact hhere
        · exact ih (by omega) place hmem

theorem recordLoop_status
    (privateSize record : Nat) :
    (recordLoop mem privateSize turns record).status = .success := by
  induction turns generalizing record with
  | zero => rfl
  | succ turns ih =>
      rw [recordLoop]
      split
      case isTrue => rfl
      case isFalse => exact ih _

theorem last_of_walk
    {headers : List Nat}
    (hwalk : walk (nextHeader mem size) fuel offset = some headers)
    (hmem : header ∈ headers)
    (hopen : complete mem header ≠ ftwValidState) :
    headers.getLastD offset = header := by
  induction fuel generalizing offset headers with
  | zero => cases hwalk
  | succ fuel ih =>
      cases hnext : nextHeader mem size offset with
      | none =>
          rw [walk_last hnext] at hwalk
          obtain rfl := Option.some_inj.mp hwalk
          exact (mem_singleton.mp hmem).symm
      | some next =>
          rw [walk_step hnext] at hwalk
          obtain ⟨rest, hrest, rfl⟩ := Option.map_eq_some_iff.mp hwalk
          have hcomplete : complete mem offset = ftwValidState := by
            by_contra hnot
            rw [nextHeader, if_neg fun h => hnot h.1] at hnext
            cases hnext
          rcases mem_cons.mp hmem with rfl | hmem
          · exact absurd hcomplete hopen
          · obtain ⟨first, others, rfl⟩ := exists_cons_of_ne_nil (ne_nil_of_mem hmem)
            have hlast := ih hrest hmem
            simpa only [getLastD_cons] using hlast

/-- A work space with the fixed header in front of the bytes given, erased behind them. -/
def workSpaceOf (workingSize : Nat) (queue : Bytes) : Memory := fun offset =>
  (mWorkingBlockHeader workingSize ++ queue).getD offset ftwErasedByte

/-- A write header as bytes, with an erased caller's name. -/
def writeHeaderBytes (state : UInt8) (numberOfWrites privateDataSize : Nat) : Bytes :=
  state :: List.replicate 23 ftwErasedByte ++ toLE 8 numberOfWrites ++ toLE 8 privateDataSize

end Safety

end Ftw
end Udk
