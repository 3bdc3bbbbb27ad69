import Udk.ByteMemory
import Udk.Bytes

/-!
# GPT partition tables

`Gpt.c` over a disk whose requests, like those for pool, are granted or refused at will.  A
request of the disk that is refused, or that leaves the media, changes nothing.
-/

/-!
## GPT headers and entries

The packed structures of `UefiGpt.h` as byte strings with their fields, and the CRC32 of
`RuntimeDxe/Crc32.c` that a header carries over itself and over the entry array.
-/

namespace Udk
namespace Gpt

section Crc32

/-- `ReverseBits`. -/
def reverseBits (value : Nat) : Nat :=
  (List.range 32).foldl
    (fun newValue index =>
      if value.testBit index then newValue ||| 1 <<< (31 - index) else newValue) 0

/-- One turn of the inner loop of `RuntimeDriverInitializeCrc32Table`. -/
def crcTableStep (value : Nat) : Nat :=
  if value.testBit 31 then ((value <<< 1) % 2 ^ 32) ^^^ 0x04c11db7 else (value <<< 1) % 2 ^ 32

/-- `mCrcTable`. -/
def mCrcTable (tableEntry : Nat) : Nat :=
  reverseBits ((List.range 8).foldl (fun value _ => crcTableStep value) (reverseBits tableEntry))

/-- `RuntimeDriverCalculateCrc32`; an error without data. -/
def calculateCrc32 (data : Bytes) : Option Nat :=
  if data = [] then
    none
  else
    some (data.foldl (fun crc byte => (crc >>> 8) ^^^ mCrcTable ((crc % 256) ^^^ byte.toNat))
      0xffffffff ^^^ 0xffffffff)

end Crc32

section Header

/-- `sizeof (EFI_PARTITION_TABLE_HEADER)`. -/
def sizeofHeader : Nat := 92

/-- `EFI_PTAB_HEADER_ID`. -/
def efiPtabHeaderId : Nat := 0x5452415020494645

variable (header : Bytes)

def signature : Nat := field header 0 8
def headerSize : Nat := field header 12 4
def headerCrc32 : Nat := field header 16 4
def myLba : Nat := field header 24 8
def alternateLba : Nat := field header 32 8
def firstUsableLba : Nat := field header 40 8
def lastUsableLba : Nat := field header 48 8
def partitionEntryLba : Nat := field header 72 8
def numberOfPartitionEntries : Nat := field header 80 4
def sizeOfPartitionEntry : Nat := field header 84 4
def partitionEntryArrayCrc32 : Nat := field header 88 4

/-- The size of the entry array as the source computes it, a product of two `UINT32`. -/
def arraySize : Nat :=
  (numberOfPartitionEntries header * sizeOfPartitionEntry header) % 2 ^ 32

/-- A field is stored. -/
def setField (offset width value : Nat) : Bytes :=
  copyMem header offset (toLE width value)

/-- `PartitionCheckCrc`: the check, and the header with the CRC that was computed. -/
def partitionCheckCrc (maxSize : Nat) : Bool × Bytes :=
  let size := headerSize header
  if size = 0 then
    (false, header)
  else if maxSize ≠ 0 ∧ maxSize < size then
    (false, header)
  else
    let orgCrc := headerCrc32 header
    let cleared := setField header 16 4 0
    match calculateCrc32 (cleared.take size) with
    | none => (false, cleared)
    | some crc => (decide (orgCrc = crc), setField cleared 16 4 crc)

/-- `PartitionSetCrc`.  The size is not 0 in a header that has been checked. -/
def partitionSetCrc : Bytes :=
  let cleared := setField header 16 4 0
  setField cleared 16 4 ((calculateCrc32 (cleared.take (headerSize cleared))).getD 0)

end Header

section Entry

/-- `sizeof (EFI_PARTITION_ENTRY)`. -/
def sizeofEntry : Nat := 128

variable (entry : Bytes)

def partitionTypeGuid : Bytes := slice entry 0 16
def uniquePartitionGuid : Bytes := slice entry 16 16
def startingLba : Nat := field entry 32 8
def endingLba : Nat := field entry 40 8
def attributes : Nat := field entry 48 8

/-- `gEfiPartTypeUnusedGuid`. -/
def unusedGuid : Bytes := List.replicate 16 0

/-- `gEfiPartTypeSystemPartGuid`. -/
def systemPartGuid : Bytes :=
  [0x28, 0x73, 0x2A, 0xC1, 0x1F, 0xF8, 0xD2, 0x11, 0xBA, 0x4B, 0x00, 0xA0, 0xC9, 0x3E, 0xC9,
    0x3B]

/-- The entry is used. -/
def Used : Prop :=
  partitionTypeGuid entry ≠ unusedGuid

instance : Decidable (Used entry) :=
  inferInstanceAs (Decidable (_ ≠ _))

/-- The range of an entry lies in the usable range of a header. -/
def InRange (header : Bytes) : Prop :=
  startingLba entry ≤ endingLba entry ∧ firstUsableLba header ≤ startingLba entry ∧
    endingLba entry ≤ lastUsableLba header

instance (header : Bytes) : Decidable (InRange entry header) :=
  inferInstanceAs (Decidable (_ ∧ _ ∧ _))

/-- Bit 1 of the attributes. -/
def OsSpecific : Prop :=
  (attributes entry).testBit 1 = true

instance : Decidable (OsSpecific entry) :=
  inferInstanceAs (Decidable (_ = true))

end Entry

end Gpt
end Udk

namespace Udk
namespace Gpt

/-- The parent of the partitions: its media, the width of `UINTN`, what the numbered requests
for pool and disk are answered, which child handles can be installed, and what lies behind a
buffer. -/
structure Device where
  blockSize : Nat
  lastBlock : Nat
  bits : Nat
  answers : Nat → Bool
  installs : Nat → Bool
  stray : Nat → UInt8
  large : 512 ≤ blockSize
  narrow : blockSize < 2 ^ 32
  small : (lastBlock + 1) * blockSize ≤ 2 ^ 64

/-- The bytes of the media. -/
def Device.size (dev : Device) : Nat :=
  (dev.lastBlock + 1) * dev.blockSize

/-- `MultU64x32 (Lba, BlockSize)`. -/
def Device.offset (dev : Device) (lba : Nat) : Nat :=
  (lba * dev.blockSize) % 2 ^ 64

/-- Memory with a string written to it. -/
def poke (mem : Memory) (addr : Nat) (data : Bytes) : Memory := fun a =>
  if addr ≤ a ∧ a < addr + data.length then data.getD (a - addr) 0 else mem a

/-- The disk, the writes it has taken, and the number of requests so far. -/
structure IoState where
  disk : Memory
  writes : List (Nat × Bytes)
  served : Nat

section Requests

variable (dev : Device) (s : IoState)

/-- `AllocatePool`. -/
def allocatePool : Bool × IoState :=
  (dev.answers s.served, { s with served := s.served + 1 })

/-- `DiskIo->ReadDisk`. -/
def readDisk (offset size : Nat) : Option Bytes × IoState :=
  (if dev.answers s.served = true ∧ offset + size ≤ dev.size then
      some (peek s.disk offset size)
    else
      none,
    { s with served := s.served + 1 })

/-- `DiskIo->WriteDisk`. -/
def writeDisk (offset : Nat) (data : Bytes) : Bool × IoState :=
  if dev.answers s.served = true ∧ offset + data.length ≤ dev.size then
    (true, ⟨poke s.disk offset data, s.writes ++ [(offset, data)], s.served + 1⟩)
  else
    (false, { s with served := s.served + 1 })

end Requests

section Tables

variable (dev : Device) (s : IoState)

/-- `PartitionCheckGptEntryArrayCRC`. -/
def partitionCheckGptEntryArrayCRC (partHeader : Bytes) : Bool × IoState :=
  match allocatePool dev s with
  | (false, s) => (false, s)
  | (true, s) =>
      match readDisk dev s (dev.offset (partitionEntryLba partHeader)) (arraySize partHeader) with
      | (none, s) => (false, s)
      | (some ptr, s) =>
          (decide (calculateCrc32 ptr = some (partitionEntryArrayCrc32 partHeader)), s)

/-- The tests of `PartitionValidGptTable` on the block with the header. -/
def headerAccepted (lba : Nat) (partHdr : Bytes) : Bool :=
  decide (signature partHdr = efiPtabHeaderId) && (partitionCheckCrc partHdr dev.blockSize).1 &&
    decide (myLba partHdr = lba) && decide (sizeofEntry ≤ sizeOfPartitionEntry partHdr) &&
    decide (numberOfPartitionEntries partHdr ≤ (2 ^ dev.bits - 1) / sizeOfPartitionEntry partHdr)

/-- `PartitionValidGptTable`: the result, what is in `PartHeader` and the disk. -/
def partitionValidGptTable (lba : Nat) (partHeader : Bytes) : Bool × Bytes × IoState :=
  match allocatePool dev s with
  | (false, s) => (false, partHeader, s)
  | (true, s) =>
      match readDisk dev s (dev.offset lba) dev.blockSize with
      | (none, s) => (false, partHeader, s)
      | (some partHdr, s) =>
          if headerAccepted dev lba partHdr = false then
            (false, partHeader, s)
          else
            let partHeader := (partitionCheckCrc partHdr dev.blockSize).2.take sizeofHeader
            match partitionCheckGptEntryArrayCRC dev s partHeader with
            | (valid, s) => (valid, partHeader, s)

/-- `PEntryLBA` in `PartitionRestoreGptTable`. -/
def restoredEntryLba (partHeader : Bytes) : Nat :=
  if myLba partHeader = 1 then (lastUsableLba partHeader + 1) % 2 ^ 64 else 2

/-- `PartHdr` in `PartitionRestoreGptTable` before its CRC is set. -/
def restoredDraft (partHeader : Bytes) : Bytes :=
  let partHdr := partHeader ++ List.replicate (dev.blockSize - sizeofHeader) 0
  let partHdr := setField partHdr 24 8 (alternateLba partHeader)
  let partHdr := setField partHdr 32 8 (myLba partHeader)
  setField partHdr 72 8 (restoredEntryLba partHeader)

/-- The block that `PartitionRestoreGptTable` writes. -/
def restoredBlock (partHeader : Bytes) : Bytes :=
  partitionSetCrc (restoredDraft dev partHeader)

/-- `PartitionRestoreGptTable`. -/
def partitionRestoreGptTable (partHeader : Bytes) : Bool × IoState :=
  match allocatePool dev s with
  | (false, s) => (false, s)
  | (true, s) =>
      match writeDisk dev s (dev.offset (alternateLba partHeader)) (restoredBlock dev partHeader)
        with
      | (false, s) => (false, s)
      | (true, s) =>
          match allocatePool dev s with
          | (false, s) => (false, s)
          | (true, s) =>
              match readDisk dev s (dev.offset (partitionEntryLba partHeader))
                (arraySize partHeader) with
              | (none, s) => (false, s)
              | (some ptr, s) => writeDisk dev s (dev.offset (restoredEntryLba partHeader)) ptr

end Tables

section Entries

/-- `EFI_PARTITION_ENTRY_STATUS`. -/
structure EntryStatus where
  outOfRange : Bool
  overlap : Bool
  osSpecific : Bool
  deriving DecidableEq, Repr

/-- The entry at an index.  What is not in the buffer is what lies behind it. -/
def entryAt (dev : Device) (partHeader partEntry : Bytes) (index : Nat) : Bytes :=
  let offset := (index * sizeOfPartitionEntry partHeader) % 2 ^ dev.bits
  (List.range sizeofEntry).map fun k => partEntry.getD (offset + k) (dev.stray (offset + k))

variable (partHeader : Bytes) (entry : Nat → Bytes)

/-- One turn of the inner loop of `PartitionCheckGptEntry`. -/
def checkOverlap (index1 : Nat) (status : Nat → EntryStatus) (index2 : Nat) :
    Nat → EntryStatus :=
  if Used (entry index2) ∧ startingLba (entry index1) ≤ endingLba (entry index2) ∧
      startingLba (entry index2) ≤ endingLba (entry index1) then
    let status := Function.update status index1 { status index1 with overlap := true }
    Function.update status index2 { status index2 with overlap := true }
  else
    status

/-- One turn of the outer loop of `PartitionCheckGptEntry`. -/
def checkEntry (status : Nat → EntryStatus) (index1 : Nat) : Nat → EntryStatus :=
  let e := entry index1
  if ¬ Used e then
    status
  else if endingLba e < startingLba e ∨ startingLba e < firstUsableLba partHeader ∨
      lastUsableLba partHeader < startingLba e ∨ endingLba e < firstUsableLba partHeader ∨
      lastUsableLba partHeader < endingLba e then
    Function.update status index1 { status index1 with outOfRange := true }
  else
    let status :=
      if OsSpecific e then
        Function.update status index1 { status index1 with osSpecific := true }
      else
        status
    (List.range' (index1 + 1) (numberOfPartitionEntries partHeader - (index1 + 1))).foldl
      (checkOverlap entry index1) status

/-- `PartitionCheckGptEntry`. -/
def partitionCheckGptEntry : Nat → EntryStatus :=
  (List.range (numberOfPartitionEntries partHeader)).foldl (checkEntry partHeader entry)
    fun _ => ⟨false, false, false⟩

end Entries

section Install

/-- The data of a child handle. -/
structure Child where
  partitionNumber : Nat
  partitionStart : Nat
  partitionSize : Nat
  signature : Bytes
  startingLba : Nat
  endingLba : Nat
  installEspGuid : Bool
  deriving DecidableEq, Repr

/-- The child handle for an entry. -/
def childOf (index : Nat) (entry : Bytes) : Child where
  partitionNumber := (index + 1) % 2 ^ 32
  partitionStart := Gpt.startingLba entry
  partitionSize :=
    (Gpt.endingLba entry + 2 ^ 64 - Gpt.startingLba entry + 1) % 2 ^ 64
  signature := uniquePartitionGuid entry
  startingLba := Gpt.startingLba entry
  endingLba := Gpt.endingLba entry
  installEspGuid := decide (partitionTypeGuid entry = systemPartGuid)

/-- The indices of the entries that get a child handle. -/
def childIndices (dev : Device) (partHeader : Bytes) (entry : Nat → Bytes) : List Nat :=
  let status := partitionCheckGptEntry partHeader entry
  (List.range (numberOfPartitionEntries partHeader)).filter fun index =>
    decide (Used (entry index)) && !(status index).outOfRange && !(status index).overlap &&
      !(status index).osSpecific && dev.installs index

/-- One of the four entries of a protective MBR is for GPT. -/
def protectiveMbr (mbr : Bytes) : Bool :=
  (List.range 4).any fun index =>
    decide (field mbr (446 + 16 * index) 1 = 0) &&
      decide (field mbr (446 + 16 * index + 4) 1 = 0xEE) &&
      decide (field mbr (446 + 16 * index + 8) 4 = 1)

inductive EfiStatus
  | success
  | notFound
  | deviceError
  deriving DecidableEq, Repr

/-- The status of `PartitionInstallGptChildHandles`, the primary header and the entry array it
has used, the child handles, and the disk. -/
structure Outcome where
  status : EfiStatus
  header : Bytes
  partEntry : Bytes
  children : List Child
  io : IoState

/-- Nothing is installed. -/
def Outcome.none (status : EfiStatus) (s : IoState) : Outcome :=
  ⟨status, [], [], [], s⟩

variable (dev : Device) (s : IoState)

/-- The headers are checked, and a bad copy is restored from the other one; the primary header
that is used then, or none. -/
def checkTables : Option Bytes × IoState :=
  let zero := List.replicate sizeofHeader 0
  match partitionValidGptTable dev s 1 zero with
  | (false, primaryHeader, s) =>
      match partitionValidGptTable dev s dev.lastBlock zero with
      | (false, _, s) => (none, s)
      | (true, backupHeader, s) =>
          let s := (partitionRestoreGptTable dev s backupHeader).2
          match partitionValidGptTable dev s (alternateLba backupHeader) primaryHeader with
          | (_, primaryHeader, s) => (some primaryHeader, s)
  | (true, primaryHeader, s) =>
      match partitionValidGptTable dev s (alternateLba primaryHeader) zero with
      | (true, _, s) => (some primaryHeader, s)
      | (false, backupHeader, s) =>
          let s := (partitionRestoreGptTable dev s primaryHeader).2
          let s := (partitionValidGptTable dev s (alternateLba primaryHeader) backupHeader).2.2
          (some primaryHeader, s)

/-- The entries of a header are read and checked, and child handles are installed. -/
def installChildren (primaryHeader : Bytes) : Outcome :=
  match allocatePool dev s with
  | (false, s) => Outcome.none .notFound s
  | (true, s) =>
      match readDisk dev s (dev.offset (partitionEntryLba primaryHeader))
        (arraySize primaryHeader) with
      | (none, s) => Outcome.none .deviceError s
      | (some partEntry, s) =>
          match allocatePool dev s with
          | (false, s) => Outcome.none .notFound s
          | (true, s) =>
              let entry := entryAt dev primaryHeader partEntry
              ⟨.success, primaryHeader, partEntry,
                (childIndices dev primaryHeader entry).map fun index =>
                  childOf index (entry index),
                s⟩

/-- `PartitionInstallGptChildHandles`. -/
def partitionInstallGptChildHandles : Outcome :=
  match allocatePool dev s with
  | (false, s) => Outcome.none .notFound s
  | (true, s) =>
      match readDisk dev s 0 dev.blockSize with
      | (none, s) => Outcome.none .deviceError s
      | (some mbr, s) =>
          if protectiveMbr mbr = false then
            Outcome.none .notFound s
          else
            match allocatePool dev s with
            | (false, s) => Outcome.none .notFound s
            | (true, s) =>
                match allocatePool dev s with
                | (false, s) => Outcome.none .notFound s
                | (true, s) =>
                    match checkTables dev s with
                    | (none, s) => Outcome.none .notFound s
                    | (some primaryHeader, s) => installChildren dev s primaryHeader

end Install

end Gpt
end Udk
