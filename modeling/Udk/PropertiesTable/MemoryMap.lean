import Udk.ExchangeSort

/-!
# Splitting the memory map

`CoreGetMemoryMapPropertiesTable` and `SplitTable`.  The buffer of the caller is a
function from the index of a descriptor to its contents, and every write is logged with
its index, so that a write outside of the buffer or over a descriptor that is still to
be processed would be seen.
-/

/-!
## Image records of runtime drivers

`InsertImageRecord` and `RemoveImageRecord` over the list of records, with the largest
number of code sections that the memory map code relies on.  Addresses are numbers below
`2 ^ 64`.
-/

namespace Udk
namespace PropertiesTable

/-- Addition of two `UINT64`. -/
def add64 (a b : Nat) : Nat := (a + b) % 2 ^ 64

/-- Subtraction of two `UINT64`. -/
def sub64 (a b : Nat) : Nat := (a + 2 ^ 64 - b) % 2 ^ 64

/-- `IMAGE_PROPERTIES_RECORD_CODE_SECTION`. -/
structure CodeSection where
  codeSegmentBase : Nat
  codeSegmentSize : Nat
deriving DecidableEq

/-- `IMAGE_PROPERTIES_RECORD`. -/
structure ImageRecord where
  imageBase : Nat
  imageSize : Nat
  codeSegmentCount : Nat
  codeSegmentList : List CodeSection
deriving DecidableEq

/-- `mImagePropertiesPrivateData`, and whether
`EFI_PROPERTIES_RUNTIME_MEMORY_PROTECTION_NON_EXECUTABLE_PE_DATA` is set in
`mPropertiesTable`. -/
structure PrivateData where
  imageRecordCount : Nat
  codeSegmentCountMax : Nat
  imageRecordList : List ImageRecord
  nonExecutablePeData : Bool
deriving DecidableEq

/-- What `InsertImageRecord` reads of an `EFI_IMAGE_SECTION_HEADER`. -/
structure SectionHeader where
  virtualAddress : Nat
  sizeOfRawData : Nat
  /-- `EFI_IMAGE_SCN_CNT_CODE` in `Characteristics`. -/
  isCode : Bool
deriving DecidableEq

/-- `EFI_RUNTIME_IMAGE_ENTRY` with what `InsertImageRecord` reads of the image in
memory. -/
structure RuntimeImage where
  imageBase : Nat
  imageSize : Nat
  /-- The PE header has `EFI_IMAGE_NT_SIGNATURE`. -/
  isPe : Bool
  sectionAlignment : Nat
  sections : List SectionHeader
deriving DecidableEq

/-- `EFI_ACPI_RUNTIME_PAGE_ALLOCATION_ALIGNMENT`. -/
def runtimePageAllocationAlignment : Nat := 0x1000

/-- `MAX_ADDRESS`. -/
def maxAddress : Nat := 0xffffffffffffffff

/-- `SetPropertiesTableSectionAlignment`. -/
def setPropertiesTableSectionAlignment (data : PrivateData) (sectionAlignment : Nat) :
    PrivateData :=
  if sectionAlignment % runtimePageAllocationAlignment ≠ 0 then
    { data with nonExecutablePeData := false }
  else data

/-- The code sections in the order of the section headers. -/
def codeSections (image : RuntimeImage) : List CodeSection :=
  (image.sections.filter (·.isCode)).map fun header =>
    ⟨add64 image.imageBase header.virtualAddress, header.sizeOfRawData⟩

/-- The loop of `IsImageRecordCodeSectionValid` behind a section `last`. -/
def codeSectionsValid (image : ImageRecord) : Option CodeSection → List CodeSection → Bool
  | _, [] => true
  | last, codeSection :: rest =>
    if codeSection.codeSegmentSize = 0 then false
    else if codeSection.codeSegmentBase < image.imageBase then false
    else if codeSection.codeSegmentBase ≥ sub64 maxAddress codeSection.codeSegmentSize then false
    else if add64 codeSection.codeSegmentBase codeSection.codeSegmentSize >
        add64 image.imageBase image.imageSize then false
    else
      match last with
      | none => codeSectionsValid image (some codeSection) rest
      | some last =>
        if add64 last.codeSegmentBase last.codeSegmentSize > codeSection.codeSegmentBase then false
        else codeSectionsValid image (some codeSection) rest

/-- `IsImageRecordCodeSectionValid`. -/
def isImageRecordCodeSectionValid (image : ImageRecord) : Bool :=
  codeSectionsValid image none image.codeSegmentList

/-- `SortImageRecord`: the contents of the list nodes. -/
def sortImageRecord (records : List ImageRecord) : List ImageRecord :=
  exchangeSort ImageRecord.imageBase records

/-- The last part of `InsertImageRecord`.  The sort exchanges the contents of nodes, and
`ImageRecord` stays the node that was put at the tail, so its count is that of the record
with the highest base. -/
def recordImage (data : PrivateData) (record : ImageRecord) : PrivateData :=
  let records := sortImageRecord (data.imageRecordList ++ [record])
  let tailCount := (records.getLast?.map (·.codeSegmentCount)).getD 0
  { data with
    imageRecordList := records
    imageRecordCount := data.imageRecordCount + 1
    codeSegmentCountMax :=
      if data.codeSegmentCountMax < tailCount then tailCount else data.codeSegmentCountMax }

/-- Whether the pool has room for a record and for its code sections. -/
structure RecordPool where
  imageRecord : Bool
  codeSections : Bool
deriving DecidableEq

/-- `InsertImageRecord`. -/
def insertImageRecord (data : PrivateData) (image : RuntimeImage) (pool : RecordPool) :
    PrivateData :=
  if !pool.imageRecord then data
  else if !image.isPe then data
  else
    let data := setPropertiesTableSectionAlignment data image.sectionAlignment
    if image.sectionAlignment % runtimePageAllocationAlignment ≠ 0 then data
    else if (codeSections image).length = 0 then setPropertiesTableSectionAlignment data 1
    else if !pool.codeSections then data
    else
      let record : ImageRecord :=
        { imageBase := image.imageBase
          imageSize := image.imageSize
          codeSegmentCount := (codeSections image).length
          codeSegmentList := exchangeSort CodeSection.codeSegmentBase (codeSections image) }
      if !isImageRecordCodeSectionValid record then data
      else recordImage data record

/-- `RemoveImageRecord`. -/
def removeImageRecord (data : PrivateData) (image : RuntimeImage) : PrivateData :=
  let isImage (record : ImageRecord) : Bool :=
    image.imageBase == record.imageBase && image.imageSize == record.imageSize
  match data.imageRecordList.find? isImage with
  | none => data
  | some _ =>
    { data with
      imageRecordList := data.imageRecordList.eraseP isImage
      imageRecordCount := data.imageRecordCount - 1 }

end PropertiesTable
end Udk

namespace Udk
namespace PropertiesTable

/-- `EFI_MEMORY_DESCRIPTOR`. -/
structure EfiMemoryDescriptor where
  type : UInt32
  physicalStart : Nat
  virtualStart : Nat
  numberOfPages : Nat
  /-- `Attribute`. -/
  attr : UInt64
deriving DecidableEq

def efiRuntimeServicesCode : UInt32 := 5
def efiRuntimeServicesData : UInt32 := 6
def efiMemoryMappedIo : UInt32 := 11
def efiMemoryMappedIoPortSpace : UInt32 := 12
def efiMemoryXp : UInt64 := 0x4000
def efiMemoryRo : UInt64 := 0x20000

/-- `EFI_PAGE_SIZE`. -/
def efiPageSize : Nat := 0x1000

/-- `EfiPagesToSize`. -/
def efiPagesToSize (pages : Nat) : Nat := pages * efiPageSize % 2 ^ 64

/-- `EfiSizeToPages`. -/
def efiSizeToPages (size : Nat) : Nat :=
  size / efiPageSize + if size % efiPageSize ≠ 0 then 1 else 0

/-- `PhysicalStart + EfiPagesToSize (NumberOfPages)`. -/
def EfiMemoryDescriptor.physicalEnd (d : EfiMemoryDescriptor) : Nat :=
  add64 d.physicalStart (efiPagesToSize d.numberOfPages)

/-- `ImageBase + ImageSize`. -/
def ImageRecord.imageEnd (image : ImageRecord) : Nat :=
  add64 image.imageBase image.imageSize

/-- `GetImageRecordByAddress`. -/
def getImageRecordByAddress (records : List ImageRecord) (buffer length : Nat) :
    Option ImageRecord :=
  records.find? fun image =>
    decide (buffer ≤ image.imageBase) && decide (add64 buffer length ≥ image.imageEnd)

/-- A write of a descriptor. -/
structure SlotWrite where
  /-- `IndexOld` at the time: the descriptors below are still to be processed. -/
  indexOld : Int
  index : Int
deriving DecidableEq

/-- The buffer of the caller with its writes, the last one first. -/
structure MapBuffer where
  slots : Int → EfiMemoryDescriptor
  indexOld : Int
  writes : List SlotWrite

namespace MapBuffer

/-- A write of one descriptor. -/
def write (b : MapBuffer) (i : Int) (d : EfiMemoryDescriptor) : MapBuffer :=
  { b with
    slots := Function.update b.slots i d
    writes := ⟨b.indexOld, i⟩ :: b.writes }

/-- `CopyMem` of whole descriptors. -/
def copyMem (b : MapBuffer) (destination source : Int) (count : Nat) : MapBuffer :=
  { b with
    slots := fun i =>
      if destination ≤ i ∧ i < destination + count then b.slots (source + (i - destination))
      else b.slots i
    writes := (List.range count).map (fun k : Nat => ⟨b.indexOld, destination + k⟩) ++ b.writes }

/-- The descriptors from an index on. -/
def segment (b : MapBuffer) (start : Int) (count : Nat) : List EfiMemoryDescriptor :=
  (List.range count).map fun i : Nat => b.slots (start + i)

end MapBuffer

/-- The state of the loop of `SetNewRecord`. -/
structure NewRecordState where
  buffer : MapBuffer
  /-- `NewRecord` as an index. -/
  newRecord : Int
  newRecordCount : Nat
  /-- `TempRecord.PhysicalStart`. -/
  physicalStart : Nat

/-- A record is written at `NewRecord`, which moves on unless the record is empty. -/
def NewRecordState.put (st : NewRecordState) (d : EfiMemoryDescriptor) : NewRecordState :=
  let st := { st with buffer := st.buffer.write st.newRecord d }
  if d.numberOfPages ≠ 0 then
    { st with newRecord := st.newRecord + 1, newRecordCount := st.newRecordCount + 1 }
  else st

/-- The `DATA` record of `SetNewRecord` in front of an address. -/
def dataRecord (attr : UInt64) (start stop : Nat) : EfiMemoryDescriptor where
  type := efiRuntimeServicesData
  physicalStart := start
  virtualStart := 0
  numberOfPages := efiSizeToPages (sub64 stop start)
  attr := attr ||| efiMemoryXp

/-- The `CODE` record of `SetNewRecord`. -/
def codeRecord (attr : UInt64) (codeSection : CodeSection) : EfiMemoryDescriptor where
  type := efiRuntimeServicesCode
  physicalStart := codeSection.codeSegmentBase
  virtualStart := 0
  numberOfPages := efiSizeToPages codeSection.codeSegmentSize
  attr := (attr &&& ~~~efiMemoryXp) ||| efiMemoryRo

/-- Where `SetNewRecord` goes on behind a code section. -/
def codeSectionEnd (codeSection : CodeSection) : Nat :=
  add64 codeSection.codeSegmentBase
    (efiPagesToSize (efiSizeToPages codeSection.codeSegmentSize))

/-- The loop of `SetNewRecord`. -/
def setNewRecordLoop (attr : UInt64) (physicalEnd : Nat) :
    List CodeSection → NewRecordState → NewRecordState
  | [], st => st
  | codeSection :: rest, st =>
    if st.physicalStart ≤ codeSection.codeSegmentBase then
      let st := st.put (dataRecord attr st.physicalStart codeSection.codeSegmentBase)
      let st := st.put (codeRecord attr codeSection)
      let st := { st with physicalStart := codeSectionEnd codeSection }
      if efiSizeToPages (sub64 physicalEnd st.physicalStart) = 0 then st
      else setNewRecordLoop attr physicalEnd rest st
    else setNewRecordLoop attr physicalEnd rest st

/-- `SetNewRecord`: the buffer and the number of new records. -/
def setNewRecord (image : ImageRecord) (b : MapBuffer) (newRecord : Int)
    (oldRecord : EfiMemoryDescriptor) : MapBuffer × Nat :=
  let st := setNewRecordLoop oldRecord.attr oldRecord.physicalEnd image.codeSegmentList
    ⟨b, newRecord, 0, oldRecord.physicalStart⟩
  if st.physicalStart < image.imageEnd then
    (st.buffer.write st.newRecord
      (dataRecord oldRecord.attr st.physicalStart image.imageEnd), st.newRecordCount + 1)
  else (st.buffer, st.newRecordCount)

/-- The loop of `GetMaxSplitRecordCount`, none when it needs more turns. -/
def maxSplitLoop (records : List ImageRecord) (physicalEnd : Nat) :
    Nat → Nat → Nat → Option Nat
  | 0, _, _ => none
  | turns + 1, physicalStart, splitRecordCount =>
    match getImageRecordByAddress records physicalStart (sub64 physicalEnd physicalStart) with
    | none => some splitRecordCount
    | some image =>
      let splitRecordCount := splitRecordCount + (2 * image.codeSegmentCount + 1)
      if image.imageEnd < physicalEnd then
        maxSplitLoop records physicalEnd turns image.imageEnd splitRecordCount
      else some splitRecordCount

/-- `GetMaxSplitRecordCount`. -/
def getMaxSplitRecordCount (turns : Nat) (records : List ImageRecord)
    (oldRecord : EfiMemoryDescriptor) : Option Nat :=
  (maxSplitLoop records oldRecord.physicalEnd turns oldRecord.physicalStart 0).map
    fun count => if count ≠ 0 then count - 1 else count

/-- The state of the loop of `SplitRecord`. -/
structure SplitState where
  buffer : MapBuffer
  newRecord : Int
  totalNewRecordCount : Nat
  tempRecord : EfiMemoryDescriptor
  /-- `ImageRecord != NULL`. -/
  hasImage : Bool

/-- The rest of the old record behind the last image. -/
def splitTrailing (physicalEnd : Nat) (st : SplitState) : SplitState :=
  if physicalEnd > st.tempRecord.physicalStart ∧ st.hasImage then
    let previous := st.buffer.slots (st.newRecord - 1)
    if previous.type = efiRuntimeServicesData then
      let pages := efiSizeToPages (sub64 physicalEnd previous.physicalStart)
      { st with
        buffer := st.buffer.write (st.newRecord - 1) { previous with numberOfPages := pages } }
    else
      { st with
        buffer := st.buffer.write st.newRecord
          { type := efiRuntimeServicesData
            physicalStart := st.tempRecord.physicalStart
            virtualStart := 0
            numberOfPages := st.tempRecord.numberOfPages
            attr := st.tempRecord.attr ||| efiMemoryXp }
        totalNewRecordCount := st.totalNewRecordCount + 1 }
  else st

/-- The loop of `SplitRecord`, none when it needs more turns. -/
def splitRecordLoop (records : List ImageRecord) (physicalEnd : Nat) :
    Nat → SplitState → Option SplitState
  | 0, _ => none
  | turns + 1, st =>
    let physicalStart := st.tempRecord.physicalStart
    match getImageRecordByAddress records physicalStart (sub64 physicalEnd physicalStart) with
    | none => some (splitTrailing physicalEnd st)
    | some image =>
      let (buffer, newRecordCount) := setNewRecord image st.buffer st.newRecord st.tempRecord
      let st :=
        { buffer := buffer
          newRecord := st.newRecord + newRecordCount
          totalNewRecordCount := st.totalNewRecordCount + newRecordCount
          tempRecord := { st.tempRecord with
            physicalStart := image.imageEnd
            numberOfPages := efiSizeToPages (sub64 physicalEnd image.imageEnd) }
          hasImage := true }
      if image.imageEnd < physicalEnd then splitRecordLoop records physicalEnd turns st
      else some st

/-- `SplitRecord`: the buffer and the number it returns.  The images it meets are those of
`GetMaxSplitRecordCount`, so the total it reduces by one is not 0. -/
def splitRecord (turns : Nat) (records : List ImageRecord) (b : MapBuffer)
    (oldRecord newRecord : Int) (maxSplitRecordCount : Nat) : Option (MapBuffer × Nat) :=
  if maxSplitRecordCount = 0 then some (b.write newRecord (b.slots oldRecord), 0)
  else
    let tempRecord := b.slots oldRecord
    (splitRecordLoop records tempRecord.physicalEnd turns
        ⟨b, newRecord, 0, tempRecord, false⟩).map
      fun st => (st.buffer, st.totalNewRecordCount - 1)

/-- The state of the loop of `SplitTable`. -/
structure SplitTableState where
  buffer : MapBuffer
  indexNew : Int
  totalSplitRecordCount : Nat

/-- A turn of the loop of `SplitTable`. -/
def splitTableTurn (turns : Nat) (records : List ImageRecord) (indexOld : Int)
    (st : SplitTableState) : Option SplitTableState :=
  let b := { st.buffer with indexOld := indexOld }
  (getMaxSplitRecordCount turns records (b.slots indexOld)).bind fun maxCount =>
    let indexNew := st.indexNew - maxCount
    (splitRecord turns records b indexOld indexNew maxCount).map fun (buffer, realCount) =>
      { buffer := buffer.copyMem (indexNew + maxCount - realCount) indexNew realCount
        indexNew := indexNew + maxCount - realCount - 1
        totalSplitRecordCount := st.totalSplitRecordCount + realCount }

/-- The loop of `SplitTable` over the old records below an index. -/
def splitTableLoop (turns : Nat) (records : List ImageRecord) :
    Nat → SplitTableState → Option SplitTableState
  | 0, st => some st
  | indexOld + 1, st =>
    (splitTableTurn turns records indexOld st).bind (splitTableLoop turns records indexOld)

/-- `AdditionalRecordCount`. -/
def additionalRecordCount (data : PrivateData) : Nat :=
  (2 * data.codeSegmentCountMax + 1) * data.imageRecordCount

/-- `EnforceMemoryMapAttribute` on a descriptor. -/
def enforceAttribute (d : EfiMemoryDescriptor) : EfiMemoryDescriptor :=
  if d.type = efiRuntimeServicesData ∨ d.type = efiMemoryMappedIo ∨
      d.type = efiMemoryMappedIoPortSpace then
    { d with attr := d.attr ||| efiMemoryXp }
  else d

/-- `MergeMemoryMap`: a descriptor takes in the next one if it continues it. -/
def mergeMemoryMap : List EfiMemoryDescriptor → List EfiMemoryDescriptor
  | [] => []
  | [d] => [d]
  | d :: next :: rest =>
    if d.type = next.type ∧ d.attr = next.attr ∧ d.physicalEnd = next.physicalStart then
      { d with numberOfPages := d.numberOfPages + next.numberOfPages } :: mergeMemoryMap rest
    else d :: mergeMemoryMap (next :: rest)

/-- What `SplitTable` leaves: the buffer when all records have been moved to the
beginning, and the descriptors after `SortMemoryMap`, `EnforceMemoryMapAttribute` and
`MergeMemoryMap`, which stay among those records. -/
def splitTable (turns : Nat) (data : PrivateData) (b : MapBuffer) (count : Nat) :
    Option (MapBuffer × List EfiMemoryDescriptor) :=
  let additional := additionalRecordCount data
  (splitTableLoop turns data.imageRecordList count
      ⟨b, (count : Int) - 1 + additional, 0⟩).map fun st =>
    let total := st.totalSplitRecordCount
    let buffer := st.buffer.copyMem 0 ((additional : Int) - total) (count + total)
    (buffer, mergeMemoryMap ((exchangeSort EfiMemoryDescriptor.physicalStart
      (buffer.segment 0 (count + total))).map enforceAttribute))

/-- Error statuses of `CoreGetMemoryMap`. -/
inductive MapError where
  | bufferTooSmall
  | invalidParameter
deriving DecidableEq

/-- The descriptors that are stored with `EFI_SUCCESS`, or an error status. -/
abbrev MemoryMapAnswer := Except MapError (List EfiMemoryDescriptor)

/-- The buffer of the caller with the map at its start. -/
def MapBuffer.ofMap (map : List EfiMemoryDescriptor) (rest : Int → EfiMemoryDescriptor) :
    MapBuffer where
  slots i := if 0 ≤ i then (map[i.toNat]?).getD (rest i) else rest i
  indexOld := map.length
  writes := []

/-- `CoreGetMemoryMapPropertiesTable` with a buffer of `memoryMapSize` bytes that holds
`rest` where `CoreGetMemoryMap` does not write. -/
def coreGetMemoryMapPropertiesTable (turns : Nat) (data : PrivateData)
    (memoryMapSize descriptorSize : Nat) (rest : Int → EfiMemoryDescriptor)
    (coreGetMemoryMap : MemoryMapAnswer) : Option (MemoryMapAnswer × MapBuffer) :=
  match coreGetMemoryMap with
  | .error status => some (.error status, .ofMap [] rest)
  | .ok map =>
    let b := MapBuffer.ofMap map rest
    if !data.nonExecutablePeData then some (.ok map, b)
    else if memoryMapSize - map.length * descriptorSize <
        descriptorSize * additionalRecordCount data then
      some (.error .bufferTooSmall, b)
    else
      (splitTable turns data b map.length).map fun (b, map) => (.ok map, b)

end PropertiesTable
end Udk
