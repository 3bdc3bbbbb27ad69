import Udk.ByteMemory
import Udk.Bytes

/-!
# Saving an S3 boot script

`BootScriptSave.c` before SmmReadyToLock: the table grows in pages below 4 GB, and each call
appends one packed record.  `UINTN` has 64 bits.  A buffer is the memory from its first byte on.
-/

namespace Udk
namespace BootScript

inductive EfiStatus
  | success
  | invalidParameter
  | unsupported
  | bufferTooSmall
  | deviceError
  | other (code : Nat)
  deriving DecidableEq, Repr

/-- `EFI_ERROR`.  Other codes are errors if they have the highest bit. -/
def EfiStatus.isError : EfiStatus → Bool
  | .success => false
  | .other code => decide (2 ^ 63 ≤ code)
  | _ => true

/-- `S3_BOOT_SCRIPT_LIB_WIDTH`. -/
inductive LibWidth
  | uint8
  | uint16
  | uint32
  | uint64
  | fifoUint8
  | fifoUint16
  | fifoUint32
  | fifoUint64
  | fillUint8
  | fillUint16
  | fillUint32
  | fillUint64
  deriving DecidableEq, Repr

/-- The number of a width. -/
def LibWidth.code : LibWidth → Nat
  | .uint8 => 0
  | .uint16 => 1
  | .uint32 => 2
  | .uint64 => 3
  | .fifoUint8 => 4
  | .fifoUint16 => 5
  | .fifoUint32 => 6
  | .fifoUint64 => 7
  | .fillUint8 => 8
  | .fillUint16 => 9
  | .fillUint32 => 10
  | .fillUint64 => 11

/-- `S3BootScriptWidthMaximum`. -/
def widthMaximum : Nat := 12

/-- `0x01 << (Width & 0x03)` -/
def widthInByte (width : Nat) : Nat :=
  1 <<< (width &&& 3)

def ioWriteOpcode : Nat := 0x00
def ioReadWriteOpcode : Nat := 0x01
def memWriteOpcode : Nat := 0x02
def memReadWriteOpcode : Nat := 0x03
def pciConfigWriteOpcode : Nat := 0x04
def pciConfigReadWriteOpcode : Nat := 0x05
def smbusExecuteOpcode : Nat := 0x06
def stallOpcode : Nat := 0x07
def dispatchOpcode : Nat := 0x08
def dispatch2Opcode : Nat := 0x09
def informationOpcode : Nat := 0x0A
def pciConfig2WriteOpcode : Nat := 0x0B
def pciConfig2ReadWriteOpcode : Nat := 0x0C
def ioPollOpcode : Nat := 0x0D
def memPollOpcode : Nat := 0x0E
def pciConfigPollOpcode : Nat := 0x0F
def pciConfig2PollOpcode : Nat := 0x10
def tableOpcode : Nat := 0xAA
def labelOpcode : Nat := 0xFE
def terminateOpcode : Nat := 0xFF

section Table

/-- `PcdS3BootScriptRuntimeTableReservePageNumber`, and the address of each allocation. -/
structure Platform where
  reserve : Nat
  place : Nat → Nat
  reserve_lt : reserve < 2 ^ 16
  place_pos : ∀ n, 0 < place n

/-- The memory, `SCRIPT_TABLE_PRIVATE_DATA`, the number of allocations so far, and the pages that
the table really has. -/
structure State where
  memory : Memory
  tableBase : Nat
  tableLength : Nat
  tableMemoryPageNumber : Nat
  allocations : Nat
  pages : Nat

/-- There is no table yet. -/
def State.fresh (memory : Memory) : State where
  memory := memory
  tableBase := 0
  tableLength := 0
  tableMemoryPageNumber := 0
  allocations := 0
  pages := 0

/-- `sizeof (EFI_BOOT_SCRIPT_TABLE_HEADER)`. -/
def sizeofTableHeader : Nat := 13

/-- `sizeof (EFI_BOOT_SCRIPT_TERMINATE)`. -/
def sizeofTerminate : Nat := 3

/-- `EFI_BOOT_SCRIPT_TABLE_HEADER` without the reserved bytes. -/
def tableHeader (tableLength : Nat) : Bytes :=
  toLE 2 tableOpcode ++ toLE 1 sizeofTableHeader ++ toLE 2 1 ++ toLE 4 tableLength

variable (plat : Platform) (st : State)

/-- The first table of `S3BootScriptGetBootTimeEntryAddAddress`. -/
def allocateTable : State where
  memory := storeBytes st.memory (plat.place st.allocations) (tableHeader 0)
  tableBase := plat.place st.allocations
  tableLength := sizeofTableHeader
  tableMemoryPageNumber := (2 + plat.reserve) % 2 ^ 16
  allocations := st.allocations + 1
  pages := 2 + plat.reserve

/-- The pages that are not reserved for the runtime, as a `UINT16`. -/
def bootTimePages : Nat :=
  (st.tableMemoryPageNumber + 2 ^ 16 - plat.reserve) % 2 ^ 16

/-- The larger table of `S3BootScriptGetBootTimeEntryAddAddress`. -/
def reallocateTable : State :=
  let base := plat.place st.allocations
  { st with
    memory := storeBytes st.memory base (peek st.memory st.tableBase st.tableLength)
    tableBase := base
    tableMemoryPageNumber := (2 + bootTimePages plat st + plat.reserve) % 2 ^ 16
    allocations := st.allocations + 1
    pages := 2 + bootTimePages plat st + plat.reserve }

/-- `S3BootScriptGetBootTimeEntryAddAddress`: the address of the entry, and the state. -/
def s3BootScriptGetBootTimeEntryAddAddress (entryLength : Nat) : Nat × State :=
  let st := if st.tableBase = 0 then allocateTable plat st else st
  let tableLength := st.tableLength
  let st :=
    if bootTimePages plat st * 4096 < (tableLength + entryLength) % 2 ^ 32 + sizeofTerminate then
      reallocateTable plat st
    else
      st
  (st.tableBase + tableLength, { st with tableLength := (tableLength + entryLength) % 2 ^ 32 })

/-- `S3BootScriptInternalCloseTable`. -/
def s3BootScriptInternalCloseTable : State :=
  if st.tableBase = 0 then
    st
  else
    let memory := storeBytes st.memory (st.tableBase + st.tableLength)
      (toLE 2 terminateOpcode ++ toLE 1 sizeofTerminate)
    { st with
      memory := storeBytes memory (st.tableBase + 5) (toLE 4 (st.tableLength + sizeofTerminate)) }

/-- What all the calls have in common: a header with the opcode and the length as a `UINT8`, the
other fields of the record, and the data behind them. -/
def saveRecord (opcode : Nat) (fields data : Bytes) : EfiStatus × State :=
  let length := (3 + fields.length + data.length) % 256
  let (script, st) := s3BootScriptGetBootTimeEntryAddAddress plat st length
  (.success,
    { st with
      memory := storeBytes st.memory script (toLE 2 opcode ++ toLE 1 length ++ fields ++ data) })

end Table

section Calls

variable (plat : Platform) (st : State)

/-- The data of the write records. -/
def writeData (width : LibWidth) (count : UInt64) (buffer : Memory) : Bytes :=
  peek buffer 0 ((widthInByte width.code * count.toNat) % 2 ^ 64)

/-- The data of the records with a mask. -/
def maskedData (width : LibWidth) (data dataMask : Memory) : Bytes :=
  peek data 0 (widthInByte width.code) ++ peek dataMask 0 (widthInByte width.code)

/-- The widths that the PCI calls refuse. -/
def is64Bit (width : LibWidth) : Prop :=
  width = .uint64 ∨ width = .fifoUint64 ∨ width = .fillUint64

instance (width : LibWidth) : Decidable (is64Bit width) :=
  inferInstanceAs (Decidable (_ ∨ _ ∨ _))

def s3BootScriptSaveIoWrite (width : LibWidth) (address count : UInt64) (buffer : Memory) :
    EfiStatus × State :=
  saveRecord plat st ioWriteOpcode
    (toLE 4 width.code ++ toLE 4 count.toNat ++ toLE 8 address.toNat)
    (writeData width count buffer)

def s3BootScriptSaveIoReadWrite (width : LibWidth) (address : UInt64) (data dataMask : Memory) :
    EfiStatus × State :=
  saveRecord plat st ioReadWriteOpcode (toLE 4 width.code ++ toLE 8 address.toNat)
    (maskedData width data dataMask)

def s3BootScriptSaveMemWrite (width : LibWidth) (address count : UInt64) (buffer : Memory) :
    EfiStatus × State :=
  saveRecord plat st memWriteOpcode
    (toLE 4 width.code ++ toLE 4 count.toNat ++ toLE 8 address.toNat)
    (writeData width count buffer)

def s3BootScriptSaveMemReadWrite (width : LibWidth) (address : UInt64) (data dataMask : Memory) :
    EfiStatus × State :=
  saveRecord plat st memReadWriteOpcode (toLE 4 width.code ++ toLE 8 address.toNat)
    (maskedData width data dataMask)

def s3BootScriptSavePciCfgWrite (width : LibWidth) (address count : UInt64) (buffer : Memory) :
    EfiStatus × State :=
  if is64Bit width then
    (.invalidParameter, st)
  else
    saveRecord plat st pciConfigWriteOpcode
      (toLE 4 width.code ++ toLE 4 count.toNat ++ toLE 8 address.toNat)
      (writeData width count buffer)

def s3BootScriptSavePciCfgReadWrite (width : LibWidth) (address : UInt64)
    (data dataMask : Memory) : EfiStatus × State :=
  if is64Bit width then
    (.invalidParameter, st)
  else
    saveRecord plat st pciConfigReadWriteOpcode (toLE 4 width.code ++ toLE 8 address.toNat)
      (maskedData width data dataMask)

def s3BootScriptSavePciCfg2Write (width : LibWidth) (segment : UInt16) (address count : UInt64)
    (buffer : Memory) : EfiStatus × State :=
  if segment ≠ 0 ∨ is64Bit width then
    (.invalidParameter, st)
  else
    saveRecord plat st pciConfig2WriteOpcode
      (toLE 4 width.code ++ toLE 4 count.toNat ++ toLE 8 address.toNat ++ toLE 2 segment.toNat)
      (writeData width count buffer)

def s3BootScriptSavePciCfg2ReadWrite (width : LibWidth) (segment : UInt16) (address : UInt64)
    (data dataMask : Memory) : EfiStatus × State :=
  if segment ≠ 0 ∨ is64Bit width then
    (.invalidParameter, st)
  else
    saveRecord plat st pciConfig2ReadWriteOpcode
      (toLE 4 width.code ++ toLE 8 address.toNat ++ toLE 2 segment.toNat)
      (maskedData width data dataMask)

/-- `SMBUS_LIB_COMMAND`. -/
def smbusLibCommand (smBusAddress : Nat) : Nat :=
  (smBusAddress >>> 8) &&& 0xff

/-- `SMBUS_LIB_PEC`. -/
def smbusLibPec (smBusAddress : Nat) : Bool :=
  smBusAddress.testBit 22

/-- `CheckParameters`: the status and the length.  A missing buffer is `none`; the pointer to the
length is always there. -/
def checkParameters (smBusAddress operation length : Nat) (buffer : Option Memory) :
    EfiStatus × Nat :=
  let command := smbusLibCommand smBusAddress
  let transfer := fun requiredLen =>
    if buffer.isNone then
      (EfiStatus.invalidParameter, length)
    else
      (if length < requiredLen then .bufferTooSmall else .success, requiredLen)
  match operation with
  | 0 | 1 =>
      if smbusLibPec smBusAddress = true ∨ command ≠ 0 then
        (.unsupported, length)
      else
        (.success, length)
  | 2 | 3 => if command ≠ 0 then (.unsupported, length) else transfer 1
  | 4 | 5 => transfer 1
  | 6 | 7 | 10 => transfer 2
  | 8 | 9 | 11 =>
      if buffer.isNone ∨ length < 1 ∨ 32 < length then
        (.invalidParameter, length)
      else
        (.success, length)
  | _ => (.invalidParameter, length)

/-- Missing buffers are read as zeros. -/
def s3BootScriptSaveSmbusExecute (smBusAddress : UInt64) (operation : UInt32)
    (length : Option UInt64) (buffer : Option Memory) : EfiStatus × State :=
  let bufferLength := (length.map UInt64.toNat).getD 0
  match checkParameters smBusAddress.toNat operation.toNat bufferLength buffer with
  | (.success, bufferLength) =>
      saveRecord plat st smbusExecuteOpcode
        (toLE 8 smBusAddress.toNat ++ toLE 4 operation.toNat ++ toLE 4 bufferLength)
        (peek (buffer.getD fun _ => 0) 0 bufferLength)
  | (status, _) => (status, st)

def s3BootScriptSaveStall (duration : UInt64) : EfiStatus × State :=
  saveRecord plat st stallOpcode (toLE 8 duration.toNat) []

def s3BootScriptSaveDispatch2 (entryPoint context : UInt64) : EfiStatus × State :=
  saveRecord plat st dispatch2Opcode (toLE 8 entryPoint.toNat ++ toLE 8 context.toNat) []

def s3BootScriptSaveMemPoll (width : LibWidth) (address : UInt64) (bitMask bitValue : Memory)
    (duration loopTimes : UInt64) : EfiStatus × State :=
  saveRecord plat st memPollOpcode
    (toLE 4 width.code ++ toLE 8 address.toNat ++ toLE 8 duration.toNat ++
      toLE 8 loopTimes.toNat)
    (maskedData width bitValue bitMask)

def s3BootScriptSaveInformation (informationLength : UInt32) (information : Memory) :
    EfiStatus × State :=
  saveRecord plat st informationOpcode (toLE 4 informationLength.toNat)
    (peek information 0 informationLength.toNat)

def s3BootScriptSaveDispatch (entryPoint : UInt64) : EfiStatus × State :=
  saveRecord plat st dispatchOpcode (toLE 8 entryPoint.toNat) []

def s3BootScriptSaveIoPoll (width : LibWidth) (address : UInt64) (data dataMask : Memory)
    (delay : UInt64) : EfiStatus × State :=
  saveRecord plat st ioPollOpcode
    (toLE 4 width.code ++ toLE 8 address.toNat ++ toLE 8 delay.toNat)
    (maskedData width data dataMask)

def s3BootScriptSavePciPoll (width : LibWidth) (address : UInt64) (data dataMask : Memory)
    (delay : UInt64) : EfiStatus × State :=
  if is64Bit width then
    (.invalidParameter, st)
  else
    saveRecord plat st pciConfigPollOpcode
      (toLE 4 width.code ++ toLE 8 address.toNat ++ toLE 8 delay.toNat)
      (maskedData width data dataMask)

def s3BootScriptSavePci2Poll (width : LibWidth) (segment : UInt16) (address : UInt64)
    (data dataMask : Memory) (delay : UInt64) : EfiStatus × State :=
  if segment ≠ 0 ∨ is64Bit width then
    (.invalidParameter, st)
  else
    saveRecord plat st pciConfig2PollOpcode
      (toLE 4 width.code ++ toLE 8 address.toNat ++ toLE 2 segment.toNat ++ toLE 8 delay.toNat)
      (maskedData width data dataMask)

end Calls

/-- A call of the library with its arguments. -/
inductive Call
  | ioWrite (width : LibWidth) (address count : UInt64) (buffer : Memory)
  | ioReadWrite (width : LibWidth) (address : UInt64) (data dataMask : Memory)
  | memWrite (width : LibWidth) (address count : UInt64) (buffer : Memory)
  | memReadWrite (width : LibWidth) (address : UInt64) (data dataMask : Memory)
  | pciCfgWrite (width : LibWidth) (address count : UInt64) (buffer : Memory)
  | pciCfgReadWrite (width : LibWidth) (address : UInt64) (data dataMask : Memory)
  | pciCfg2Write (width : LibWidth) (segment : UInt16) (address count : UInt64)
      (buffer : Memory)
  | pciCfg2ReadWrite (width : LibWidth) (segment : UInt16) (address : UInt64)
      (data dataMask : Memory)
  | smbusExecute (smBusAddress : UInt64) (operation : UInt32) (length : Option UInt64)
      (buffer : Option Memory)
  | stall (duration : UInt64)
  | dispatch2 (entryPoint context : UInt64)
  | memPoll (width : LibWidth) (address : UInt64) (bitMask bitValue : Memory)
      (duration loopTimes : UInt64)
  | information (informationLength : UInt32) (information : Memory)
  | dispatch (entryPoint : UInt64)
  | ioPoll (width : LibWidth) (address : UInt64) (data dataMask : Memory) (delay : UInt64)
  | pciPoll (width : LibWidth) (address : UInt64) (data dataMask : Memory) (delay : UInt64)
  | pci2Poll (width : LibWidth) (segment : UInt16) (address : UInt64) (data dataMask : Memory)
      (delay : UInt64)

/-- The call. -/
def save (plat : Platform) (st : State) : Call → EfiStatus × State
  | .ioWrite width address count buffer =>
      s3BootScriptSaveIoWrite plat st width address count buffer
  | .ioReadWrite width address data dataMask =>
      s3BootScriptSaveIoReadWrite plat st width address data dataMask
  | .memWrite width address count buffer =>
      s3BootScriptSaveMemWrite plat st width address count buffer
  | .memReadWrite width address data dataMask =>
      s3BootScriptSaveMemReadWrite plat st width address data dataMask
  | .pciCfgWrite width address count buffer =>
      s3BootScriptSavePciCfgWrite plat st width address count buffer
  | .pciCfgReadWrite width address data dataMask =>
      s3BootScriptSavePciCfgReadWrite plat st width address data dataMask
  | .pciCfg2Write width segment address count buffer =>
      s3BootScriptSavePciCfg2Write plat st width segment address count buffer
  | .pciCfg2ReadWrite width segment address data dataMask =>
      s3BootScriptSavePciCfg2ReadWrite plat st width segment address data dataMask
  | .smbusExecute smBusAddress operation length buffer =>
      s3BootScriptSaveSmbusExecute plat st smBusAddress operation length buffer
  | .stall duration => s3BootScriptSaveStall plat st duration
  | .dispatch2 entryPoint context => s3BootScriptSaveDispatch2 plat st entryPoint context
  | .memPoll width address bitMask bitValue duration loopTimes =>
      s3BootScriptSaveMemPoll plat st width address bitMask bitValue duration loopTimes
  | .information informationLength information =>
      s3BootScriptSaveInformation plat st informationLength information
  | .dispatch entryPoint => s3BootScriptSaveDispatch plat st entryPoint
  | .ioPoll width address data dataMask delay =>
      s3BootScriptSaveIoPoll plat st width address data dataMask delay
  | .pciPoll width address data dataMask delay =>
      s3BootScriptSavePciPoll plat st width address data dataMask delay
  | .pci2Poll width segment address data dataMask delay =>
      s3BootScriptSavePci2Poll plat st width segment address data dataMask delay

end BootScript
end Udk
