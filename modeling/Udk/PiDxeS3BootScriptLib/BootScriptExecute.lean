import Udk.PiDxeS3BootScriptLib.BootScriptSave

/-!
# Executing an S3 boot script

`BootScriptExecute.c` over a machine: the libraries for ports, memory, PCI configuration space,
SMBus and delays, and code at an address.  The interpreter reads its records in the memory of the
machine.
-/

namespace Udk
namespace BootScript

universe u

/-- The spaces that are read and written. -/
inductive Space
  | io
  | mem
  | pci
  deriving DecidableEq, Repr

/-- What the libraries do with the state of a machine.  Reads and code change it as they like. -/
structure Machine (σ : Type u) where
  memory : σ → Memory
  read : (space : Space) → (size address : Nat) → σ → Nat × σ
  write : (space : Space) → (size address value : Nat) → σ → σ
  smBus : (operation smBusAddress : Nat) → Bytes → σ → EfiStatus × σ
  microSecondDelay : Nat → σ → σ
  nanoSecondDelay : Nat → σ → σ
  entryFunc : (entryPoint context : Nat) → σ → EfiStatus × σ

/-- A field of a record in memory. -/
def fieldAt (mem : Memory) (script offset width : Nat) : Nat :=
  ofLE (peek mem (script + offset) width)

/-- `MAX_IO_ADDRESS`. -/
def maxIoAddress : Nat := 0xFFFF

/-- `PCI_ADDRESS_ENCODE`. -/
def pciAddressEncode (a : Nat) : Nat :=
  let register := ((a >>> 32) &&& 0xfff) ||| (a &&& 0xff)
  (register &&& 0xfff) ||| ((((a &&& 0xff00) >>> 8) &&& 0x07) <<< 12) |||
    ((((a &&& 0xff0000) >>> 16) &&& 0x1f) <<< 15) |||
    ((((a &&& 0xff000000) >>> 24) &&& 0xff) <<< 20)

/-- `BuildLoopData`: the strides of the address and of the buffer. -/
def buildLoopData (width address : Nat) : Option (Nat × Nat) :=
  if widthMaximum ≤ width then
    none
  else
    let addressStride := widthInByte width
    if address &&& (addressStride - 1) ≠ 0 then
      none
    else
      some (if 4 ≤ width ∧ width ≤ 7 then 0 else addressStride,
        if 8 ≤ width ∧ width ≤ 11 then 0 else addressStride)

section Accesses

variable {σ : Type u} (m : Machine σ)

/-- The address that `ScriptIoRead` and its siblings work with. -/
def accessAddress (space : Space) (address : Nat) : Option Nat :=
  match space with
  | .io => if maxIoAddress < address then none else some address
  | .mem => some address
  | .pci => some (pciAddressEncode address)

/-- What the functions do for a width without a case. -/
def otherWidth (space : Space) : EfiStatus :=
  match space with
  | .io | .pci => .invalidParameter
  | .mem => .unsupported

/-- There is a case for the width. -/
def hasCase (space : Space) (width : Nat) : Bool :=
  match space with
  | .io | .mem => decide (width < widthMaximum)
  | .pci => decide (width < widthMaximum ∧ width &&& 3 ≠ 3)

/-- `ScriptIoRead`, `ScriptMemoryRead` and `ScriptPciCfgRead` for one value. -/
def scriptRead (space : Space) (width address : Nat) (s : σ) : EfiStatus × Nat × σ :=
  match accessAddress space address with
  | none => (.invalidParameter, 0, s)
  | some address =>
      match buildLoopData width address with
      | none => (.invalidParameter, 0, s)
      | some _ =>
          if hasCase space width then
            let size := widthInByte width
            let (value, s) := m.read space size address s
            (.success, value % 256 ^ size, s)
          else
            (otherWidth space, 0, s)

/-- The loop of `ScriptIoWrite`, `ScriptMemoryWrite` and `ScriptPciCfgWrite`.  `fetch` reads the
buffer at an offset. -/
def writeLoop (space : Space) (width : Nat) (fetch : σ → Nat → Nat)
    (addressStride bufferStride originalAddress : Nat) : Nat → Nat → Nat → σ → EfiStatus × σ
  | 0, _, _, s => (.success, s)
  | count + 1, address, offset, s =>
      if hasCase space width then
        let target := if 4 ≤ width ∧ width ≤ 7 then originalAddress else address
        let source := if 8 ≤ width ∧ width ≤ 11 then 0 else offset
        let s := m.write space (widthInByte width) target (fetch s source) s
        writeLoop space width fetch addressStride bufferStride originalAddress count
          ((address + addressStride) % 2 ^ 64) (offset + bufferStride) s
      else
        (otherWidth space, s)

/-- `ScriptIoWrite`, `ScriptMemoryWrite` and `ScriptPciCfgWrite`. -/
def scriptWrite (space : Space) (width address count : Nat) (fetch : σ → Nat → Nat) (s : σ) :
    EfiStatus × σ :=
  match accessAddress space address with
  | none => (.invalidParameter, s)
  | some address =>
      match buildLoopData width address with
      | none => (.invalidParameter, s)
      | some (addressStride, bufferStride) =>
          writeLoop m space width fetch addressStride bufferStride address count address 0 s

/-- The values of a buffer in memory. -/
def memoryBuffer (width buffer : Nat) (s : σ) (offset : Nat) : Nat :=
  fieldAt (m.memory s) buffer offset (widthInByte width)

/-- The low bytes of a variable. -/
def variableBuffer (width data : Nat) (_ : σ) (_ : Nat) : Nat :=
  data % 256 ^ widthInByte width

/-- A read, a change and a write back. -/
def scriptReadWrite (space : Space) (width address andMask orMask : Nat) (s : σ) :
    EfiStatus × σ :=
  match scriptRead m space width address s with
  | (.success, data, s) =>
      scriptWrite m space width address 1 (variableBuffer width ((data &&& andMask) ||| orMask)) s
  | (status, _, s) => (status, s)

/-- The turns of the loop of the poll functions. -/
def pollLoop (space : Space) (width address andMask orMask : Nat) (delay : σ → σ) :
    Nat → σ → EfiStatus × σ
  | 0, s => (.deviceError, s)
  | loopTimes + 1, s =>
      let (status, data, s) := scriptRead m space width address (delay s)
      if status = .success ∧ data &&& andMask = orMask then
        (.success, s)
      else
        pollLoop space width address andMask orMask delay loopTimes s

/-- A first read, and more of them after a delay. -/
def scriptPoll (space : Space) (width address andMask orMask : Nat) (delay : σ → σ)
    (loopTimes : Nat) (s : σ) : EfiStatus × σ :=
  let (status, data, s) := scriptRead m space width address s
  if status = .success ∧ data &&& andMask = orMask then
    (.success, s)
  else
    pollLoop m space width address andMask orMask delay loopTimes s

/-- `SmbusExecute`.  The buffer has at least the bytes that the operation takes. -/
def smbusExecute (smBusAddress operation length : Nat) (buffer : Nat → Bytes) (s : σ) :
    EfiStatus × σ :=
  match operation with
  | 0 | 1 | 2 | 4 | 6 | 8 => m.smBus operation smBusAddress [] s
  | 3 | 5 => m.smBus operation smBusAddress (buffer 1) s
  | 7 | 10 => m.smBus operation smBusAddress (buffer 2) s
  | 9 | 11 =>
      m.smBus operation ((smBusAddress + (length &&& 0x3f) <<< 16) % 2 ^ 64) (buffer length) s
  | _ => (.invalidParameter, s)

end Accesses

section Entries

variable {σ : Type u} (m : Machine σ) (script : Nat) (s : σ)

/-- A record of a write whose header has a size. -/
def executeWrite (space : Space) (sizeofHeader : Nat) : EfiStatus × σ :=
  let mem := m.memory s
  let width := fieldAt mem script 3 4
  let count := fieldAt mem script 7 4
  let address := fieldAt mem script 11 8
  scriptWrite m space width address count (memoryBuffer m width (script + sizeofHeader)) s

def bootScriptExecuteIoWrite : EfiStatus × σ :=
  executeWrite m script s .io 19

def bootScriptExecuteMemoryWrite : EfiStatus × σ :=
  executeWrite m script s .mem 19

def bootScriptExecutePciCfgWrite : EfiStatus × σ :=
  executeWrite m script s .pci 19

/-- The segment is 0. -/
def bootScriptExecutePciCfg2Write : EfiStatus × σ :=
  executeWrite m script s .pci 21

/-- A record of a read and a write. -/
def executeReadWrite (space : Space) (andMask orMask : Nat) : EfiStatus × σ :=
  let mem := m.memory s
  scriptReadWrite m space (fieldAt mem script 3 4) (fieldAt mem script 7 8) andMask orMask s

def bootScriptExecuteIoReadWrite (andMask orMask : Nat) : EfiStatus × σ :=
  executeReadWrite m script s .io andMask orMask

def bootScriptExecuteMemoryReadWrite (andMask orMask : Nat) : EfiStatus × σ :=
  executeReadWrite m script s .mem andMask orMask

def bootScriptExecutePciCfgReadWrite (andMask orMask : Nat) : EfiStatus × σ :=
  executeReadWrite m script s .pci andMask orMask

/-- The segment is 0. -/
def bootScriptExecutePciCfg2ReadWrite (andMask orMask : Nat) : EfiStatus × σ :=
  executeReadWrite m script s .pci andMask orMask

def bootScriptExecuteSmbusExecute : EfiStatus × σ :=
  let mem := m.memory s
  smbusExecute m (fieldAt mem script 3 8) (fieldAt mem script 11 4) (fieldAt mem script 15 4)
    (peek mem (script + 19)) s

def bootScriptExecuteStall : EfiStatus × σ :=
  (.success, m.microSecondDelay (fieldAt (m.memory s) script 3 8) s)

def bootScriptExecuteDispatch : EfiStatus × σ :=
  m.entryFunc (fieldAt (m.memory s) script 3 8) 0 s

def bootScriptExecuteDispatch2 : EfiStatus × σ :=
  m.entryFunc (fieldAt (m.memory s) script 3 8) (fieldAt (m.memory s) script 11 8) s

def bootScriptExecuteMemPoll (andMask orMask : Nat) : EfiStatus × σ :=
  let mem := m.memory s
  scriptPoll m .mem (fieldAt mem script 3 4) (fieldAt mem script 7 8) andMask orMask
    (m.microSecondDelay (fieldAt mem script 15 8)) (fieldAt mem script 23 8) s

/-- A record of a poll with a number of delays of 100 ns. -/
def executePoll (space : Space) (delayOffset andMask orMask : Nat) : EfiStatus × σ :=
  let mem := m.memory s
  scriptPoll m space (fieldAt mem script 3 4) (fieldAt mem script 7 8) andMask orMask
    (m.nanoSecondDelay 100) (fieldAt mem script delayOffset 8) s

def bootScriptExecuteIoPoll (andMask orMask : Nat) : EfiStatus × σ :=
  executePoll m script s .io 15 andMask orMask

def bootScriptPciCfgPoll (andMask orMask : Nat) : EfiStatus × σ :=
  executePoll m script s .pci 15 andMask orMask

/-- The segment is 0. -/
def bootScriptPciCfg2Poll (andMask orMask : Nat) : EfiStatus × σ :=
  executePoll m script s .pci 17 andMask orMask

/-- `CheckAndOrMask`: the masks after the call, from the masks before it. -/
def checkAndOrMask (opcode width : Nat) (mem : Memory) (masks : Nat × Nat) : Nat × Nat :=
  let size :=
    if opcode = ioReadWriteOpcode ∨ opcode = memReadWriteOpcode ∨
        opcode = pciConfigReadWriteOpcode then
      some 15
    else if opcode = memPollOpcode then some 31
    else if opcode = ioPollOpcode ∨ opcode = pciConfigPollOpcode then some 23
    else if opcode = pciConfig2ReadWriteOpcode then some 17
    else if opcode = pciConfig2PollOpcode then some 25
    else none
  match size, width with
  | some size, 0 => (fieldAt mem script (size + 1) 1, fieldAt mem script size 1)
  | some size, 1 => (fieldAt mem script (size + 2) 2, fieldAt mem script size 2)
  | some size, 2 => (fieldAt mem script (size + 4) 4, fieldAt mem script size 4)
  | some size, 3 => (fieldAt mem script (size + 8) 8, fieldAt mem script size 8)
  | _, _ => masks

/-- What one entry of the table leads to. -/
inductive Turn (σ : Type u)
  | next (status : EfiStatus) (masks : Nat × Nat) (s : σ)
  | done (status : EfiStatus)

/-- The switch of `S3BootScriptExecute` on the opcode. -/
def executeEntry (masks : Nat × Nat) : Turn σ :=
  let mem := m.memory s
  let opcode := fieldAt mem script 0 2
  let width := fieldAt mem script 3 4
  let plain := fun (r : EfiStatus × σ) => Turn.next r.1 masks r.2
  let masked := fun (f : Nat → Nat → EfiStatus × σ) =>
    let masks := checkAndOrMask script opcode width mem masks
    let r := f masks.1 masks.2
    Turn.next r.1 masks r.2
  if opcode = memWriteOpcode then
    plain (bootScriptExecuteMemoryWrite m script s)
  else if opcode = memReadWriteOpcode then
    masked (bootScriptExecuteMemoryReadWrite m script s)
  else if opcode = ioWriteOpcode then
    plain (bootScriptExecuteIoWrite m script s)
  else if opcode = pciConfigWriteOpcode then
    plain (bootScriptExecutePciCfgWrite m script s)
  else if opcode = pciConfigReadWriteOpcode then
    masked (bootScriptExecutePciCfgReadWrite m script s)
  else if opcode = pciConfig2WriteOpcode then
    plain (bootScriptExecutePciCfg2Write m script s)
  else if opcode = pciConfig2ReadWriteOpcode then
    masked (bootScriptExecutePciCfg2ReadWrite m script s)
  else if opcode = dispatchOpcode then
    plain (bootScriptExecuteDispatch m script s)
  else if opcode = dispatch2Opcode then
    plain (bootScriptExecuteDispatch2 m script s)
  else if opcode = informationOpcode then
    plain (.success, s)
  else if opcode = terminateOpcode then
    .done .success
  else if opcode = ioReadWriteOpcode then
    masked (bootScriptExecuteIoReadWrite m script s)
  else if opcode = smbusExecuteOpcode then
    plain (bootScriptExecuteSmbusExecute m script s)
  else if opcode = stallOpcode then
    plain (bootScriptExecuteStall m script s)
  else if opcode = memPollOpcode then
    masked (bootScriptExecuteMemPoll m script s)
  else if opcode = ioPollOpcode then
    masked (bootScriptExecuteIoPoll m script s)
  else if opcode = pciConfigPollOpcode then
    masked (bootScriptPciCfgPoll m script s)
  else if opcode = pciConfig2PollOpcode then
    masked (bootScriptPciCfg2Poll m script s)
  else if opcode = labelOpcode then
    plain (.success, s)
  else
    .done .unsupported

end Entries

section Execute

variable {σ : Type u} (m : Machine σ)

/-- The loop of `S3BootScriptExecute` up to an address, with fuel.  The length of an entry is read
before it is executed. -/
def executeLoop (last : Nat) : Nat → Nat → EfiStatus → Nat × Nat → σ → Option (EfiStatus × σ)
  | 0, _, _, _, _ => none
  | fuel + 1, script, status, masks, s =>
      if script < last then
        let length := fieldAt (m.memory s) script 2 1
        match executeEntry m script s masks with
        | .done status => some (status, s)
        | .next status masks s =>
            if status.isError then
              some (status, s)
            else
              executeLoop last fuel (script + length) status masks s
      else
        some (status, s)

/-- `S3BootScriptExecute`, with fuel. -/
def s3BootScriptExecute (fuel tableBase : Nat) (s : σ) : Option (EfiStatus × σ) :=
  if tableBase = 0 then
    some (.invalidParameter, s)
  else
    let mem := m.memory s
    if fieldAt mem tableBase 0 2 ≠ tableOpcode then
      some (.unsupported, s)
    else
      executeLoop m (tableBase + fieldAt mem tableBase 5 4) fuel
        (tableBase + fieldAt mem tableBase 2 1) .success (0, 0) s

end Execute

end BootScript
end Udk
