import Udk.PiDxeS3BootScriptLib.BootScriptExecute

/-!
# What a saved call means

The operation of a call on a machine, without the packed format, and the calls that the format
can hold.
-/

namespace Udk
namespace BootScript

universe u

section Widths

variable (width : LibWidth)

/-- The bytes of one access. -/
def LibWidth.size : Nat :=
  widthInByte width.code

/-- All accesses go to one address. -/
def LibWidth.isFifo : Prop :=
  4 ≤ width.code ∧ width.code ≤ 7

/-- All accesses have the same value. -/
def LibWidth.isFill : Prop :=
  8 ≤ width.code ∧ width.code ≤ 11

instance : Decidable width.isFifo :=
  inferInstanceAs (Decidable (_ ∧ _))

instance : Decidable width.isFill :=
  inferInstanceAs (Decidable (_ ∧ _))

/-- The value at an offset of a buffer. -/
def valueAt (buffer : Memory) (offset size : Nat) : Nat :=
  ofLE (peek buffer offset size)

end Widths

section Operations

variable {σ : Type u} (m : Machine σ) (space : Space) (width : LibWidth)

/-- Where an access goes.  It is aligned, and a port is in the port space. -/
def target (address : Nat) : Option Nat :=
  match accessAddress space address with
  | none => none
  | some a => if a % width.size = 0 then some a else none

/-- Some writes from an address on. -/
def writeAll (address : Nat) (buffer : Memory) : Nat → σ → σ
  | 0, s => s
  | i + 1, s =>
      m.write space width.size
        (if width.isFifo then address else (address + i * width.size) % 2 ^ 64)
        (valueAt buffer (if width.isFill then 0 else i * width.size) width.size)
        (writeAll address buffer i s)

/-- A value is read. -/
def readValue (address : Nat) (s : σ) : Nat × σ :=
  let (value, s) := m.read space width.size address s
  (value % 256 ^ width.size, s)

/-- Reads after a delay until the masked value is right. -/
def pollTimes (address dataMask data : Nat) (delay : σ → σ) : Nat → σ → EfiStatus × σ
  | 0, s => (.deviceError, s)
  | n + 1, s =>
      let (value, s) := readValue m space width address (delay s)
      if value &&& dataMask = data then
        (.success, s)
      else
        pollTimes address dataMask data delay n s

/-- A write of some values. -/
def performWrite (address count : Nat) (buffer : Memory) (s : σ) : EfiStatus × σ :=
  match target space width address with
  | none => (.invalidParameter, s)
  | some a => (.success, writeAll m space width a buffer count s)

/-- `(value AND mask) OR data` is written back. -/
def performReadWrite (address : Nat) (data dataMask : Memory) (s : σ) : EfiStatus × σ :=
  match target space width address with
  | none => (.invalidParameter, s)
  | some a =>
      let (value, s) := readValue m space width a s
      (.success, m.write space width.size a
        ((value &&& valueAt dataMask 0 width.size) ||| valueAt data 0 width.size) s)

/-- A poll ends when `(value AND mask)` equals the data, or after some delays. -/
def performPoll (address : Nat) (data dataMask : Memory) (delay : σ → σ) (times : Nat) (s : σ) :
    EfiStatus × σ :=
  match target space width address with
  | none => (.deviceError, delay^[times] s)
  | some a =>
      let (value, s) := readValue m space width a s
      if value &&& valueAt dataMask 0 width.size = valueAt data 0 width.size then
        (.success, s)
      else
        pollTimes m space width a (valueAt dataMask 0 width.size) (valueAt data 0 width.size)
          delay times s

end Operations

section Meaning

variable {σ : Type u} (m : Machine σ)

/-- The length that `CheckParameters` leaves. -/
def smbusLength (smBusAddress : UInt64) (operation : UInt32) (length : Option UInt64)
    (buffer : Option Memory) : Nat :=
  (checkParameters smBusAddress.toNat operation.toNat ((length.map UInt64.toNat).getD 0)
    buffer).2

/-- The operation of a call. -/
def perform (s : σ) : Call → EfiStatus × σ
  | .ioWrite width address count buffer =>
      performWrite m .io width address.toNat count.toNat buffer s
  | .ioReadWrite width address data dataMask =>
      performReadWrite m .io width address.toNat data dataMask s
  | .memWrite width address count buffer =>
      performWrite m .mem width address.toNat count.toNat buffer s
  | .memReadWrite width address data dataMask =>
      performReadWrite m .mem width address.toNat data dataMask s
  | .pciCfgWrite width address count buffer =>
      performWrite m .pci width address.toNat count.toNat buffer s
  | .pciCfgReadWrite width address data dataMask =>
      performReadWrite m .pci width address.toNat data dataMask s
  | .pciCfg2Write width _ address count buffer =>
      performWrite m .pci width address.toNat count.toNat buffer s
  | .pciCfg2ReadWrite width _ address data dataMask =>
      performReadWrite m .pci width address.toNat data dataMask s
  | .smbusExecute smBusAddress operation length buffer =>
      smbusExecute m smBusAddress.toNat operation.toNat
        (smbusLength smBusAddress operation length buffer)
        (peek (buffer.getD fun _ => 0) 0) s
  | .stall duration => (.success, m.microSecondDelay duration.toNat s)
  | .dispatch2 entryPoint context => m.entryFunc entryPoint.toNat context.toNat s
  | .memPoll width address bitMask bitValue duration loopTimes =>
      performPoll m .mem width address.toNat bitValue bitMask
        (m.microSecondDelay duration.toNat) loopTimes.toNat s
  | .information _ _ => (.success, s)
  | .dispatch entryPoint => m.entryFunc entryPoint.toNat 0 s
  | .ioPoll width address data dataMask delay =>
      performPoll m .io width address.toNat data dataMask (m.nanoSecondDelay 100) delay.toNat s
  | .pciPoll width address data dataMask delay =>
      performPoll m .pci width address.toNat data dataMask (m.nanoSecondDelay 100) delay.toNat s
  | .pci2Poll width _ address data dataMask delay =>
      performPoll m .pci width address.toNat data dataMask (m.nanoSecondDelay 100) delay.toNat s

/-- The operations of some calls in order, up to the first one that fails. -/
def replay : List Call → σ → EfiStatus × σ
  | [], s => (.success, s)
  | call :: calls, s =>
      let (status, s) := perform m s call
      if status.isError then (status, s) else replay calls s

end Meaning

section Limits

/-- What a call answers without a look at the table. -/
def Call.verdict : Call → EfiStatus
  | .pciCfgWrite width _ _ _ | .pciCfgReadWrite width _ _ _ | .pciPoll width _ _ _ _ =>
      if is64Bit width then .invalidParameter else .success
  | .pciCfg2Write width segment _ _ _ | .pciCfg2ReadWrite width segment _ _ _
  | .pci2Poll width segment _ _ _ _ =>
      if segment ≠ 0 ∨ is64Bit width then .invalidParameter else .success
  | .smbusExecute smBusAddress operation length buffer =>
      (checkParameters smBusAddress.toNat operation.toNat ((length.map UInt64.toNat).getD 0)
        buffer).1
  | _ => .success

/-- The bytes that the record of a call takes. -/
def Call.size : Call → Nat
  | .ioWrite width _ count _ | .memWrite width _ count _ | .pciCfgWrite width _ count _ =>
      19 + width.size * count.toNat
  | .pciCfg2Write width _ _ count _ => 21 + width.size * count.toNat
  | .ioReadWrite width _ _ _ | .memReadWrite width _ _ _ | .pciCfgReadWrite width _ _ _ =>
      15 + width.size * 2
  | .pciCfg2ReadWrite width _ _ _ _ => 17 + width.size * 2
  | .smbusExecute smBusAddress operation length buffer =>
      19 + smbusLength smBusAddress operation length buffer
  | .stall _ | .dispatch _ => 11
  | .dispatch2 _ _ => 19
  | .memPoll width _ _ _ _ _ => 31 + width.size * 2
  | .information informationLength _ => 7 + informationLength.toNat
  | .ioPoll width _ _ _ _ | .pciPoll width _ _ _ _ => 23 + width.size * 2
  | .pci2Poll width _ _ _ _ _ => 25 + width.size * 2

/-- The width of a call with a mask. -/
def Call.maskWidth : Call → Option LibWidth
  | .ioReadWrite width _ _ _ | .memReadWrite width _ _ _ | .pciCfgReadWrite width _ _ _
  | .pciCfg2ReadWrite width _ _ _ _ | .memPoll width _ _ _ _ _ | .ioPoll width _ _ _ _
  | .pciPoll width _ _ _ _ | .pci2Poll width _ _ _ _ _ => some width
  | _ => none

/-- Where the records end. -/
def State.recordsEnd (st : State) : Nat :=
  if st.tableBase = 0 then sizeofTableHeader else st.tableLength

/-- A call that the format can hold: its record is shorter than 256 bytes, its masks are decoded,
and the pages of the table can still be counted. -/
structure Sound (st : State) (call : Call) : Prop where
  short : call.size < 256
  masks : ∀ width, call.maskWidth = some width → ¬ width.isFifo ∧ ¬ width.isFill
  room : st.recordsEnd + call.size + sizeofTerminate ≤ 65534 * 4096

end Limits

section Runs

variable (plat : Platform)

/-- The state after some calls. -/
def saveAll (calls : List Call) (st : State) : State :=
  calls.foldl (fun st call => (save plat st call).2) st

/-- The calls that return success. -/
def successful : List Call → State → List Call
  | [], _ => []
  | call :: calls, st =>
      let (status, st) := save plat st call
      if status = .success then call :: successful calls st else successful calls st

/-- The records of a table. -/
def State.records (st : State) : Bytes :=
  if st.tableBase = 0 then
    []
  else
    peek st.memory (st.tableBase + sizeofTableHeader) (st.tableLength - sizeofTableHeader)

/-- What is promised of one call. -/
structure StepOk (st : State) (call : Call) : Prop where
  appends : (save plat st call).1 = .success → ∃ record : Bytes, record ≠ [] ∧
    (save plat st call).2.records = st.records ++ record ∧
    (save plat st call).2.recordsEnd = st.recordsEnd + record.length
  inside : (save plat st call).1 = .success → ∀ a,
    a < (save plat st call).2.tableBase ∨
      (save plat st call).2.tableBase + (save plat st call).2.pages * 4096 ≤ a →
    (save plat st call).2.memory a = st.memory a
  unchanged : (save plat st call).1 ≠ .success → (save plat st call).2 = st

end Runs

section Quiet

variable {σ : Type u} (m : Machine σ) (keeps : σ → Prop)

/-- Writes that keep something. -/
def QuietWrite (space : Space) (width : LibWidth) (address count : Nat) (buffer : Memory) (s : σ) :
    Prop :=
  ∀ a, target space width address = some a →
    ∀ i, i ≤ count → keeps (writeAll m space width a buffer i s)

/-- The operation of a call keeps something.  The writes of one record are looked at one by one,
as its data are read on the way. -/
def Quiet (s : σ) : Call → Prop
  | .ioWrite width address count buffer =>
      QuietWrite m keeps .io width address.toNat count.toNat buffer s
  | .memWrite width address count buffer =>
      QuietWrite m keeps .mem width address.toNat count.toNat buffer s
  | .pciCfgWrite width address count buffer | .pciCfg2Write width _ address count buffer =>
      QuietWrite m keeps .pci width address.toNat count.toNat buffer s
  | call => keeps (perform m s call).2

/-- All operations of a replay keep something. -/
def Undisturbed : List Call → σ → Prop
  | [], _ => True
  | call :: calls, s =>
      Quiet m keeps s call ∧
        ((perform m s call).1.isError = false → Undisturbed calls (perform m s call).2)

end Quiet

end BootScript
end Udk
