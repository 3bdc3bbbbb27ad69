import Udk.Bytes

/-!
# Layout of variable records

A variable store is a 28-byte store header followed by records.  A record is a
`VARIABLE_HEADER`, or an `AUTHENTICATED_VARIABLE_HEADER` when the store has the
authenticated format, then the name and then the data.  A pointer to a record is
modelled by the memory from that address on, so the accessors below take the
bytes that start at the header.

The target is X64: `ALIGNMENT` is 1, so no padding stands between name and data,
and `HEADER_ALIGNMENT` is 4.
-/

namespace Udk
namespace Variable

/-- `VARIABLE_DATA`, the start id of a record. -/
def variableData : Nat := 0x55AA

/-- `VAR_ADDED`. -/
def varAdded : UInt8 := 0x3f

/-- `VAR_HEADER_VALID_ONLY`. -/
def varHeaderValidOnly : UInt8 := 0x7f

/-- `VAR_IN_DELETED_TRANSITION`, a mask. -/
def varInDeletedTransition : UInt8 := 0xfe

/-- `VAR_DELETED`, a mask. -/
def varDeleted : UInt8 := 0xfd

/-- `VAR_IN_DELETED_TRANSITION & VAR_ADDED`, the state of a record being replaced. -/
def varInTransition : UInt8 := varInDeletedTransition &&& varAdded

def efiVariableNonVolatile : UInt32 := 0x01
def efiVariableBootserviceAccess : UInt32 := 0x02
def efiVariableRuntimeAccess : UInt32 := 0x04
def efiVariableHardwareErrorRecord : UInt32 := 0x08
def efiVariableAuthenticatedWriteAccess : UInt32 := 0x10
def efiVariableTimeBasedAuthenticatedWriteAccess : UInt32 := 0x20
def efiVariableAppendWrite : UInt32 := 0x40

/-- `EFI_VARIABLE_ATTRIBUTES_MASK`. -/
def efiVariableAttributesMask : UInt32 := 0x7f

/-- `VARIABLE_ATTRIBUTE_AT_AW`. -/
def variableAttributeAtAw : UInt32 :=
  efiVariableAuthenticatedWriteAccess ||| efiVariableTimeBasedAuthenticatedWriteAccess

/-- `VARIABLE_ATTRIBUTE_NV_BS_RT`. -/
def variableAttributeNvBsRt : UInt32 :=
  efiVariableNonVolatile ||| efiVariableBootserviceAccess ||| efiVariableRuntimeAccess

/-- The attribute word has a bit of `mask`. -/
def hasAttribute (attributes mask : UInt32) : Bool :=
  attributes &&& mask != 0

/-- `HEADER_ALIGN`. -/
def headerAlign (n : Nat) : Nat :=
  (n + 3) / 4 * 4

theorem headerAlign_mod
    (n : Nat) :
    headerAlign n % 4 = 0 := by
  unfold headerAlign
  omega

theorem le_headerAlign
    (n : Nat) :
    n ≤ headerAlign n := by
  unfold headerAlign
  omega

theorem headerAlign_add
    {base : Nat} (n : Nat)
    (h : base % 4 = 0) :
    headerAlign (base + n) = base + headerAlign n := by
  unfold headerAlign
  omega

/-- A vendor GUID. -/
structure Guid where
  bytes : Bytes
  length_eq : bytes.length = 16
deriving DecidableEq

theorem length_zeroGuid : (List.replicate 16 (0 : UInt8)).length = 16 := by
  rfl

/-- The GUID at an address; memory that is not there reads as zero. -/
def Guid.read (mem : Bytes) : Guid :=
  ⟨(mem ++ List.replicate 16 0).take 16, by simp⟩

theorem Guid.read_append
    (guid : Guid) (rest : Bytes) :
    Guid.read (guid.bytes ++ rest) = guid := by
  obtain ⟨bytes, hlen⟩ := guid
  simp only [Guid.read, Guid.mk.injEq, List.append_assoc]
  exact List.take_left' hlen

/-- A zero-terminated `CHAR16` string, without its terminator. -/
structure Char16Str where
  chars : List UInt16
  no_nul : ∀ c ∈ chars, c ≠ 0
deriving DecidableEq

instance Char16Str.decidableNoNul (chars : List UInt16) : Decidable (∀ c ∈ chars, c ≠ 0) :=
  List.decidableBAll (fun c => c ≠ 0) chars

/-- The characters of a string as they lie in memory. -/
def char16Bytes (chars : List UInt16) : Bytes :=
  chars.flatMap (fun c => toLE 2 c.toNat)

@[simp] theorem char16Bytes_length
    (chars : List UInt16) :
    (char16Bytes chars).length = 2 * chars.length := by
  induction chars with
  | nil => rfl
  | cons c chars ih =>
      rw [char16Bytes, List.flatMap_cons, List.length_append, toLE_length]
      rw [char16Bytes] at ih
      rw [ih, List.length_cons]
      omega

namespace Char16Str

/-- The string with its terminator. -/
def bytes (s : Char16Str) : Bytes :=
  char16Bytes s.chars ++ [0, 0]

/-- `StrSize`. -/
def strSize (s : Char16Str) : Nat :=
  s.bytes.length

theorem strSize_eq
    (s : Char16Str) :
    s.strSize = 2 * s.chars.length + 2 := by
  simp [strSize, bytes]

end Char16Str

/-- The characters up to the first terminator, read from memory. -/
def readChars : Bytes → List UInt16
  | lo :: hi :: rest =>
      let c := UInt16.ofNat (ofLE [lo, hi])
      if c = 0 then [] else c :: readChars rest
  | _ => []

theorem readChars_no_nul
    (mem : Bytes) :
    ∀ c ∈ readChars mem, c ≠ 0 := by
  fun_induction readChars mem with
  | case1 _ _ _ c _ => simp
  | case2 _ _ rest c hc ih =>
      intro x hx
      rcases List.mem_cons.mp hx with rfl | hx
      · exact hc
      · exact ih x hx
  | case3 _ _ => simp

/-- The C string at an address. -/
def readChar16Str (mem : Bytes) : Char16Str :=
  ⟨readChars mem, readChars_no_nul mem⟩

theorem readChars_append
    {chars : List UInt16} (rest : Bytes)
    (h : ∀ c ∈ chars, c ≠ 0) :
    readChars (char16Bytes chars ++ [0, 0] ++ rest) = chars := by
  induction chars with
  | nil => rfl
  | cons c chars ih =>
      have hlt : c.toNat < 256 ^ 2 := c.toNat_lt
      have hread : UInt16.ofNat (ofLE (toLE 2 c.toNat)) = c := by
        rw [ofLE_toLE_of_lt hlt, UInt16.ofNat_toNat]
      obtain ⟨lo, hi, hle⟩ : ∃ lo hi, toLE 2 c.toNat = [lo, hi] := ⟨_, _, rfl⟩
      have hmem : char16Bytes (c :: chars) ++ [0, 0] ++ rest =
          lo :: hi :: (char16Bytes chars ++ [0, 0] ++ rest) := by
        simp [char16Bytes, List.flatMap_cons, hle]
      rw [hle] at hread
      rw [hmem, readChars]
      simp only [hread]
      rw [if_neg (h c List.mem_cons_self),
        ih (fun x hx => h x (List.mem_cons_of_mem _ hx))]

theorem readChar16Str_append
    (s : Char16Str) (rest : Bytes) :
    readChar16Str (s.bytes ++ rest) = s := by
  obtain ⟨chars, hchars⟩ := s
  simp only [readChar16Str, Char16Str.bytes, readChars_append rest hchars]

/-- `EFI_TIME`. -/
structure EfiTime where
  year : UInt16
  month : UInt8
  day : UInt8
  hour : UInt8
  minute : UInt8
  second : UInt8
  pad1 : UInt8
  nanosecond : UInt32
  timeZone : UInt16
  daylight : UInt8
  pad2 : UInt8
deriving DecidableEq

namespace EfiTime

/-- A cleared timestamp. -/
def zero : EfiTime := ⟨0, 0, 0, 0, 0, 0, 0, 0, 0, 0, 0⟩

def bytes (t : EfiTime) : Bytes :=
  toLE 2 t.year.toNat ++ [t.month, t.day, t.hour, t.minute, t.second, t.pad1] ++
    toLE 4 t.nanosecond.toNat ++ toLE 2 t.timeZone.toNat ++ [t.daylight, t.pad2]

@[simp] theorem bytes_length
    (t : EfiTime) :
    t.bytes.length = 16 := by
  simp [bytes]

/-- The timestamp at an address. -/
def read (mem : Bytes) : EfiTime where
  year := UInt16.ofNat (field mem 0 2)
  month := mem.getD 2 0
  day := mem.getD 3 0
  hour := mem.getD 4 0
  minute := mem.getD 5 0
  second := mem.getD 6 0
  pad1 := mem.getD 7 0
  nanosecond := UInt32.ofNat (field mem 8 4)
  timeZone := UInt16.ofNat (field mem 12 2)
  daylight := mem.getD 14 0
  pad2 := mem.getD 15 0

end EfiTime

/-- `VariableCompareTimeStampInternal`: the first time is not later than the second. -/
def variableCompareTimeStamp (firstTime secondTime : EfiTime) : Bool :=
  if firstTime.year != secondTime.year then decide (firstTime.year < secondTime.year)
  else if firstTime.month != secondTime.month then decide (firstTime.month < secondTime.month)
  else if firstTime.day != secondTime.day then decide (firstTime.day < secondTime.day)
  else if firstTime.hour != secondTime.hour then decide (firstTime.hour < secondTime.hour)
  else if firstTime.minute != secondTime.minute then
    decide (firstTime.minute < secondTime.minute)
  else decide (firstTime.second ≤ secondTime.second)

section Accessors

/-- `StartId` of the record at an address. -/
def startId (ptr : Bytes) : Nat :=
  field ptr 0 2

/-- `State`; memory that is not there reads as erased. -/
def state (ptr : Bytes) : UInt8 :=
  ptr.getD 2 0xff

def attributes (ptr : Bytes) : UInt32 :=
  UInt32.ofNat (field ptr 4 4)

variable (authFormat : Bool)

/-- `GetVariableHeaderSize`. -/
def getVariableHeaderSize : Nat :=
  if authFormat then 60 else 32

/-- Offset of the `NameSize` field; `DataSize` and `VendorGuid` follow it. -/
def nameSizeOffset : Nat :=
  if authFormat then 36 else 8

def nameSizeField (ptr : Bytes) : Nat :=
  field ptr (nameSizeOffset authFormat) 4

def dataSizeField (ptr : Bytes) : Nat :=
  field ptr (nameSizeOffset authFormat + 4) 4

/-- One of the fields that a finished header has set is still erased. -/
def sizesErased (ptr : Bytes) : Bool :=
  state ptr == 0xff || dataSizeField authFormat ptr == 0xffffffff ||
    nameSizeField authFormat ptr == 0xffffffff || attributes ptr == 0xffffffff

/-- `NameSizeOfVariable`. -/
def nameSizeOfVariable (ptr : Bytes) : Nat :=
  if sizesErased authFormat ptr then 0 else nameSizeField authFormat ptr

/-- `DataSizeOfVariable`. -/
def dataSizeOfVariable (ptr : Bytes) : Nat :=
  if sizesErased authFormat ptr then 0 else dataSizeField authFormat ptr

/-- `GET_PAD_SIZE`, with `ALIGNMENT` 1. -/
def getPadSize (_size : Nat) : Nat := 0

/-- `GetVariableNamePtr`. -/
def getVariableNamePtr (ptr : Bytes) : Bytes :=
  ptr.drop (getVariableHeaderSize authFormat)

/-- The GUID that `GetVendorGuidPtr` points to. -/
def vendorGuid (ptr : Bytes) : Guid :=
  Guid.read (ptr.drop (nameSizeOffset authFormat + 8))

/-- `GetVariableDataOffset`. -/
def getVariableDataOffset (ptr : Bytes) : Nat :=
  getVariableHeaderSize authFormat + nameSizeOfVariable authFormat ptr +
    getPadSize (nameSizeOfVariable authFormat ptr)

/-- `GetVariableDataPtr`. -/
def getVariableDataPtr (ptr : Bytes) : Bytes :=
  ptr.drop (getVariableDataOffset authFormat ptr)

/-- The `NameSizeOfVariable` bytes of the name. -/
def variableName (ptr : Bytes) : Bytes :=
  (getVariableNamePtr authFormat ptr).take (nameSizeOfVariable authFormat ptr)

/-- The `DataSizeOfVariable` bytes of the data. -/
def variableContents (ptr : Bytes) : Bytes :=
  (getVariableDataPtr authFormat ptr).take (dataSizeOfVariable authFormat ptr)

/-- The timestamp of an authenticated record. -/
def timeStamp (ptr : Bytes) : EfiTime :=
  EfiTime.read (ptr.drop 16)

/-- Bytes a record takes up to its last data byte. -/
def variableSize (ptr : Bytes) : Nat :=
  getVariableDataOffset authFormat ptr + dataSizeOfVariable authFormat ptr +
    getPadSize (dataSizeOfVariable authFormat ptr)

end Accessors

end Variable
end Udk
