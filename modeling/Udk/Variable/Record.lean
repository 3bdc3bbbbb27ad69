import Udk.Variable.Lookup
import Udk.Variable.Update

/-!
# The record an update writes

`buildVariable` lays out a header, the name and the data.  Read back as a record
it has the requested GUID, name, attributes and data, as long as its sizes fit
into their fields.
-/

namespace Udk
namespace Variable

open List

section Header

variable (authFormat : Bool) (s : UInt8) (attrs : UInt32) (count : UInt64) (time : EfiTime)
  (key : UInt32) (nameSize dataSize : Nat) (guid : Guid) (rest : Bytes)

@[simp] theorem buildHeader_length :
    (buildHeader authFormat s attrs count time key nameSize dataSize guid).length =
      getVariableHeaderSize authFormat := by
  cases authFormat <;>
    simp [buildHeader, getVariableHeaderSize, guid.length_eq]

theorem buildHeader_setState (s' : UInt8) :
    (buildHeader authFormat s attrs count time key nameSize dataSize guid).set 2 s' =
      buildHeader authFormat s' attrs count time key nameSize dataSize guid := by
  cases authFormat <;> simp [buildHeader, toLE]

theorem buildHeader_start :
    ∃ more, buildHeader authFormat s attrs count time key nameSize dataSize guid ++ rest =
      [0xaa, 0x55, s, 0] ++ (toLE 4 attrs.toNat ++ more) := by
  cases authFormat <;>
    simp [buildHeader, toLE, variableData]

theorem buildHeader_sizes :
    ∃ start, start.length = nameSizeOffset authFormat ∧
      buildHeader authFormat s attrs count time key nameSize dataSize guid ++ rest =
        start ++ (toLE 4 nameSize ++ (toLE 4 dataSize ++ (guid.bytes ++ rest))) := by
  cases authFormat with
  | false =>
      refine ⟨toLE 2 variableData ++ [s, 0] ++ toLE 4 attrs.toNat, by simp [nameSizeOffset], ?_⟩
      simp [buildHeader]
  | true =>
      refine ⟨toLE 2 variableData ++ [s, 0] ++ toLE 4 attrs.toNat ++ toLE 8 count.toNat ++
        time.bytes ++ toLE 4 key.toNat, by simp [nameSizeOffset], ?_⟩
      simp [buildHeader]

theorem startId_buildHeader :
    startId (buildHeader authFormat s attrs count time key nameSize dataSize guid ++ rest) =
      variableData := by
  obtain ⟨more, hmore⟩ := buildHeader_start authFormat s attrs count time key nameSize dataSize
    guid rest
  rw [hmore]
  simp [startId, field, slice, ofLE, variableData]

theorem state_buildHeader :
    state (buildHeader authFormat s attrs count time key nameSize dataSize guid ++ rest) = s := by
  obtain ⟨more, hmore⟩ := buildHeader_start authFormat s attrs count time key nameSize dataSize
    guid rest
  rw [hmore]
  rfl

theorem attributes_buildHeader :
    attributes (buildHeader authFormat s attrs count time key nameSize dataSize guid ++ rest) =
      attrs := by
  obtain ⟨more, hmore⟩ := buildHeader_start authFormat s attrs count time key nameSize dataSize
    guid rest
  have hlt : attrs.toNat < 256 ^ 4 := attrs.toNat_lt
  rw [hmore, attributes, field_at _ _ (show [0xaa, 0x55, s, 0].length = 4 from rfl) hlt,
    UInt32.ofNat_toNat]

theorem nameSizeField_buildHeader (h : nameSize < 2 ^ 32) :
    nameSizeField authFormat
      (buildHeader authFormat s attrs count time key nameSize dataSize guid ++ rest) =
        nameSize := by
  obtain ⟨start, hlen, heq⟩ := buildHeader_sizes authFormat s attrs count time key nameSize
    dataSize guid rest
  rw [heq, nameSizeField, field_at _ _ hlen h]

theorem dataSizeField_buildHeader (h : dataSize < 2 ^ 32) :
    dataSizeField authFormat
      (buildHeader authFormat s attrs count time key nameSize dataSize guid ++ rest) =
        dataSize := by
  obtain ⟨start, hlen, heq⟩ := buildHeader_sizes authFormat s attrs count time key nameSize
    dataSize guid rest
  rw [heq, dataSizeField, ← append_assoc,
    field_at _ _ (by rw [length_append, toLE_length, hlen]) h]

theorem vendorGuid_buildHeader :
    vendorGuid authFormat
      (buildHeader authFormat s attrs count time key nameSize dataSize guid ++ rest) = guid := by
  obtain ⟨start, hlen, heq⟩ := buildHeader_sizes authFormat s attrs count time key nameSize
    dataSize guid rest
  have hdrop : (start ++ (toLE 4 nameSize ++ (toLE 4 dataSize ++ (guid.bytes ++ rest)))).drop
      (nameSizeOffset authFormat + 8) = guid.bytes ++ rest := by
    rw [← hlen, ← drop_drop, drop_left,
      show (8 : Nat) = (toLE 4 nameSize).length + (toLE 4 dataSize).length by simp,
      ← drop_drop, drop_left, drop_left]
  rw [heq, vendorGuid, hdrop, Guid.read_append]

variable (hs : s ≠ 0xff) (hattrs : attrs ≠ 0xffffffff)
  (hsize : getVariableHeaderSize authFormat + nameSize + dataSize < 2 ^ 32)
include hs hattrs hsize

theorem sizesErased_buildHeader :
    sizesErased authFormat
      (buildHeader authFormat s attrs count time key nameSize dataSize guid ++ rest) = false := by
  have h32 := headerSize_le authFormat
  rw [sizesErased, state_buildHeader, attributes_buildHeader,
    nameSizeField_buildHeader _ _ _ _ _ _ _ _ _ _ (by omega),
    dataSizeField_buildHeader _ _ _ _ _ _ _ _ _ _ (by omega)]
  simp only [beq_eq_false_iff_ne.mpr hs, beq_eq_false_iff_ne.mpr hattrs, Bool.or_false,
    Bool.false_or, Bool.or_eq_false_iff, beq_eq_false_iff_ne]
  constructor <;> omega

theorem nameSizeOfVariable_buildHeader :
    nameSizeOfVariable authFormat
      (buildHeader authFormat s attrs count time key nameSize dataSize guid ++ rest) =
        nameSize := by
  rw [nameSizeOfVariable, sizesErased_buildHeader _ _ _ _ _ _ _ _ _ _ hs hattrs hsize,
    nameSizeField_buildHeader _ _ _ _ _ _ _ _ _ _ (by omega)]
  rfl

theorem dataSizeOfVariable_buildHeader :
    dataSizeOfVariable authFormat
      (buildHeader authFormat s attrs count time key nameSize dataSize guid ++ rest) =
        dataSize := by
  rw [dataSizeOfVariable, sizesErased_buildHeader _ _ _ _ _ _ _ _ _ _ hs hattrs hsize,
    dataSizeField_buildHeader _ _ _ _ _ _ _ _ _ _ (by omega)]
  rfl

theorem variableSize_buildHeader :
    variableSize authFormat
      (buildHeader authFormat s attrs count time key nameSize dataSize guid ++ rest) =
        getVariableHeaderSize authFormat + nameSize + dataSize := by
  simp only [variableSize, getVariableDataOffset, getPadSize,
    nameSizeOfVariable_buildHeader _ _ _ _ _ _ _ _ _ _ hs hattrs hsize,
    dataSizeOfVariable_buildHeader _ _ _ _ _ _ _ _ _ _ hs hattrs hsize, Nat.add_zero]

theorem isRecord_buildHeader
    (hrest : getVariableHeaderSize authFormat + rest.length =
      headerAlign (getVariableHeaderSize authFormat + nameSize + dataSize)) :
    IsRecord authFormat
      (buildHeader authFormat s attrs count time key nameSize dataSize guid ++ rest) where
  startId_eq := startId_buildHeader ..
  length_eq := by
    rw [variableSize_buildHeader _ _ _ _ _ _ _ _ _ _ hs hattrs hsize,
      length_append, buildHeader_length, hrest]

end Header

section Time

end Time

section Build

variable {authFormat : Bool} {req : UpdateRequest} {old : Option Bytes} {data : Bytes}

theorem buildVariable_length :
    (buildVariable authFormat req old data).length =
      getVariableHeaderSize authFormat + req.variableName.strSize + data.length := by
  simp [buildVariable, Char16Str.strSize]
  omega

theorem storedAttributes_ne (attrs : UInt32) :
    attrs &&& ~~~efiVariableAppendWrite ≠ 0xffffffff := by
  intro h
  have hbit : (attrs &&& ~~~efiVariableAppendWrite) &&& efiVariableAppendWrite = 0 := by
    rw [UInt32.and_assoc]
    exact UInt32.and_zero
  rw [h] at hbit
  exact absurd hbit (by decide)

section Written

variable (s : UInt8) (pad : Bytes)

/-- The prepared record once its state is programmed, with the padding behind it. -/
def writtenRecord (authFormat : Bool) (req : UpdateRequest) (old : Option Bytes) (data : Bytes)
    (s : UInt8) (pad : Bytes) : Bytes :=
  (buildVariable authFormat req old data).set 2 s ++ pad

theorem writtenRecord_eq :
    writtenRecord authFormat req old data s pad =
      buildHeader authFormat s (req.attributes &&& ~~~efiVariableAppendWrite)
        req.monotonicCount (newTimeStamp req old) req.keyIndex
        req.variableName.strSize data.length req.vendorGuid ++
      (req.variableName.bytes ++ (data ++ pad)) := by
  have h32 := headerSize_le authFormat
  rw [writtenRecord, buildVariable, append_assoc, set_append_left _ _ (by simp; omega),
    buildHeader_setState]
  simp only [append_assoc]

theorem state_writtenRecord :
    state (writtenRecord authFormat req old data s pad) = s := by
  rw [writtenRecord_eq, state_buildHeader]

theorem attributes_writtenRecord :
    attributes (writtenRecord authFormat req old data s pad) =
      req.attributes &&& ~~~efiVariableAppendWrite := by
  rw [writtenRecord_eq, attributes_buildHeader]

theorem vendorGuid_writtenRecord :
    vendorGuid authFormat (writtenRecord authFormat req old data s pad) = req.vendorGuid := by
  rw [writtenRecord_eq, vendorGuid_buildHeader]

variable (hs : s ≠ 0xff) (hsize : (buildVariable authFormat req old data).length < 2 ^ 32)
include hs hsize

theorem nameSizeOfVariable_writtenRecord :
    nameSizeOfVariable authFormat (writtenRecord authFormat req old data s pad) =
      req.variableName.strSize := by
  rw [buildVariable_length] at hsize
  rw [writtenRecord_eq, nameSizeOfVariable_buildHeader _ _ _ _ _ _ _ _ _ _ hs
    (storedAttributes_ne req.attributes) hsize]

theorem dataSizeOfVariable_writtenRecord :
    dataSizeOfVariable authFormat (writtenRecord authFormat req old data s pad) =
      data.length := by
  rw [buildVariable_length] at hsize
  rw [writtenRecord_eq, dataSizeOfVariable_buildHeader _ _ _ _ _ _ _ _ _ _ hs
    (storedAttributes_ne req.attributes) hsize]

theorem variableName_writtenRecord :
    variableName authFormat (writtenRecord authFormat req old data s pad) =
      req.variableName.bytes := by
  rw [variableName, nameSizeOfVariable_writtenRecord s pad hs hsize, getVariableNamePtr,
    writtenRecord_eq, drop_left' (buildHeader_length ..)]
  exact take_left' rfl

theorem variableContents_writtenRecord :
    variableContents authFormat (writtenRecord authFormat req old data s pad) = data := by
  have hoff : getVariableDataOffset authFormat (writtenRecord authFormat req old data s pad) =
      getVariableHeaderSize authFormat + req.variableName.strSize := by
    rw [getVariableDataOffset, nameSizeOfVariable_writtenRecord s pad hs hsize, getPadSize,
      Nat.add_zero]
  rw [variableContents, dataSizeOfVariable_writtenRecord s pad hs hsize, getVariableDataPtr, hoff,
    writtenRecord_eq, ← drop_drop, drop_left' (buildHeader_length ..),
    Char16Str.strSize, drop_left]
  exact take_left' rfl

theorem isRecord_writtenRecord
    (hpad : (buildVariable authFormat req old data).length + pad.length =
      headerAlign (buildVariable authFormat req old data).length) :
    IsRecord authFormat (writtenRecord authFormat req old data s pad) := by
  rw [buildVariable_length] at hsize hpad
  rw [writtenRecord_eq]
  refine isRecord_buildHeader _ _ _ _ _ _ _ _ _ _ hs (storedAttributes_ne req.attributes) hsize ?_
  rw [← hpad, length_append, length_append, Char16Str.strSize]
  omega

theorem recordKey_writtenRecord :
    recordKey authFormat (writtenRecord authFormat req old data s pad) =
      keyOf req.variableName req.vendorGuid := by
  rw [recordKey, vendorGuid_writtenRecord, variableName_writtenRecord s pad hs hsize, keyOf]

theorem recordValue_writtenRecord :
    recordValue authFormat (writtenRecord authFormat req old data s pad) =
      (req.attributes &&& ~~~efiVariableAppendWrite, data) := by
  rw [recordValue, attributes_writtenRecord, variableContents_writtenRecord s pad hs hsize]

theorem hasName_writtenRecord (hne : req.variableName.chars ≠ []) :
    HasName authFormat (writtenRecord authFormat req old data s pad) :=
  ⟨req.variableName, hne, variableName_writtenRecord s pad hs hsize⟩

end Written

end Build

end Variable
end Udk
