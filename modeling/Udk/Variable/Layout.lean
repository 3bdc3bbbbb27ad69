import Udk.Variable.Store

/-!
# Stores as lists of records

A store whose walk meets the records `rs` one behind the other is the store
header, the records and a rest at which the walk stops.  Under such a `Layout` a
walk visits the offsets of the records, and everything the driver reads through a
pointer is read from one record.
-/

namespace Udk
namespace Variable

open List

section Prefix

variable {authFormat : Bool} {r : Bytes} (rest : Bytes)

theorem headerSize_le (authFormat : Bool) : 32 ≤ getVariableHeaderSize authFormat := by
  cases authFormat <;> decide

theorem nameSizeOffset_le (authFormat : Bool) :
    nameSizeOffset authFormat + 24 = getVariableHeaderSize authFormat := by
  cases authFormat <;> rfl

theorem startId_append
    (h : 32 ≤ r.length) :
    startId (r ++ rest) = startId r :=
  field_append_left rest (by omega)

theorem state_append
    (h : 32 ≤ r.length) :
    state (r ++ rest) = state r := by
  simp only [state, getD_eq_getElem?_getD]
  rw [getElem?_append_left (by omega)]

theorem attributes_append
    (h : 32 ≤ r.length) :
    attributes (r ++ rest) = attributes r := by
  rw [attributes, field_append_left rest (by omega), attributes]

variable (hr : getVariableHeaderSize authFormat ≤ r.length)
include hr

theorem sizesErased_append :
    sizesErased authFormat (r ++ rest) = sizesErased authFormat r := by
  have h32 := headerSize_le authFormat
  have hoff := nameSizeOffset_le authFormat
  unfold sizesErased dataSizeField nameSizeField
  rw [state_append rest (by omega), attributes_append rest (by omega),
    field_append_left rest (by omega), field_append_left rest (by omega)]

theorem nameSizeOfVariable_append :
    nameSizeOfVariable authFormat (r ++ rest) = nameSizeOfVariable authFormat r := by
  have hoff := nameSizeOffset_le authFormat
  unfold nameSizeOfVariable nameSizeField
  rw [sizesErased_append rest hr, field_append_left rest (by omega)]

theorem dataSizeOfVariable_append :
    dataSizeOfVariable authFormat (r ++ rest) = dataSizeOfVariable authFormat r := by
  have hoff := nameSizeOffset_le authFormat
  unfold dataSizeOfVariable dataSizeField
  rw [sizesErased_append rest hr, field_append_left rest (by omega)]

theorem vendorGuid_append :
    vendorGuid authFormat (r ++ rest) = vendorGuid authFormat r := by
  have hoff := nameSizeOffset_le authFormat
  unfold vendorGuid Guid.read
  rw [drop_append_of_le_length (by omega), Guid.mk.injEq,
    append_assoc, take_append_of_le_length (by rw [length_drop]; omega),
    take_append_of_le_length (by rw [length_drop]; omega)]

theorem getVariableDataOffset_append :
    getVariableDataOffset authFormat (r ++ rest) = getVariableDataOffset authFormat r := by
  simp only [getVariableDataOffset, nameSizeOfVariable_append rest hr]

theorem variableSize_append :
    variableSize authFormat (r ++ rest) = variableSize authFormat r := by
  simp only [variableSize, getVariableDataOffset_append rest hr, dataSizeOfVariable_append rest hr]

end Prefix

/-- A header with the size it says it has, padded to the header alignment. -/
structure IsRecord (authFormat : Bool) (r : Bytes) : Prop where
  startId_eq : startId r = variableData
  length_eq : headerAlign (variableSize authFormat r) = r.length

namespace IsRecord

variable {authFormat : Bool} {r : Bytes}

theorem variableSize_eq :
    variableSize authFormat r =
      getVariableHeaderSize authFormat + nameSizeOfVariable authFormat r +
        dataSizeOfVariable authFormat r := by
  simp [variableSize, getVariableDataOffset, getPadSize]

theorem variableSize_le (h : IsRecord authFormat r) : variableSize authFormat r ≤ r.length := by
  rw [← h.length_eq]
  exact le_headerAlign _

theorem headerSize_le_length (h : IsRecord authFormat r) :
    getVariableHeaderSize authFormat ≤ r.length := by
  have := h.variableSize_le
  rw [variableSize_eq] at this
  omega

theorem length_ge (h : IsRecord authFormat r) : 32 ≤ r.length :=
  le_trans (headerSize_le authFormat) h.headerSize_le_length

theorem length_mod (h : IsRecord authFormat r) : r.length % 4 = 0 := by
  rw [← h.length_eq]
  exact headerAlign_mod _

theorem variableName_append_of_le (h : getVariableDataOffset authFormat r ≤ r.length)
    (rest : Bytes) :
    variableName authFormat (r ++ rest) = variableName authFormat r := by
  have hoff : getVariableDataOffset authFormat r =
      getVariableHeaderSize authFormat + nameSizeOfVariable authFormat r := rfl
  have hhdr : getVariableHeaderSize authFormat ≤ r.length := by omega
  unfold variableName getVariableNamePtr
  rw [nameSizeOfVariable_append rest hhdr, drop_append_of_le_length hhdr,
    take_append_of_le_length (by rw [length_drop]; omega)]

theorem dataOffset_le (h : IsRecord authFormat r) :
    getVariableDataOffset authFormat r ≤ r.length := by
  have hsize := h.variableSize_le
  rw [variableSize] at hsize
  omega

theorem variableName_append (h : IsRecord authFormat r) (rest : Bytes) :
    variableName authFormat (r ++ rest) = variableName authFormat r :=
  variableName_append_of_le h.dataOffset_le rest

theorem variableContents_append (h : IsRecord authFormat r) (rest : Bytes) :
    variableContents authFormat (r ++ rest) = variableContents authFormat r := by
  have hhdr := h.headerSize_le_length
  have hsize := h.variableSize_le
  rw [variableSize_eq] at hsize
  have hoff : getVariableDataOffset authFormat r =
      getVariableHeaderSize authFormat + nameSizeOfVariable authFormat r := rfl
  unfold variableContents getVariableDataPtr
  rw [dataSizeOfVariable_append rest hhdr, getVariableDataOffset_append rest hhdr,
    drop_append_of_le_length (by omega),
    take_append_of_le_length (by rw [length_drop]; omega)]

theorem variableName_length (h : IsRecord authFormat r) :
    (variableName authFormat r).length = nameSizeOfVariable authFormat r := by
  have hsize := h.variableSize_le
  rw [variableSize_eq] at hsize
  simp only [variableName, getVariableNamePtr, length_take, length_drop]
  omega

theorem variableContents_length (h : IsRecord authFormat r) :
    (variableContents authFormat r).length = dataSizeOfVariable authFormat r := by
  have hsize := h.variableSize_le
  rw [variableSize_eq] at hsize
  simp only [variableContents, getVariableDataPtr, getVariableDataOffset, getPadSize,
    length_take, length_drop]
  omega

end IsRecord

section SetState

/-- The record with another state. -/
def setState (r : Bytes) (s : UInt8) : Bytes :=
  r.set 2 s

variable {authFormat : Bool} {r : Bytes} (s : UInt8)

@[simp] theorem setState_length : (setState r s).length = r.length := by
  simp [setState]

theorem state_setState (h : 2 < r.length) : state (setState r s) = s := by
  simp [state, setState, List.getD, h]

@[simp] theorem startId_setState : startId (setState r s) = startId r := by
  simp only [startId, field, setState, slice_set_of_le s (show 0 + 2 ≤ 2 by omega)]

@[simp] theorem attributes_setState : attributes (setState r s) = attributes r := by
  simp only [attributes, field, setState, slice_set_of_lt 4 s (show 2 < 4 by omega)]

theorem two_lt_nameSizeOffset (authFormat : Bool) : 2 < nameSizeOffset authFormat := by
  cases authFormat <;> decide

@[simp] theorem nameSizeField_setState :
    nameSizeField authFormat (setState r s) = nameSizeField authFormat r := by
  have := two_lt_nameSizeOffset authFormat
  simp only [nameSizeField, field, setState, slice_set_of_lt 4 s this]

@[simp] theorem dataSizeField_setState :
    dataSizeField authFormat (setState r s) = dataSizeField authFormat r := by
  have := two_lt_nameSizeOffset authFormat
  simp only [dataSizeField, field, setState,
    slice_set_of_lt 4 s (show 2 < nameSizeOffset authFormat + 4 by omega)]

@[simp] theorem vendorGuid_setState :
    vendorGuid authFormat (setState r s) = vendorGuid authFormat r := by
  have := two_lt_nameSizeOffset authFormat
  simp only [vendorGuid, setState,
    drop_set_of_lt (show 2 < nameSizeOffset authFormat + 8 by omega)]

theorem sizesErased_setState (hr : state r ≠ 0xff) (hs : s ≠ 0xff) (h : 2 < r.length) :
    sizesErased authFormat (setState r s) = sizesErased authFormat r := by
  have hs' : (s == 0xff) = false := by simpa using hs
  have hr' : (state r == 0xff) = false := by simpa using hr
  simp only [sizesErased, state_setState s h, hs', hr', dataSizeField_setState,
    nameSizeField_setState, attributes_setState]

variable (hr : state r ≠ 0xff) (hs : s ≠ 0xff) (h : 2 < r.length)
include hr hs h

theorem nameSizeOfVariable_setState :
    nameSizeOfVariable authFormat (setState r s) = nameSizeOfVariable authFormat r := by
  simp only [nameSizeOfVariable, sizesErased_setState s hr hs h, nameSizeField_setState]

theorem dataSizeOfVariable_setState :
    dataSizeOfVariable authFormat (setState r s) = dataSizeOfVariable authFormat r := by
  simp only [dataSizeOfVariable, sizesErased_setState s hr hs h, dataSizeField_setState]

theorem getVariableDataOffset_setState :
    getVariableDataOffset authFormat (setState r s) = getVariableDataOffset authFormat r := by
  simp only [getVariableDataOffset, nameSizeOfVariable_setState s hr hs h]

theorem variableSize_setState :
    variableSize authFormat (setState r s) = variableSize authFormat r := by
  simp only [variableSize, getVariableDataOffset_setState s hr hs h,
    dataSizeOfVariable_setState s hr hs h]

theorem variableName_setState :
    variableName authFormat (setState r s) = variableName authFormat r := by
  have h32 := headerSize_le authFormat
  simp only [variableName, getVariableNamePtr, nameSizeOfVariable_setState s hr hs h]
  rw [setState, drop_set_of_lt (by omega)]

theorem variableContents_setState :
    variableContents authFormat (setState r s) = variableContents authFormat r := by
  have h32 := headerSize_le authFormat
  simp only [variableContents, getVariableDataPtr, getVariableDataOffset_setState s hr hs h,
    dataSizeOfVariable_setState s hr hs h]
  rw [setState, drop_set_of_lt]
  unfold getVariableDataOffset
  omega

theorem isRecord_setState (hrec : IsRecord authFormat r) : IsRecord authFormat (setState r s) where
  startId_eq := by rw [startId_setState, hrec.startId_eq]
  length_eq := by rw [variableSize_setState s hr hs h, setState_length, hrec.length_eq]

end SetState

/-- Records with their offsets, the first one at `base`. -/
def located : Nat → List Bytes → List (Nat × Bytes)
  | _, [] => []
  | base, r :: rs => (base, r) :: located (base + r.length) rs

section Located

variable {rs : List Bytes}

theorem located_append
    (base : Nat) (rs rs' : List Bytes) :
    located base (rs ++ rs') = located base rs ++ located (base + rs.flatten.length) rs' := by
  induction rs generalizing base with
  | nil => simp [located]
  | cons r rs ih => simp [located, ih, Nat.add_assoc]

theorem located_map_snd
    (base : Nat) (rs : List Bytes) :
    (located base rs).map Prod.snd = rs := by
  induction rs generalizing base with
  | nil => rfl
  | cons r rs ih => simp [located, ih]

theorem mem_located
    {base off : Nat} {r : Bytes}
    (h : (off, r) ∈ located base rs) :
    ∃ before after, rs = before ++ r :: after ∧ off = base + before.flatten.length := by
  induction rs generalizing base with
  | nil => cases h
  | cons x xs ih =>
      rcases mem_cons.mp h with hx | hxs
      · cases hx
        exact ⟨[], xs, rfl, by simp⟩
      · obtain ⟨before, after, rfl, hoff⟩ := ih hxs
        exact ⟨x :: before, after, rfl, by simp [hoff]; omega⟩

theorem mem_of_mem_located
    {base off : Nat} {r : Bytes}
    (h : (off, r) ∈ located base rs) :
    r ∈ rs := by
  obtain ⟨before, after, rfl, _⟩ := mem_located h
  simp

theorem mem_located_append
    (base : Nat) (before : List Bytes) (r : Bytes) (after : List Bytes) :
    (base + before.flatten.length, r) ∈ located base (before ++ r :: after) := by
  rw [located_append]
  simp [located]

theorem le_of_mem_located
    {base off : Nat} {r : Bytes}
    (h : (off, r) ∈ located base rs) :
    base ≤ off ∧ off + r.length ≤ base + rs.flatten.length := by
  obtain ⟨before, after, rfl, rfl⟩ := mem_located h
  simp
  omega

theorem located_unique
    {base off : Nat} {r r' : Bytes}
    (hne : ∀ x ∈ rs, x ≠ [])
    (h : (off, r) ∈ located base rs) (h' : (off, r') ∈ located base rs) :
    r = r' := by
  induction rs generalizing base with
  | nil => cases h
  | cons x xs ih =>
      have hx : 0 < x.length := length_pos_iff.mpr (hne x mem_cons_self)
      rcases mem_cons.mp h with h | h <;> rcases mem_cons.mp h' with h' | h'
      · cases h
        cases h'
        rfl
      · cases h
        have := (le_of_mem_located h').1
        omega
      · cases h'
        have := (le_of_mem_located h).1
        omega
      · exact ih (fun y hy => hne y (mem_cons_of_mem _ hy)) h h'

end Located

theorem flatten_mod
    {authFormat : Bool} (rs : List Bytes)
    (hrec : ∀ r ∈ rs, IsRecord authFormat r) :
    rs.flatten.length % 4 = 0 := by
  induction rs with
  | nil => rfl
  | cons r rs ih =>
      have hr := (hrec r mem_cons_self).length_mod
      have := ih (fun x hx => hrec x (mem_cons_of_mem _ hx))
      simp only [flatten_cons, length_append]
      omega

/-- Replace the record at an offset. -/
def modifyAt (off : Nat) (f : Bytes → Bytes) : Nat → List Bytes → List Bytes
  | _, [] => []
  | base, r :: rs => if base = off then f r :: rs else r :: modifyAt off f (base + r.length) rs

section Modify

variable {f : Bytes → Bytes} {base : Nat} {before after : List Bytes} {r : Bytes}

theorem modifyAt_split (hpos : ∀ x ∈ before, x ≠ []) :
    modifyAt (base + before.flatten.length) f base (before ++ r :: after) =
      before ++ f r :: after := by
  induction before generalizing base with
  | nil => simp [modifyAt]
  | cons x xs ih =>
      have hx : 0 < x.length := length_pos_iff.mpr (hpos x mem_cons_self)
      have hlen : base + (x :: xs).flatten.length = base + x.length + xs.flatten.length := by
        rw [flatten_cons, length_append]
        omega
      rw [hlen, cons_append, modifyAt, if_neg (by omega),
        ih (fun y hy => hpos y (mem_cons_of_mem _ hy)), cons_append]

end Modify

/-- A store that consists of a header, the records `rs` and a rest that is no record. -/
structure Layout (authFormat : Bool) (store header : Bytes) (rs : List Bytes) (tail : Bytes) :
    Prop where
  eq : store = header ++ (rs.flatten ++ tail)
  header_length : header.length = storeHeaderSize
  size_eq : storeSize store = store.length
  records : ∀ r ∈ rs, IsRecord authFormat r
  stops : startId tail ≠ variableData

namespace Layout

variable {authFormat : Bool} {store header tail : Bytes} {rs : List Bytes}

theorem length_eq (h : Layout authFormat store header rs tail) :
    store.length = storeHeaderSize + rs.flatten.length + tail.length := by
  rw [h.eq, length_append, length_append, h.header_length]
  omega

theorem storeSize_append
    {header : Bytes} (rest : Bytes)
    (h : header.length = storeHeaderSize) :
    storeSize (header ++ rest) = storeSize header :=
  field_append_left rest (by rw [h]; decide)

theorem drop_located (h : Layout authFormat store header rs tail)
    {off : Nat} {r : Bytes}
    (hmem : (off, r) ∈ located storeHeaderSize rs) :
    ∃ rest, store.drop off = r ++ rest := by
  obtain ⟨before, after, rfl, rfl⟩ := mem_located hmem
  refine ⟨after.flatten ++ tail, ?_⟩
  rw [h.eq, ← h.header_length, ← drop_drop, drop_left, flatten_append,
    flatten_cons, append_assoc, drop_left, append_assoc]

end Layout

/-- A walk over records one behind the other. -/
theorem walkFrom_records
    {authFormat : Bool} {store tail : Bytes} {rs : List Bytes} (before : Bytes)
    (fuel endPtr : Nat)
    (heq : store = before ++ (rs.flatten ++ tail))
    (hmod : before.length % 4 = 0)
    (hrec : ∀ r ∈ rs, IsRecord authFormat r)
    (hstop : startId tail ≠ variableData)
    (hend : before.length + rs.flatten.length ≤ endPtr)
    (hfuel : rs.flatten.length < fuel) :
    walkFrom authFormat store endPtr fuel before.length = (located before.length rs).map Prod.fst ∧
      walkFromEnd authFormat store endPtr fuel before.length =
        before.length + rs.flatten.length := by
  induction rs generalizing before fuel with
  | nil =>
      obtain ⟨fuel, rfl⟩ : ∃ k, fuel = k + 1 := ⟨fuel - 1, by omega⟩
      have hdrop : store.drop before.length = tail := by
        rw [heq, drop_left]; rfl
      have hinv : isValidVariableHeader store endPtr before.length = false := by
        simp [isValidVariableHeader, hdrop, hstop]
      simp [walkFrom, walkFromEnd, hinv, located]
  | cons r rs ih =>
      obtain ⟨fuel, rfl⟩ : ∃ k, fuel = k + 1 := ⟨fuel - 1, by omega⟩
      have hr := hrec r mem_cons_self
      have hlen := hr.length_ge
      have hdrop : store.drop before.length = r ++ (rs.flatten ++ tail) := by
        rw [heq, drop_left, flatten_cons, append_assoc]
      have hflat : (r :: rs).flatten.length = r.length + rs.flatten.length := by simp
      have hvalid : isValidVariableHeader store endPtr before.length = true := by
        rw [isValidVariableHeader, hdrop, startId_append _ hlen, hr.startId_eq]
        simp
        omega
      have hnext : getNextVariablePtr authFormat store before.length =
          (before ++ r).length := by
        rw [getNextVariablePtr, hdrop, variableSize_append _ hr.headerSize_le_length,
          headerAlign_add _ hmod, hr.length_eq, length_append]
      have hrest := ih (before ++ r) fuel
        (by rw [heq, flatten_cons]; simp only [append_assoc])
        (by have := hr.length_mod; rw [length_append]; omega)
        (fun x hx => hrec x (mem_cons_of_mem _ hx))
        (by rw [length_append]; omega) (by omega)
      rw [walkFrom, walkFromEnd, if_pos hvalid, if_pos hvalid, hnext, hrest.1, hrest.2]
      simp only [located, map_cons, length_append, hflat, true_and]
      omega

namespace Layout

variable {authFormat : Bool} {store header tail : Bytes} {rs : List Bytes} {r : Bytes} {off : Nat}

theorem end_le (h : Layout authFormat store header rs tail) :
    store.length ≤ getEndPointer store := by
  rw [getEndPointer, h.size_eq]
  exact le_headerAlign _

theorem storeWalks_eq (h : Layout authFormat store header rs tail) :
    storeWalk authFormat store = (located storeHeaderSize rs).map Prod.fst ∧
      storeWalkEnd authFormat store = storeHeaderSize + rs.flatten.length := by
  have hlen := h.length_eq
  have hend := h.end_le
  have hpos : 0 < storeHeaderSize := by decide
  have hwalk := walkFrom_records _ store.length (getEndPointer store)
    h.eq (by rw [h.header_length]; rfl) h.records h.stops
    (by rw [h.header_length]; omega) (by omega)
  rw [storeWalk, storeWalkEnd, show getStartPointer = header.length from h.header_length.symm]
  rwa [h.header_length] at hwalk ⊢

theorem storeWalk_eq (h : Layout authFormat store header rs tail) :
    storeWalk authFormat store = (located storeHeaderSize rs).map Prod.fst :=
  h.storeWalks_eq.1

theorem storeWalkEnd_eq (h : Layout authFormat store header rs tail) :
    storeWalkEnd authFormat store = storeHeaderSize + rs.flatten.length :=
  h.storeWalks_eq.2

theorem before_ne_nil (h : Layout authFormat store header rs tail)
    {before after : List Bytes} (hrs : rs = before ++ r :: after) :
    ∀ x ∈ before, x ≠ [] := by
  rintro x hx rfl
  have := (h.records [] (by simp [hrs, hx])).length_ge
  simp at this

theorem overlay_located (h : Layout authFormat store header rs tail)
    (f : UInt8 → UInt8 → UInt8)
    (hmem : (off, r) ∈ located storeHeaderSize rs)
    {k : Nat} {bs : Bytes} (hk : k + bs.length ≤ r.length) :
    overlay f store (off + k) bs =
      header ++ ((modifyAt off (fun x => overlay f x k bs) storeHeaderSize rs).flatten ++ tail) := by
  obtain ⟨before, after, rfl, rfl⟩ := mem_located hmem
  have hover := overlay_append f (header ++ before.flatten) r (after.flatten ++ tail) bs k hk
  rw [length_append, h.header_length] at hover
  rw [modifyAt_split (h.before_ne_nil rfl), h.eq, flatten_append, flatten_cons,
    append_assoc, append_assoc, ← append_assoc header, hover]
  simp only [flatten_append, flatten_cons, append_assoc]

theorem modify (h : Layout authFormat store header rs tail)
    {f : Bytes → Bytes}
    (hmem : (off, r) ∈ located storeHeaderSize rs)
    (hlen : (f r).length = r.length) (hrec : IsRecord authFormat (f r)) :
    Layout authFormat (header ++ ((modifyAt off f storeHeaderSize rs).flatten ++ tail)) header
      (modifyAt off f storeHeaderSize rs) tail := by
  have hlength := h.length_eq
  have hsize := h.size_eq
  rw [h.eq, storeSize_append _ h.header_length, ← h.eq] at hsize
  obtain ⟨before, after, rfl, rfl⟩ := mem_located hmem
  rw [modifyAt_split (h.before_ne_nil rfl)]
  refine ⟨rfl, h.header_length, ?_, ?_, h.stops⟩
  · rw [storeSize_append _ h.header_length, hsize, hlength]
    simp [h.header_length, hlen]
    omega
  · intro x hx
    rw [mem_append, mem_cons] at hx
    rcases hx with hx | rfl | hx
    · exact h.records x (by simp [hx])
    · exact hrec
    · exact h.records x (by simp [hx])

theorem isRecord_of_located (h : Layout authFormat store header rs tail)
    (hmem : (off, r) ∈ located storeHeaderSize rs) :
    IsRecord authFormat r :=
  h.records r (mem_of_mem_located hmem)

theorem off_mod (h : Layout authFormat store header rs tail)
    (hmem : (off, r) ∈ located storeHeaderSize rs) :
    off % 4 = 0 := by
  obtain ⟨before, after, rfl, rfl⟩ := mem_located hmem
  have hmod := flatten_mod before (fun x hx => h.records x (by simp [hx]))
  have : storeHeaderSize % 4 = 0 := by decide
  omega

end Layout

end Variable
end Udk
