import Udk.Variable.Layout

/-!
# What a search finds in a store of records

`FindVariableEx` on a store with a layout is `VersionLog.scan` over its records.
Read as a map from names to values, the store is `VersionLog.lookup` over them.
-/

namespace Udk
namespace Variable

theorem char16Bytes_prefix
    {xs ys : List UInt16} (rest rest' : Bytes)
    (hx : ∀ c ∈ xs, c ≠ 0) (hy : ∀ c ∈ ys, c ≠ 0)
    (h : char16Bytes xs ++ [0, 0] ++ rest = char16Bytes ys ++ [0, 0] ++ rest') :
    xs = ys := by
  have h1 := readChars_append rest hx
  rw [h, readChars_append rest' hy] at h1
  exact h1.symm

namespace Char16Str

theorem bytes_injective {s t : Char16Str} (h : s.bytes = t.bytes) : s = t := by
  obtain ⟨xs, hx⟩ := s
  obtain ⟨ys, hy⟩ := t
  have hxy : xs = ys := char16Bytes_prefix [] [] hx hy (by simpa [bytes] using h)
  subst hxy
  rfl

theorem eq_of_take {s t : Char16Str} (h : s.bytes.take t.bytes.length = t.bytes) : s = t := by
  obtain ⟨xs, hx⟩ := s
  obtain ⟨ys, hy⟩ := t
  have hsplit : char16Bytes xs ++ [0, 0] ++ [] =
      char16Bytes ys ++ [0, 0] ++ ((bytes ⟨xs, hx⟩).drop (bytes ⟨ys, hy⟩).length) := by
    have htd := List.take_append_drop (bytes ⟨ys, hy⟩).length (bytes ⟨xs, hx⟩)
    rw [h] at htd
    rw [List.append_nil]
    exact htd.symm
  have hxy := char16Bytes_prefix _ _ hx hy hsplit
  subst hxy
  rfl

end Char16Str

section Record

variable {r : Bytes}

variable (authFormat : Bool)

/-- What `FindVariableEx` compares: the GUID and the bytes of the name. -/
def recordKey (r : Bytes) : Guid × Bytes :=
  (vendorGuid authFormat r, variableName authFormat r)

/-- What `VariableServiceGetVariable` returns of a record. -/
def recordValue (r : Bytes) : UInt32 × Bytes :=
  (attributes r, variableContents authFormat r)

/-- The key of a name and GUID. -/
def keyOf (name : Char16Str) (guid : Guid) : Guid × Bytes :=
  (guid, name.bytes)

/-- The name of the record is a terminated string that is not empty. -/
def HasName (r : Bytes) : Prop :=
  ∃ name : Char16Str, name.chars ≠ [] ∧ variableName authFormat r = name.bytes

def isAdded (r : Bytes) : Bool :=
  state r == varAdded

def isInTransition (r : Bytes) : Bool :=
  state r == varInTransition

theorem isInTransition_not_added
    (h : isInTransition r = true) :
    isAdded r = false := by
  unfold isInTransition at h
  rw [isAdded, beq_iff_eq.mp h]
  rfl

theorem isLive_eq (r : Bytes) : isLive r = (isAdded r || isInTransition r) := rfl

variable {authFormat}

theorem keyOf_injective
    {name name' : Char16Str} {guid guid' : Guid}
    (h : keyOf name guid = keyOf name' guid') :
    name = name' ∧ guid = guid' :=
  ⟨Char16Str.bytes_injective (congrArg Prod.snd h), congrArg Prod.fst h⟩

theorem nameMatches_eq
    {name : Char16Str} (guid : Guid)
    (hrec : IsRecord authFormat r) (hname : HasName authFormat r)
    (hne : name.chars ≠ []) :
    nameMatches authFormat name guid r =
      decide (recordKey authFormat r = keyOf name guid) := by
  obtain ⟨s, _, hs⟩ := hname
  have hlen : nameSizeOfVariable authFormat r = s.bytes.length := by
    rw [← hrec.variableName_length, hs]
  have hempty : name.chars.isEmpty = false := by simpa using hne
  rw [nameMatches, hempty, Bool.false_or, hlen, hs, recordKey, keyOf, hs]
  rw [Bool.eq_iff_iff, Bool.and_eq_true, beq_iff_eq, beq_iff_eq, decide_eq_true_eq, Prod.mk.injEq]
  constructor
  · rintro ⟨rfl, htake⟩
    exact ⟨rfl, by rw [Char16Str.eq_of_take htake]⟩
  · rintro ⟨rfl, hbytes⟩
    exact ⟨rfl, by rw [hbytes, List.take_length]⟩

theorem nameMatches_append
    (rest : Bytes) (name : Char16Str) (guid : Guid)
    (hrec : IsRecord authFormat r) :
    nameMatches authFormat name guid (r ++ rest) = nameMatches authFormat name guid r := by
  simp only [nameMatches, vendorGuid_append rest hrec.headerSize_le_length,
    nameSizeOfVariable_append rest hrec.headerSize_le_length, hrec.variableName_append]

theorem isVisible_append
    (rest : Bytes) (ignoreRtCheck atRuntime : Bool)
    (hrec : IsRecord authFormat r) :
    isVisible ignoreRtCheck atRuntime (r ++ rest) = isVisible ignoreRtCheck atRuntime r := by
  simp only [isVisible, attributes_append rest hrec.length_ge]

theorem recordValue_append
    (rest : Bytes) (hrec : IsRecord authFormat r) :
    recordValue authFormat (r ++ rest) = recordValue authFormat r := by
  rw [recordValue, attributes_append rest hrec.length_ge, hrec.variableContents_append,
    recordValue]

theorem recordName_of_hasName
    (rest : Bytes) (hrec : IsRecord authFormat r) (hname : HasName authFormat r) :
    recordKey authFormat r = keyOf (readChar16Str (getVariableNamePtr authFormat (r ++ rest)))
        (vendorGuid authFormat (r ++ rest)) ∧
      (readChar16Str (getVariableNamePtr authFormat (r ++ rest))).chars ≠ [] := by
  obtain ⟨s, hne, hs⟩ := hname
  have hptr : ∃ more, getVariableNamePtr authFormat (r ++ rest) = s.bytes ++ more := by
    refine ⟨(getVariableNamePtr authFormat r).drop (nameSizeOfVariable authFormat r) ++ rest, ?_⟩
    have htd := List.take_append_drop (nameSizeOfVariable authFormat r)
      (getVariableNamePtr authFormat r)
    have htake : (getVariableNamePtr authFormat r).take (nameSizeOfVariable authFormat r) =
        s.bytes := hs
    rw [htake] at htd
    rw [getVariableNamePtr, List.drop_append_of_le_length hrec.headerSize_le_length,
      ← List.append_assoc, htd, getVariableNamePtr]
  obtain ⟨more, hmore⟩ := hptr
  rw [hmore, readChar16Str_append, vendorGuid_append rest hrec.headerSize_le_length]
  exact ⟨by rw [recordKey, hs, keyOf], hne⟩

end Record

section Search

variable {authFormat : Bool} {store header tail : Bytes} {rs : List Bytes}

/-- A record `FindVariableEx` may settle on. -/
def isCandidate (authFormat : Bool) (name : Char16Str) (guid : Guid)
    (ignoreRtCheck atRuntime : Bool) (r : Bytes) : Bool :=
  isVisible ignoreRtCheck atRuntime r && nameMatches authFormat name guid r

/-- `FindVariableEx` over the records of a store. -/
theorem findVariableEx_layout
    (h : Layout authFormat store header rs tail)
    (name : Char16Str) (guid : Guid) (ignoreRtCheck atRuntime : Bool) :
    findVariableEx authFormat store name guid ignoreRtCheck atRuntime =
      let found := VersionLog.scan
        (fun e => isAdded e.2 && isCandidate authFormat name guid ignoreRtCheck atRuntime e.2)
        (fun e => isInTransition e.2 &&
          isCandidate authFormat name guid ignoreRtCheck atRuntime e.2)
        (located storeHeaderSize rs) none
      (found.1.map Prod.fst, found.2.map Prod.fst) := by
  have hat : ∀ e ∈ located storeHeaderSize rs,
      state (store.drop e.1) = state e.2 ∧
        isCandidate authFormat name guid ignoreRtCheck atRuntime (store.drop e.1) =
          isCandidate authFormat name guid ignoreRtCheck atRuntime e.2 := by
    rintro ⟨off, r⟩ hmem
    have hrec := h.isRecord_of_located hmem
    obtain ⟨rest, hdrop⟩ := h.drop_located hmem
    simp only [hdrop, isCandidate, state_append rest hrec.length_ge,
      isVisible_append rest _ _ hrec, nameMatches_append rest _ _ hrec, and_self]
  unfold findVariableEx
  rw [h.storeWalk_eq, show (none : Option Nat) = (none : Option (Nat × Bytes)).map Prod.fst from rfl,
    VersionLog.scan_map]
  have hscan := VersionLog.scan_congr
    (fun e : Nat × Bytes => state (store.drop e.1) == varAdded &&
      isCandidate authFormat name guid ignoreRtCheck atRuntime (store.drop e.1))
    (fun e : Nat × Bytes => state (store.drop e.1) == varInTransition &&
      isCandidate authFormat name guid ignoreRtCheck atRuntime (store.drop e.1))
    (fun e => isAdded e.2 &&
      isCandidate authFormat name guid ignoreRtCheck atRuntime e.2)
    (fun e => isInTransition e.2 &&
      isCandidate authFormat name guid ignoreRtCheck atRuntime e.2)
    (located storeHeaderSize rs) none
    (fun e he => by simp only [(hat e he).1, (hat e he).2, isAdded])
    (fun e he => by simp only [(hat e he).1, (hat e he).2, isInTransition])
  simp only [isCandidate] at hscan
  simp only [isCandidate, hscan]

/-- What a fresh scan of a store at boot time finds for a name: attributes and data. -/
def readVariable (authFormat : Bool) (store : Bytes) (name : Char16Str) (guid : Guid) :
    Option (UInt32 × Bytes) :=
  (findVariableEx authFormat store name guid true false).1.map (fun off =>
    recordValue authFormat (store.drop off))

/-- The value of a key in a list of records. -/
def lookupRecords (authFormat : Bool) (rs : List Bytes) (key : Guid × Bytes) :
    Option (UInt32 × Bytes) :=
  VersionLog.lookup isAdded isInTransition (recordKey authFormat) (recordValue authFormat) rs key

/-- A store reads as the map its records stand for. -/
theorem readVariable_layout
    (h : Layout authFormat store header rs tail)
    (hnames : ∀ r ∈ rs, isLive r = true → HasName authFormat r)
    {name : Char16Str} (guid : Guid) (hne : name.chars ≠ []) :
    readVariable authFormat store name guid =
      lookupRecords authFormat rs (keyOf name guid) := by
  have hcand : ∀ e ∈ located storeHeaderSize rs, isLive e.2 = true →
      isCandidate authFormat name guid true false e.2 =
        decide (recordKey authFormat e.2 = keyOf name guid) := by
    rintro ⟨off, r⟩ hmem hlive
    have hrec := h.isRecord_of_located hmem
    rw [isCandidate, nameMatches_eq guid hrec (hnames r (mem_of_mem_located hmem) hlive) hne]
    rfl
  have hscan := VersionLog.scan_congr
    (fun e : Nat × Bytes => isAdded e.2 && isCandidate authFormat name guid true false e.2)
    (fun e : Nat × Bytes =>
      isInTransition e.2 && isCandidate authFormat name guid true false e.2)
    (fun e => isAdded e.2 && decide (recordKey authFormat e.2 = keyOf name guid))
    (fun e => isInTransition e.2 && decide (recordKey authFormat e.2 = keyOf name guid))
    (located storeHeaderSize rs) none
    (fun e he => by
      cases ha : isAdded e.2 with
      | false => rfl
      | true => rw [hcand e he (by rw [isLive_eq, ha]; rfl)])
    (fun e he => by
      cases ht : isInTransition e.2 with
      | false => rfl
      | true => rw [hcand e he (by rw [isLive_eq, ht, Bool.or_true])])
  have hmap := VersionLog.scan_map
    (fun r => isAdded r && decide (recordKey authFormat r = keyOf name guid))
    (fun r => isInTransition r && decide (recordKey authFormat r = keyOf name guid))
    Prod.snd (located storeHeaderSize rs) none
  rw [located_map_snd] at hmap
  have hlook : lookupRecords authFormat rs (keyOf name guid) =
      ((VersionLog.scan
        (fun e : Nat × Bytes => isAdded e.2 && decide (recordKey authFormat e.2 = keyOf name guid))
        (fun e : Nat × Bytes =>
          isInTransition e.2 && decide (recordKey authFormat e.2 = keyOf name guid))
        (located storeHeaderSize rs) none).1.map Prod.snd).map (recordValue authFormat) := by
    unfold lookupRecords VersionLog.lookup VersionLog.current
    rw [show (none : Option Bytes) = (none : Option (Nat × Bytes)).map Prod.snd from rfl, hmap]
  rw [readVariable, findVariableEx_layout h, hlook, hscan]
  simp only [Option.map_map]
  cases hfound : (VersionLog.scan
      (fun e : Nat × Bytes => isAdded e.2 && decide (recordKey authFormat e.2 = keyOf name guid))
      (fun e : Nat × Bytes =>
        isInTransition e.2 && decide (recordKey authFormat e.2 = keyOf name guid))
      (located storeHeaderSize rs) none).1 with
  | none => rfl
  | some e =>
      obtain ⟨hmem, _⟩ := VersionLog.current_mem _ _ hfound
      obtain ⟨rest, hdrop⟩ := h.drop_located hmem
      simp only [Option.map_some, Function.comp_apply, hdrop,
        recordValue_append rest (h.isRecord_of_located hmem)]

end Search

end Variable
end Udk
