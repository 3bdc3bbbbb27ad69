import Udk.HiiDatabase.ConfigText

/-!
# Blocks and strings round trip

What both functions make of the text of a request, and that `HiiConfigToBlock` writes back what
`HiiBlockToConfig` has read, nothing else.
-/

namespace Udk
namespace Hii

open List

section BlockToConfig

variable {p : Platform} {element : BlockName} {elements : List BlockName} {rest : EfiString}
variable {block : List UInt8}

theorem ends_flatMap {f : BlockName → EfiString} :
    Ends (elements.flatMap fun element => '&' :: f element) := by
  rcases elements with - | ⟨element, elements⟩
  · exact Or.inl rfl
  · exact Or.inr ⟨_, rfl⟩

theorem offsetAndWidth_text
    (hoffset : element.start < p.word) (hwidth : element.count < p.word)
    (hrest : Ends rest) :
    offsetAndWidth p (element.offset ++ (widthKey ++ (element.width ++ rest))) =
      some (element.start, element.count, rest) := by
  have hfirst := getValueOfNumber_digits element.offset_ne element.offset_digits
    (Or.inr ⟨_, rfl⟩ : Ends (widthKey ++ (element.width ++ rest)))
  have hsecond := getValueOfNumber_digits element.width_ne element.width_digits hrest
  rw [offsetAndWidth, hfirst, Option.bind_eq_bind, Option.bind_some]
  simp only [copyNumber_digits element.offset_digits hoffset, drop_left,
    startsWith_append, Bool.not_true, Bool.false_eq_true, if_false]
  rw [hsecond, Option.bind_some]
  simp only [copyNumber_digits element.width_digits hwidth, drop_left]
  rfl

theorem readBytes_inside {buffer : List UInt8} {offset width : Nat}
    (hle : offset + width ≤ buffer.length) :
    readBytes p buffer offset width = slice buffer offset width := by
  rw [readBytes, slice]
  apply ext_getElem?
  intro i
  by_cases hi : i < width
  · rw [getElem?_map, getElem?_range hi, getElem?_take_of_lt hi,
      getElem?_drop, Option.map_some, getD_eq_getElem?_getD,
      getElem?_eq_getElem (by omega), Option.getD_some]
  · rw [getElem?_eq_none (by simp; omega), getElem?_eq_none (by simp; omega)]

theorem configElement_text {value : List UInt8}
    (htakes : p.Takes (entryText element value).length) :
    configElement p element.text value = entryText element value := by
  have hvalue : valueKey.length = 6 := rfl
  have hlength : (entryText element value).length =
      element.text.length + 1 + 6 + 2 * value.length := by
    rw [entryText, length_append, length_append, length_cons, length_valueStr,
      hvalue]
    omega
  rw [Platform.Takes, hlength] at htakes
  have hkey : catS p (element.text ++ ['&'])
      (value.length * 2 + 1 + element.text.length + 1 + valueKey.length) valueKey =
      element.text ++ ['&'] ++ valueKey := by
    refine catS_eq (by omega) ?_
    rw [length_append, length_singleton, hvalue]
    omega
  rw [configElement, hkey, catS_eq (by omega), entryText, append_assoc, append_assoc]
  · rfl
  · rw [length_append, length_append, length_singleton, length_valueStr, hvalue]
    omega

/-- The bytes of a block that an element requests. -/
def requested (block : List UInt8) (element : BlockName) : List UInt8 :=
  slice block element.start element.count

theorem length_requested
    (hin : element.Inside block.length) :
    (requested block element).length = element.count := by
  obtain ⟨-, hle⟩ := hin
  rw [requested, slice_length]
  omega

theorem blockNameToConfig_text
    (config : MultiString)
    (hword : block.length < p.word)
    (hin : element.Inside block.length)
    (hrest : Ends rest)
    (htakes : p.Takes (entryText element (requested block element)).length) :
    blockNameToConfig p block config (element.text ++ rest) =
      .ok (appendToMultiString p config (entryText element (requested block element)), rest) := by
  obtain ⟨-, hle⟩ := hin
  have hdrop : (element.text ++ rest).drop offsetKey.length =
      element.offset ++ (widthKey ++ (element.width ++ rest)) := by
    rw [BlockName.text, append_assoc, drop_left, append_assoc, append_assoc]
  have htaken : (element.text ++ rest).take ((element.text ++ rest).length - rest.length) =
      element.text := by
    rw [length_append, Nat.add_sub_cancel, take_left]
  have hends : ¬ (rest ≠ [] ∧ rest.head? ≠ some '&') := by
    rcases hrest with rfl | ⟨s, rfl⟩
    · exact fun h => h.1 rfl
    · exact fun h => h.2 rfl
  have hsum : (element.start + element.count) % p.word = element.start + element.count :=
    Nat.mod_eq_of_lt (by omega)
  rw [blockNameToConfig, hdrop, offsetAndWidth_text (by omega) (by omega) hrest]
  simp only [if_neg hends, hsum, if_neg (not_lt.mpr hle), htaken, readBytes_inside hle]
  rw [← requested, configElement_text htakes]

/-- The text of the elements of a result. -/
def entriesText (block : List UInt8) (elements : List BlockName) : EfiString :=
  elements.flatMap fun element => '&' :: entryText element (requested block element)

@[simp] theorem entriesText_cons : entriesText block (element :: elements) =
    '&' :: entryText element (requested block element) ++ entriesText block elements :=
  rfl

theorem startsWith_text : startsWith (element.text ++ rest) offsetKey = true := by
  rw [BlockName.text, append_assoc]
  exact startsWith_append

/-- The loop appends the elements, with a separator between two of them. -/
theorem blockNamesToConfig_text
    (element : BlockName) (elements : List BlockName) (config : MultiString) (fuel : Nat)
    (hword : block.length < p.word)
    (hin : ∀ e ∈ element :: elements, e.Inside block.length)
    (hfuel : elements.length < fuel)
    (htakes : p.Takes (config.text.length +
      (entryText element (requested block element) ++ entriesText block elements).length)) :
    ∃ config', blockNamesToConfig p block fuel config
        (element.text ++ elements.flatMap fun element => '&' :: element.text) =
          some (.ok (config', [])) ∧
      config'.text = config.text ++
        (entryText element (requested block element) ++ entriesText block elements) := by
  induction elements generalizing element config fuel with
  | nil =>
      obtain ⟨fuel, rfl⟩ := Nat.exists_eq_succ_of_ne_zero (Nat.ne_of_gt hfuel)
      have hfirst := hin element mem_cons_self
      have hentry : p.Takes (entryText element (requested block element)).length :=
        htakes.mono (by simp [entriesText])
      have hturn := blockNameToConfig_text config hword hfirst (Or.inl rfl : Ends []) hentry
      refine ⟨appendToMultiString p config (entryText element (requested block element)), ?_, ?_⟩
      · rw [flatMap_nil, blockNamesToConfig, if_pos startsWith_text, hturn]
      · rw [appendToMultiString_text (htakes.mono (by simp [entriesText])), entriesText,
          flatMap_nil, append_nil]
  | cons next elements ih =>
      obtain ⟨fuel, rfl⟩ := Nat.exists_eq_succ_of_ne_zero (Nat.ne_of_gt (Nat.zero_lt_of_lt hfuel))
      have hfirst := hin element mem_cons_self
      have hrest : ∀ e ∈ next :: elements, e.Inside block.length :=
        fun e he => hin e (mem_cons_of_mem _ he)
      have hlength : (entryText element (requested block element) ++
          entriesText block (next :: elements)).length =
          (entryText element (requested block element)).length + 1 +
            (entryText next (requested block next) ++ entriesText block elements).length := by
        rw [entriesText_cons, length_append, cons_append, length_cons]
        omega
      rw [hlength] at htakes
      have hentry := htakes.mono (by omega :
        (entryText element (requested block element)).length ≤ _)
      have hturn := blockNameToConfig_text config hword hfirst
        (ends_flatMap : Ends ((next :: elements).flatMap fun element => '&' :: element.text))
        hentry
      have happend : (appendToMultiString p config
          (entryText element (requested block element))).text =
          config.text ++ entryText element (requested block element) :=
        appendToMultiString_text (htakes.mono (by omega))
      have hsep : (appendToMultiString p (appendToMultiString p config
          (entryText element (requested block element))) ['&']).text =
          config.text ++ entryText element (requested block element) ++ ['&'] := by
        rw [appendToMultiString_text, happend]
        refine htakes.mono ?_
        rw [happend, length_append, length_singleton]
        omega
      obtain ⟨config', hloop, htext⟩ := ih next
        (appendToMultiString p (appendToMultiString p config
          (entryText element (requested block element))) ['&']) fuel
        hrest (by rw [length_cons] at hfuel; omega) (htakes.mono (by
          rw [hsep, length_append, length_append, length_singleton]
          omega))
      refine ⟨config', ?_, ?_⟩
      · rw [blockNamesToConfig, if_pos startsWith_text, hturn]
        exact hloop
      · rw [htext, hsep, entriesText_cons]
        simp only [append_assoc, cons_append, nil_append]

theorem length_le_flatMap (elements : List BlockName) (f : BlockName → EfiString) :
    elements.length ≤ (elements.flatMap fun element => '&' :: f element).length := by
  induction elements with
  | nil => exact Nat.zero_le _
  | cons element elements ih =>
      rw [flatMap_cons, length_append, length_cons, length_cons]
      omega

/-- What `HiiBlockToConfig` makes of a request: the header and the elements in lower case. -/
theorem hiiBlockToConfig_request {hdr : ConfigHdr}
    (hword : block.length < p.word)
    (hin : ∀ e ∈ element :: elements, e.Inside block.length)
    (htakes : p.Takes (hdr.text.length + (entriesText block (element :: elements)).length)) :
    hiiBlockToConfig p (configRequest hdr (element :: elements)) block =
      some ⟨.success,
        some (hdr.lower.text ++ (element :: elements).flatMap fun element =>
          '&' :: lowerText element (requested block element)),
        (configRequest hdr (element :: elements)).length⟩ := by
  have hjump : jumpConfigHdr (configRequest hdr (element :: elements)) =
      some ('&' :: (element.text ++ elements.flatMap fun element => '&' :: element.text)) :=
    jumpConfigHdr_text ends_flatMap
  have hheader : (configRequest hdr (element :: elements)).take
      ((configRequest hdr (element :: elements)).length -
        (element.text ++ elements.flatMap fun element => '&' :: element.text).length) =
      hdr.text ++ ['&'] := by
    have hshape : configRequest hdr (element :: elements) = hdr.text ++ ['&'] ++
        (element.text ++ elements.flatMap fun element => '&' :: element.text) := by
      rw [configRequest, flatMap_cons]
      simp only [append_assoc, cons_append, nil_append]
    rw [hshape, length_append, Nat.add_sub_cancel, take_left]
  rw [entriesText_cons] at htakes
  have hconfig : (appendToMultiString p MultiString.empty (hdr.text ++ ['&'])).text =
      hdr.text ++ ['&'] := by
    rw [appendToMultiString_text]
    · rfl
    · refine htakes.mono ?_
      simp only [MultiString.empty, length_append, length_cons, length_nil]
      omega
  obtain ⟨config, hloop, htext⟩ := blockNamesToConfig_text element elements
    (appendToMultiString p MultiString.empty (hdr.text ++ ['&']))
    ((element.text ++ elements.flatMap fun element => '&' :: element.text).length + 1)
    hword hin (by
      have hle := length_le_flatMap elements BlockName.text
      rw [length_append]
      omega) (htakes.mono (by
      rw [hconfig]
      simp only [length_append, length_cons, length_nil, cons_append]
      omega))
  have hresult : config.text = hdr.text ++ entriesText block (element :: elements) := by
    rw [htext, hconfig, entriesText_cons]
    simp only [append_assoc, cons_append, nil_append]
  have hlower : hiiToLower config.text = hdr.lower.text ++ (element :: elements).flatMap
      fun element => '&' :: lowerText element (requested block element) := by
    rw [hresult, hiiToLower_text, entriesText, hiiToLowerFrom_entries]
  rw [hiiBlockToConfig, hjump]
  simp only [hheader, hloop, ne_eq, not_true_eq_false, if_false, hlower]

end BlockToConfig

section ConfigToBlock

variable {p : Platform} {element : BlockName} {elements : List BlockName} {rest : EfiString}
variable {value block : List UInt8} {size : Nat} {state : BlockState}

theorem slice_prefix_append {zeros : List UInt8} : slice (value ++ zeros) 0 value.length = value := by
  rw [slice, drop_zero, take_left]

/-- One element is written to the block. -/
theorem blockConfigToBlock_text
    (hword : size < p.word)
    (hin : element.Inside size)
    (hvalue : value.length = element.count)
    (hmax : state.maxBlockSize ≤ size)
    (hrest : Ends rest) :
    ∃ max ≤ size, blockConfigToBlock p size state ('&' :: lowerText element value ++ rest) =
      .ok (⟨state.block.map fun block => copyMem block element.start value, max⟩, rest) := by
  obtain ⟨hpos, hle⟩ := hin
  have hdigits : IsDigits ((valueStr value).map lowerDigit) := IsDigits.lower valueStr_digits
  have hne : (valueStr value).map lowerDigit ≠ [] := by
    intro hnil
    have hlength : (valueStr value).length = 2 * value.length := length_valueStr
    rw [map_eq_nil_iff.mp hnil, length_nil] at hlength
    omega
  have hdrop : ('&' :: lowerText element value ++ rest).drop (offsetKey.length + 1) =
      element.lower.offset ++ (widthKey ++ (element.lower.width ++ ('&' :: valueKey ++
        ((valueStr value).map lowerDigit ++ rest)))) := by
    simp only [lowerText, BlockName.text, append_assoc, cons_append,
      drop_succ_cons, drop_left]
  have hsecond : ('&' :: valueKey ++ ((valueStr value).map lowerDigit ++ rest)).drop
      (valueKey.length + 1) = (valueStr value).map lowerDigit ++ rest := by
    rw [cons_append, drop_succ_cons, drop_left]
  have hthird : ('&' :: valueKey ++ ((valueStr value).map lowerDigit ++ rest)).drop
      (valueKey.length + 1 + ((valueStr value).map lowerDigit).length) = rest := by
    rw [← drop_drop, hsecond, drop_left]
  have hnumber := getValueOfNumber_digits hne hdigits hrest
  rw [packDigits_valueStr] at hnumber
  have hends : ¬ (rest ≠ [] ∧ rest.head? ≠ some '&') := by
    rcases hrest with rfl | ⟨s, rfl⟩
    · exact fun h => h.1 rfl
    · exact fun h => h.2 rfl
  have hbytes : ∀ zeros, readBytes p (value ++ zeros) 0 element.count = value := by
    intro zeros
    rw [← hvalue, readBytes_inside (by rw [length_append]; omega), slice_prefix_append]
  have hsum : (element.start + element.count) % p.word = element.start + element.count :=
    Nat.mod_eq_of_lt (by omega)
  have hstart : element.lower.start < p.word := by rw [BlockName.start_lower]; omega
  have hcount : element.lower.count < p.word := by rw [BlockName.count_lower]; omega
  have hparse := offsetAndWidth_text hstart hcount
    (Or.inr ⟨_, rfl⟩ : Ends ('&' :: valueKey ++ ((valueStr value).map lowerDigit ++ rest)))
  rw [BlockName.start_lower, BlockName.count_lower] at hparse
  have hkey : startsWith ('&' :: valueKey ++ ((valueStr value).map lowerDigit ++ rest))
      ('&' :: valueKey) = true := startsWith_append
  refine ⟨if state.maxBlockSize < element.start + element.count then
    element.start + element.count else state.maxBlockSize, ?_, ?_⟩
  · split_ifs
    · exact hle
    · exact hmax
  · rw [blockConfigToBlock, hdrop, hparse]
    simp only [hkey, hsecond, hnumber, hthird, if_neg hends, hbytes, hsum, if_pos hle,
      Bool.not_true, Bool.false_eq_true, if_false]

/-- The text of the elements of a string in lower case. -/
def lowerEntries (value : BlockName → List UInt8) (elements : List BlockName) : EfiString :=
  elements.flatMap fun element => '&' :: lowerText element (value element)

/-- The loop writes the elements, one after the other. -/
theorem blockConfigsToBlock_text {value : BlockName → List UInt8}
    (elements : List BlockName) (state : BlockState) (fuel : Nat)
    (hword : size < p.word)
    (hin : ∀ e ∈ elements, e.Inside size ∧ (value e).length = e.count)
    (hmax : state.maxBlockSize ≤ size)
    (hfuel : elements.length < fuel) :
    ∃ max ≤ size, blockConfigsToBlock p size fuel state (lowerEntries value elements) =
      some (.ok (⟨state.block.map fun block =>
        elements.foldl (fun block e => copyMem block e.start (value e)) block, max⟩, [])) := by
  induction elements generalizing state fuel with
  | nil =>
      obtain ⟨fuel, rfl⟩ := Nat.exists_eq_succ_of_ne_zero (Nat.ne_of_gt hfuel)
      refine ⟨state.maxBlockSize, hmax, ?_⟩
      rw [blockConfigsToBlock]
      simp only [lowerEntries, flatMap_nil, foldl_nil, Option.map_id']
      rfl
  | cons element elements ih =>
      obtain ⟨fuel, rfl⟩ := Nat.exists_eq_succ_of_ne_zero (Nat.ne_of_gt (Nat.zero_lt_of_lt hfuel))
      obtain ⟨hfirst, hlength⟩ := hin element mem_cons_self
      have hrest : ∀ e ∈ elements, e.Inside size ∧ (value e).length = e.count :=
        fun e he => hin e (mem_cons_of_mem _ he)
      have hends : Ends (lowerEntries value elements) := ends_flatMap
      obtain ⟨max, hle, hturn⟩ := blockConfigToBlock_text hword hfirst hlength hmax hends
      have hshape : lowerEntries value (element :: elements) =
          '&' :: lowerText element (value element) ++ lowerEntries value elements := rfl
      have hstart : startsWith ('&' :: lowerText element (value element) ++
          lowerEntries value elements) ('&' :: offsetKey) = true := by
        rw [lowerText, BlockName.text]
        simp only [append_assoc, cons_append]
        exact @startsWith_append _ ('&' :: offsetKey)
      rcases elements with - | ⟨next, elements⟩
      · refine ⟨max, hle, ?_⟩
        rw [hshape, blockConfigsToBlock, if_pos hstart, hturn]
        rfl
      obtain ⟨max', hle', hloop⟩ := ih
        ⟨state.block.map fun block => copyMem block element.start (value element), max⟩ fuel
        hrest hle (by rw [length_cons] at hfuel; omega)
      refine ⟨max', hle', ?_⟩
      rw [hshape, blockConfigsToBlock, if_pos hstart, hturn]
      refine hloop.trans ?_
      rw [Option.map_map]
      rfl

theorem hiiConfigToBlock_text {hdr : ConfigHdr} {value : BlockName → List UInt8}
    (hword : block.length < p.word)
    (hne : elements ≠ [])
    (hin : ∀ e ∈ elements, e.Inside block.length ∧ (value e).length = e.count) :
    ∃ size progress, hiiConfigToBlock p (hdr.text ++ lowerEntries value elements) (some block)
        block.length =
      some ⟨.success,
        some (elements.foldl (fun block e => copyMem block e.start (value e)) block),
        size, progress⟩ := by
  rcases elements with - | ⟨element, elements⟩
  · exact absurd rfl hne
  have hends : Ends (lowerEntries value (element :: elements)) := ends_flatMap
  have hjump : jumpConfigHdr (hdr.text ++ lowerEntries value (element :: elements)) = some _ :=
    jumpConfigHdr_text hends
  have hshape : lowerEntries value (element :: elements) =
      '&' :: (lowerText element (value element) ++ lowerEntries value elements) := rfl
  have hfuel : (element :: elements).length <
      (lowerText element (value element) ++ lowerEntries value elements).length + 2 := by
    have hle := length_le_flatMap elements fun element => lowerText element (value element)
    rw [length_append, lowerEntries, length_cons]
    omega
  obtain ⟨max, hle, hloop⟩ := blockConfigsToBlock_text (element :: elements) ⟨some block, 0⟩ _
    hword hin (Nat.zero_le _) hfuel
  rw [hshape] at hjump hloop
  have hfits : ¬ (block.length < max) := not_lt.mpr hle
  refine ⟨(max + p.word - 1) % p.word,
    (hdr.text ++ lowerEntries value (element :: elements)).length, ?_⟩
  rw [hiiConfigToBlock, hshape, hjump]
  simp only [hloop, ne_eq, not_true_eq_false, if_false, hfits, false_and, Option.map_some,
    Option.isNone_some, Bool.false_eq_true]

theorem getElem?_foldl_requested {block' : List UInt8} {i : Nat}
    (hlength : block'.length = block.length)
    (hin : ∀ e ∈ elements, e.Inside block.length) :
    (elements.foldl (fun b e => copyMem b e.start (requested block e)) block')[i]? =
      if ∃ e ∈ elements, e.Covers i then block[i]? else block'[i]? := by
  induction elements generalizing block' with
  | nil => rw [foldl_nil, if_neg (by simp)]
  | cons element elements ih =>
      have hfirst := hin element mem_cons_self
      have hle := hfirst.2
      rw [foldl_cons, ih ((copyMem_length _ _ _).trans hlength)
        fun e he => hin e (mem_cons_of_mem _ he)]
      by_cases hlater : ∃ e ∈ elements, e.Covers i
      · obtain ⟨e, he, hcovers⟩ := hlater
        rw [if_pos ⟨e, he, hcovers⟩, if_pos ⟨e, mem_cons_of_mem _ he, hcovers⟩]
      · rw [if_neg hlater, copyMem, overlay_getElem?, length_requested hfirst]
        by_cases hcovers : element.Covers i
        · obtain ⟨hlow, hhigh⟩ := hcovers
          rw [if_pos ⟨hlow, hhigh⟩, if_pos ⟨element, mem_cons_self, hlow, hhigh⟩,
            getElem?_eq_getElem (by omega), Option.bind_some, requested, slice,
            getElem?_take_of_lt (by omega), getElem?_drop, Option.map_id',
            Nat.add_sub_cancel' hlow]
        · have hnone : ¬ ∃ e ∈ element :: elements, e.Covers i := by
            rintro ⟨e, he, hcov⟩
            rcases mem_cons.mp he with rfl | hrest
            · exact hcovers hcov
            · exact hlater ⟨e, hrest, hcov⟩
          rw [if_neg hnone]
          exact if_neg hcovers

end ConfigToBlock

section RoundTrip

variable {p : Platform} {hdr : ConfigHdr} {elements : List BlockName} {block block' : List UInt8}

theorem length_entriesText
    (hin : ∀ e ∈ elements, e.Inside block.length) :
    hdr.text.length + (entriesText block elements).length = configLength hdr elements := by
  rw [configLength, configRequest, length_append, Nat.add_assoc]
  congr 1
  induction elements with
  | nil => rfl
  | cons element elements ih =>
      have hrest := ih fun e he => hin e (mem_cons_of_mem _ he)
      have hvalue := length_requested (hin element mem_cons_self)
      have hkey : valueKey.length = 6 := rfl
      rw [entriesText_cons, length_append, hrest, flatMap_cons, map_cons,
        sum_cons, length_append, entryText]
      simp only [length_cons, length_append, length_valueStr, hvalue, hkey,
        cons_append]
      omega

theorem length_foldl_copyMem {value : BlockName → List UInt8} :
    (elements.foldl (fun b e => copyMem b e.start (value e)) block).length = block.length := by
  induction elements generalizing block with
  | nil => rfl
  | cons element elements ih => rw [foldl_cons, ih, copyMem_length]

/-- Both functions succeed on the request and a block, and any other block of this size gets the
requested bytes and no others. -/
def RoundTrips (p : Platform) (hdr : ConfigHdr) (elements : List BlockName)
    (block : List UInt8) : Prop :=
  ∀ block' : List UInt8, block'.length = block.length →
    ∃ config progress result size progress',
      hiiBlockToConfig p (configRequest hdr elements) block =
        some ⟨.success, some config, progress⟩ ∧
      hiiConfigToBlock p config (some block') block'.length =
        some ⟨.success, some result, size, progress'⟩ ∧
      result.length = block'.length ∧
      ∀ i, result[i]? = if ∃ e ∈ elements, e.Covers i then block[i]? else block'[i]?

/-- A request with an element, within what the platform takes, makes the round trip. -/
theorem block_to_config_to_block
    (hne : elements ≠ [])
    (hword : block.length < p.word)
    (hin : ∀ e ∈ elements, e.Inside block.length)
    (htakes : p.Takes (configLength hdr elements)) :
    RoundTrips p hdr elements block := by
  intro block' hsize
  have hconfig : hiiBlockToConfig p (configRequest hdr elements) block =
      some ⟨.success, some (hdr.lower.text ++ lowerEntries (requested block) elements),
        (configRequest hdr elements).length⟩ := by
    rcases elements with - | ⟨element, elements⟩
    · exact absurd rfl hne
    · exact hiiBlockToConfig_request hword hin (by rwa [length_entriesText hin])
  have hin' : ∀ e ∈ elements, e.Inside block'.length ∧ (requested block e).length = e.count :=
    fun e he => ⟨by rw [hsize]; exact hin e he, length_requested (hin e he)⟩
  obtain ⟨size, progress, hblock⟩ := hiiConfigToBlock_text (by rwa [hsize]) hne hin'
  exact ⟨_, _, _, size, progress, hconfig, hblock, length_foldl_copyMem,
    fun i => getElem?_foldl_requested hsize hin⟩

end RoundTrip

section Sample

/-- The platform of `MdePkg.dec` on 64 bits, but for the length of strings. -/
def samplePlatform (rsizeMax : Nat) : Platform :=
  ⟨rsizeMax, 8, fun _ => 0xAF⟩

def sampleHdr : ConfigHdr :=
  ⟨['0', '1'], ['A', 'b'], ['7', 'F'], by decide, by decide, by decide⟩

/-- `OFFSET=1&WIDTH=0x02`, and `OFFSET=0&WIDTH=12C`. -/
def sampleElement : BlockName :=
  ⟨['1'], ['0', '2'], by decide, by decide, by decide, by decide⟩

def longElement : BlockName :=
  ⟨['0'], ['1', '2', 'C'], by decide, by decide, by decide, by decide⟩

theorem block_to_config_to_block_sample :
    RoundTrips (samplePlatform 1000000) sampleHdr [sampleElement] [1, 2, 3, 4] :=
  block_to_config_to_block (by decide) (by decide)
    (forall_mem_singleton.mpr ⟨by decide, by decide⟩) (Or.inr ⟨by decide, by decide⟩)

/-- The status of the second function on the result of the first one. -/
def roundTripStatus (p : Platform) (request : EfiString) (block block' : List UInt8) :
    Option EfiStatus := do
  let result ← hiiBlockToConfig p request block
  let config ← result.config
  let result ← hiiConfigToBlock p config (some block') block'.length
  pure result.status

theorem RoundTrips.status {p : Platform} {hdr : ConfigHdr} {elements : List BlockName}
    {block : List UInt8} (block' : List UInt8)
    (htrips : RoundTrips p hdr elements block)
    (hsize : block'.length = block.length) :
    roundTripStatus p (configRequest hdr elements) block block' = some .success := by
  obtain ⟨config, progress, result, size, progress', hconfig, hblock, -⟩ := htrips block' hsize
  rw [roundTripStatus, hconfig, Option.bind_eq_bind, Option.bind_some]
  simp only [Option.bind_eq_bind, Option.bind_some, hblock]
  rfl

/-- A request without elements does not make the round trip: its result is not accepted.
Nor does one whose result is longer than the platform takes: parts are left out of it. -/
theorem block_to_config_to_block_fails :
    ¬ RoundTrips (samplePlatform 1000000) sampleHdr [] [1, 2] ∧
      (longElement.Inside 300 ∧
        ¬ RoundTrips (samplePlatform 512) sampleHdr [longElement] (List.replicate 300 0)) := by
  refine ⟨fun htrips => ?_, ⟨by decide, by decide⟩, fun htrips => ?_⟩
  · have hstatus := htrips.status [3, 4] rfl
    revert hstatus
    decide +kernel
  · have hstatus := htrips.status (List.replicate 300 1)
      (by rw [length_replicate, length_replicate])
    revert hstatus
    decide +kernel

end Sample

end Hii
end Udk
