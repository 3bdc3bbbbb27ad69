import Udk.HiiDatabase.Numbers

/-!
# Requests and their text

A `<ConfigRequest>` as data, its text, what the header functions make of it, and what it is
in lower case.
-/

namespace Udk
namespace Hii

open List

/-- `L"&NAME="`. -/
def nameKey : EfiString := ['&', 'N', 'A', 'M', 'E', '=']

def IsDigits (digits : EfiString) : Prop :=
  ∀ c ∈ digits, isHexDigit c = true

instance (digits : EfiString) : Decidable (IsDigits digits) :=
  List.decidableBAll (fun c => isHexDigit c = true) digits

/-- `<ConfigHdr>`. -/
structure ConfigHdr where
  guid : EfiString
  name : EfiString
  path : EfiString
  guid_digits : IsDigits guid
  name_digits : IsDigits name
  path_digits : IsDigits path

/-- The header up to `PATH`. -/
def ConfigHdr.lead (hdr : ConfigHdr) : EfiString :=
  guidKey ++ (hdr.guid ++ (nameKey ++ (hdr.name ++ ['&'])))

def ConfigHdr.text (hdr : ConfigHdr) : EfiString :=
  hdr.lead ++ (pathKey ++ hdr.path)

/-- `<BlockName>`. -/
structure BlockName where
  offset : EfiString
  width : EfiString
  offset_ne : offset ≠ []
  width_ne : width ≠ []
  offset_digits : IsDigits offset
  width_digits : IsDigits width

namespace BlockName

def text (element : BlockName) : EfiString :=
  offsetKey ++ (element.offset ++ (widthKey ++ element.width))

def start (element : BlockName) : Nat :=
  hexNumber element.offset

def count (element : BlockName) : Nat :=
  hexNumber element.width

/-- The bytes that are requested. -/
def Covers (element : BlockName) (i : Nat) : Prop :=
  element.start ≤ i ∧ i < element.start + element.count

instance (element : BlockName) (i : Nat) : Decidable (element.Covers i) :=
  inferInstanceAs (Decidable (_ ∧ _))

/-- The request is for at least one byte and lies inside a block. -/
def Inside (element : BlockName) (size : Nat) : Prop :=
  0 < element.count ∧ element.start + element.count ≤ size

end BlockName

/-- `<ConfigRequest>`. -/
def configRequest (hdr : ConfigHdr) (elements : List BlockName) : EfiString :=
  hdr.text ++ elements.flatMap fun element => '&' :: element.text

/-- The length of the string that the request gives. -/
def configLength (hdr : ConfigHdr) (elements : List BlockName) : Nat :=
  (configRequest hdr elements).length +
    (elements.map fun element => 7 + 2 * element.count).sum

section Header

variable {s rest key : EfiString} {hdr : ConfigHdr} {digits : EfiString}

@[simp] theorem startsWith_append : startsWith (key ++ s) key = true :=
  isPrefixOf_iff_prefix.mpr (prefix_append key s)

theorem skipToPath_append {a : EfiString}
    (ha : 'P' ∉ a) :
    skipToPath (a ++ s) = skipToPath s := by
  induction a with
  | nil => rfl
  | cons c a ih =>
      rw [mem_cons, not_or] at ha
      have hne : startsWith (c :: (a ++ s)) pathKey = false := by
        rw [startsWith, pathKey, List.isPrefixOf, Bool.and_eq_false_iff]
        exact Or.inl (beq_eq_false_iff_ne.mpr ha.1)
      rw [cons_append, skipToPath, hne]
      exact ih ha.2

theorem IsDigits.not_mem
    (hdigits : IsDigits digits) {c : Char}
    (hc : isHexDigit c = false) :
    c ∉ digits := by
  intro hmem
  rw [hdigits c hmem] at hc
  cases hc

theorem IsDigits.lower
    (hdigits : IsDigits digits) :
    IsDigits (digits.map lowerDigit) := by
  intro c hc
  obtain ⟨d, hd, rfl⟩ := mem_map.mp hc
  exact (lowerDigit_digit (hdigits d hd)).1

theorem dropWhile_digits {a : EfiString}
    (ha : '&' ∉ a)
    (hrest : Ends rest) :
    (a ++ rest).dropWhile (· ≠ '&') = rest := by
  rw [dropWhile_append_of_pos]
  · rcases hrest with rfl | ⟨s, rfl⟩
    · rfl
    · exact dropWhile_cons_of_neg (by decide)
  · intro c hc
    exact decide_eq_true fun h => ha (h ▸ hc)

theorem jumpConfigHdr_text
    (hrest : Ends rest) :
    jumpConfigHdr (hdr.text ++ rest) = some rest := by
  have hguid := @IsDigits.not_mem _ hdr.guid_digits 'P' rfl
  have hname := @IsDigits.not_mem _ hdr.name_digits 'P' rfl
  have hlead : 'P' ∉ hdr.lead := by
    simp only [ConfigHdr.lead, mem_append, not_or]
    exact ⟨by decide, hguid, by decide, hname, by decide⟩
  have hpath : skipToPath (hdr.text ++ rest) = pathKey ++ hdr.path ++ rest := by
    rw [ConfigHdr.text, append_assoc, skipToPath_append hlead, append_assoc]
    rfl
  have hstart : startsWith (hdr.text ++ rest) guidKey = true := by
    rw [ConfigHdr.text, ConfigHdr.lead]
    simp only [append_assoc]
    exact startsWith_append
  have hsep : '&' ∉ pathKey ++ hdr.path := by
    rw [mem_append, not_or]
    exact ⟨by decide, @IsDigits.not_mem _ hdr.path_digits '&' rfl⟩
  rw [jumpConfigHdr, hstart, hpath, dropWhile_digits hsep hrest]
  rfl

end Header

section Lower

variable {s : EfiString} {flag : Bool} {hdr : ConfigHdr} {digits : EfiString} {element : BlockName}

theorem hiiToLowerFrom_digits
    (hdigits : IsDigits digits) :
    hiiToLowerFrom true (digits ++ s) = digits.map lowerDigit ++ hiiToLowerFrom true s := by
  induction digits with
  | nil => rfl
  | cons c digits ih =>
      obtain ⟨hc, hrest⟩ := forall_mem_cons.mp hdigits
      obtain ⟨-, -, hsep, heq⟩ := strHexToUint64_digit hc
      rw [cons_append, hiiToLowerFrom, if_neg heq, if_neg hsep, ih hrest, map_cons,
        cons_append, lowerDigit]
      split_ifs with h h' h'
      · rfl
      · exact absurd h.2 h'
      · exact absurd ⟨rfl, h'⟩ h
      · rfl

/-- A header in lower case. -/
def ConfigHdr.lower (hdr : ConfigHdr) : ConfigHdr where
  guid := hdr.guid.map lowerDigit
  name := hdr.name.map lowerDigit
  path := hdr.path.map lowerDigit
  guid_digits := hdr.guid_digits.lower
  name_digits := hdr.name_digits.lower
  path_digits := hdr.path_digits.lower

theorem hiiToLower_text : hiiToLower (hdr.text ++ s) = hdr.lower.text ++ hiiToLowerFrom true s := by
  have hguid : hiiToLowerFrom false (guidKey ++ (hdr.guid ++ (nameKey ++ (hdr.name ++
      ('&' :: pathKey ++ (hdr.path ++ s)))))) =
      guidKey ++ hiiToLowerFrom true (hdr.guid ++ (nameKey ++ (hdr.name ++
        ('&' :: pathKey ++ (hdr.path ++ s))))) := rfl
  have hname : hiiToLowerFrom true (nameKey ++ (hdr.name ++
      ('&' :: pathKey ++ (hdr.path ++ s)))) =
      nameKey ++ hiiToLowerFrom true (hdr.name ++ ('&' :: pathKey ++ (hdr.path ++ s))) := rfl
  have hpath : hiiToLowerFrom true ('&' :: pathKey ++ (hdr.path ++ s)) =
      '&' :: pathKey ++ hiiToLowerFrom true (hdr.path ++ s) := rfl
  have hshape : hdr.text ++ s = guidKey ++ (hdr.guid ++ (nameKey ++ (hdr.name ++
      ('&' :: pathKey ++ (hdr.path ++ s))))) := by
    simp only [ConfigHdr.text, ConfigHdr.lead, append_assoc, cons_append,
      nil_append]
  rw [hiiToLower, hshape, hguid, hiiToLowerFrom_digits hdr.guid_digits, hname,
    hiiToLowerFrom_digits hdr.name_digits, hpath, hiiToLowerFrom_digits hdr.path_digits]
  simp only [ConfigHdr.text, ConfigHdr.lead, ConfigHdr.lower, append_assoc,
    cons_append, nil_append]

theorem foldl_lower {n : Nat}
    (hdigits : IsDigits digits) :
    (digits.map lowerDigit).foldl (fun n c => 16 * n + hexCharToUintn c) n =
      digits.foldl (fun n c => 16 * n + hexCharToUintn c) n := by
  induction digits generalizing n with
  | nil => rfl
  | cons c digits ih =>
      obtain ⟨hc, hrest⟩ := forall_mem_cons.mp hdigits
      rw [map_cons, foldl_cons, foldl_cons, ih hrest, (lowerDigit_digit hc).2]

/-- A `<BlockName>` in lower case. -/
def BlockName.lower (element : BlockName) : BlockName where
  offset := element.offset.map lowerDigit
  width := element.width.map lowerDigit
  offset_ne := by simp [element.offset_ne]
  width_ne := by simp [element.width_ne]
  offset_digits := element.offset_digits.lower
  width_digits := element.width_digits.lower

theorem BlockName.start_lower : element.lower.start = element.start :=
  foldl_lower element.offset_digits

theorem BlockName.count_lower : element.lower.count = element.count :=
  foldl_lower element.width_digits

/-- The `<ConfigElement>` of a `<BlockName>`. -/
def entryText (element : BlockName) (value : List UInt8) : EfiString :=
  element.text ++ ('&' :: valueKey ++ valueStr value)

/-- A `<ConfigElement>` in lower case. -/
def lowerText (element : BlockName) (value : List UInt8) : EfiString :=
  element.lower.text ++ ('&' :: valueKey ++ (valueStr value).map lowerDigit)

theorem hiiToLowerFrom_entry {value : List UInt8} :
    hiiToLowerFrom flag ('&' :: entryText element value ++ s) =
      '&' :: lowerText element value ++ hiiToLowerFrom true s := by
  have hoffset : ∀ s, hiiToLowerFrom flag ('&' :: offsetKey ++ s) =
      '&' :: offsetKey ++ hiiToLowerFrom true s := fun _ => rfl
  have hwidth : ∀ s, hiiToLowerFrom true (widthKey ++ s) =
      widthKey ++ hiiToLowerFrom true s := fun _ => rfl
  have hvalue : ∀ s, hiiToLowerFrom true ('&' :: valueKey ++ s) =
      '&' :: valueKey ++ hiiToLowerFrom true s := fun _ => rfl
  have hshape : '&' :: entryText element value ++ s =
      '&' :: offsetKey ++ (element.offset ++ (widthKey ++ (element.width ++
        ('&' :: valueKey ++ (valueStr value ++ s))))) := by
    simp only [entryText, BlockName.text, append_assoc, cons_append]
  rw [hshape, hoffset, hiiToLowerFrom_digits element.offset_digits, hwidth,
    hiiToLowerFrom_digits element.width_digits, hvalue, hiiToLowerFrom_digits valueStr_digits]
  simp only [lowerText, BlockName.text, BlockName.lower, append_assoc, cons_append]

theorem hiiToLowerFrom_entries {elements : List BlockName} {value : BlockName → List UInt8} :
    hiiToLowerFrom true (elements.flatMap fun element => '&' :: entryText element (value element)) =
      elements.flatMap fun element => '&' :: lowerText element (value element) := by
  induction elements with
  | nil => rfl
  | cons element elements ih =>
      rw [flatMap_cons, flatMap_cons, hiiToLowerFrom_entry, ih]

end Lower

end Hii
end Udk
