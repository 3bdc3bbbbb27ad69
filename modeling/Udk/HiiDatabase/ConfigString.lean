import Mathlib.Data.List.Basic
import Mathlib.Data.List.TakeWhile
import Udk.Bytes

/-!
# Configuration strings

The string routines under `ConfigRouting.c`.  A string is the list of its characters before
the terminator, and a pointer into it is what is left from there on.  Pool allocations
succeed, and sizes in bytes do not wrap around.
-/

namespace Udk
namespace Hii

variable {p : Platform}

abbrev EfiString := List Char

/-- What the platform chooses: `PcdMaximumUnicodeStringLength`, the size of `UINTN`, and what
lies in the pool behind a buffer. -/
structure Platform where
  rsizeMax : Nat
  sizeofUintn : Nat
  stray : Nat → UInt8

/-- The number of values of `UINTN`. -/
def Platform.word (p : Platform) : Nat :=
  256 ^ p.sizeofUintn

/-- `MAX_STRING_LENGTH`. -/
def maxStringLength : Nat := 1024

/-- `StrSize`. -/
def strSize (s : EfiString) : Nat :=
  2 * (s.length + 1)

/-- `StrCatS`; nothing when the call is refused. -/
def strCatS (p : Platform) (dest : EfiString) (destMax : Nat) (source : EfiString) :
    Option EfiString :=
  let destLen := min dest.length destMax
  let copyLen := destMax - destLen
  if p.rsizeMax ≠ 0 ∧ p.rsizeMax < destMax then none
  else if destMax = 0 then none
  else if copyLen = 0 then none
  else if copyLen ≤ min source.length copyLen then none
  else some (dest ++ source)

/-- What is in a buffer after `StrCatS`, whose status is not looked at. -/
def catS (p : Platform) (dest : EfiString) (destMax : Nat) (source : EfiString) : EfiString :=
  (strCatS p dest destMax source).getD dest

theorem length_strCatS {dest source result : EfiString} {destMax : Nat}
    (h : strCatS p dest destMax source = some result) :
    result.length + 1 ≤ destMax := by
  rw [strCatS] at h
  split_ifs at h with hmax hzero hfull hshort
  obtain rfl := Option.some_inj.mp h
  rw [List.length_append]
  omega

theorem catS_eq {dest source : EfiString} {destMax : Nat}
    (hmax : p.rsizeMax = 0 ∨ destMax ≤ p.rsizeMax)
    (hroom : dest.length + source.length < destMax) :
    catS p dest destMax source = dest ++ source := by
  rw [catS, strCatS, if_neg (by omega), if_neg (by omega), if_neg (by omega), if_neg (by omega)]
  rfl

/-- A string in a buffer of some bytes, which it fits in with its terminator. -/
structure MultiString where
  text : EfiString
  size : Nat
  large : maxStringLength ≤ size
  fits : strSize text ≤ size

/-- The buffer that `HiiBlockToConfig` allocates. -/
def MultiString.empty : MultiString :=
  ⟨[], maxStringLength, le_refl _, by decide⟩

/-- `AppendToMultiString`. -/
def appendToMultiString (p : Platform) (multiString : MultiString) (appendString : EfiString) :
    MultiString :=
  let multiStringSize := strSize multiString.text
  let appendStringSize := strSize appendString
  if hlong : maxStringLength < multiStringSize + appendStringSize ∨
      maxStringLength < multiStringSize then
    let size := multiStringSize + appendStringSize
    { text := catS p multiString.text (size / 2) appendString
      size := size
      large := by omega
      fits := by
        rw [catS]
        rcases hcat : strCatS p multiString.text (size / 2) appendString with - | result
        · exact Nat.le_add_right _ _
        · have hle := length_strCatS hcat
          rw [Option.getD_some, strSize]
          omega }
  else
    { text := catS p multiString.text (maxStringLength / 2) appendString
      size := multiString.size
      large := multiString.large
      fits := by
        rw [catS]
        rcases hcat : strCatS p multiString.text (maxStringLength / 2) appendString
          with - | result
        · exact multiString.fits
        · have hle := length_strCatS hcat
          have hlarge := multiString.large
          rw [Option.getD_some, strSize]
          rw [maxStringLength] at hle hlarge
          omega }

/-- The platform takes strings of a length, and the buffer of `HiiBlockToConfig`. -/
def Platform.Takes (p : Platform) (length : Nat) : Prop :=
  p.rsizeMax = 0 ∨ maxStringLength / 2 ≤ p.rsizeMax ∧ length + 2 ≤ p.rsizeMax

theorem Platform.Takes.mono {length length' : Nat}
    (htakes : p.Takes length)
    (hle : length' ≤ length) :
    p.Takes length' := by
  rcases htakes with hzero | ⟨hbuffer, hlength⟩
  · exact Or.inl hzero
  · exact Or.inr ⟨hbuffer, by omega⟩

theorem appendToMultiString_text {multiString : MultiString}
    {appendString : EfiString}
    (htakes : p.Takes (multiString.text.length + appendString.length)) :
    (appendToMultiString p multiString appendString).text =
      multiString.text ++ appendString := by
  rw [appendToMultiString]
  rw [Platform.Takes] at htakes
  split_ifs with hlong
  · refine catS_eq ?_ ?_ <;> simp only [strSize]
    · omega
    · omega
  · simp only [not_or, not_lt, strSize] at hlong
    refine catS_eq ?_ ?_ <;> simp only [maxStringLength] at hlong ⊢
    · simp only [maxStringLength] at htakes
      omega
    · omega

section Numbers

/-- `InternalIsHexaDecimalDigitCharacter`. -/
def isHexDigit (c : Char) : Bool :=
  ('0' ≤ c && c ≤ '9') || ('A' ≤ c && c ≤ 'F') || ('a' ≤ c && c ≤ 'f')

/-- `InternalCharToUpper`. -/
def charToUpper (c : Char) : Char :=
  if 'a' ≤ c ∧ c ≤ 'z' then Char.ofNat (c.toNat - 32) else c

/-- `InternalHexCharToUintn`. -/
def hexCharToUintn (c : Char) : Nat :=
  if '0' ≤ c ∧ c ≤ '9' then c.toNat - '0'.toNat
  else 10 + (charToUpper c).toNat - 'A'.toNat

/-- `StrHexToUint64`. -/
def strHexToUint64 (s : EfiString) : Nat :=
  let value := fun digits : EfiString =>
    (digits.takeWhile isHexDigit).foldl (fun n c => (16 * n + hexCharToUintn c) % 2 ^ 64) 0
  let unpadded := s.dropWhile fun c => c = ' ' || c = '\t'
  match unpadded.dropWhile (· = '0') with
  | [] => 0
  | c :: rest =>
      if charToUpper c = 'X' then
        if unpadded.head? = some '0' then value rest else 0
      else
        value (c :: rest)

/-- The bytes of a number, two digits a byte, from the last digit on. -/
def packDigits : List UInt8 → List UInt8
  | [] => []
  | [low] => [low]
  | low :: high :: digits => ((high <<< 4) + low) :: packDigits digits

/-- `GetValueOfNumber`: the buffer, which is zero behind the number, and the length of the
number; nothing at the end of the string. -/
def getValueOfNumber (s : EfiString) : Option (List UInt8 × Nat) :=
  if s = [] then
    none
  else
    let str := s.takeWhile (· ≠ '&')
    let number := packDigits (str.reverse.map fun c => UInt8.ofNat (strHexToUint64 [c]))
    some (number ++ List.replicate ((str.length + 2) / 2 - number.length) 0, str.length)

/-- The number that `CopyMem` leaves in a `UINTN`. -/
def copyNumber (p : Platform) (number : List UInt8) (length : Nat) : Nat :=
  ofLE (number.take (if (length + 1) / 2 < p.sizeofUintn then (length + 1) / 2
    else p.sizeofUintn))

end Numbers

section Text

/-- `HiiToLower`, from a character on. -/
def hiiToLowerFrom (lower : Bool) : EfiString → EfiString
  | [] => []
  | c :: s =>
      if c = '=' then c :: hiiToLowerFrom true s
      else if c = '&' then c :: hiiToLowerFrom false s
      else if lower = true ∧ 'A' ≤ c ∧ c ≤ 'F' then
        Char.ofNat (c.toNat - 'A'.toNat + 'a'.toNat) :: hiiToLowerFrom lower s
      else
        c :: hiiToLowerFrom lower s

/-- `HiiToLower`. -/
def hiiToLower (s : EfiString) : EfiString :=
  hiiToLowerFrom false s

/-- `mHexStr`. -/
def mHexStr : List Char :=
  ['0', '1', '2', '3', '4', '5', '6', '7', '8', '9', 'A', 'B', 'C', 'D', 'E', 'F']

/-- The digits that `BasePrintLibValueToString` leaves, the last one first; a value of 64 bits
has at most 16. -/
def valueToString : Nat → Nat → List Char
  | 0, _ => []
  | fuel + 1, value =>
      mHexStr.getD (value % 16) '0' ::
        if value / 16 = 0 then [] else valueToString fuel (value / 16)

/-- `UnicodeValueToString` with `PREFIX_ZERO | RADIX_HEX`. -/
def unicodeValueToString (value width : Nat) : EfiString :=
  let digits := valueToString 16 value
  (List.replicate (width - digits.length) '0' ++ digits.reverse).take width

end Text

end Hii
end Udk
