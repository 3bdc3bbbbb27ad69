import Udk.HiiDatabase.ConfigRouting

/-!
# Numbers in configuration strings

What `GetValueOfNumber` reads from hexadecimal digits, and that it reads back the bytes that
`HiiBlockToConfig` writes.
-/

namespace Udk
namespace Hii

open List

section Digits

variable {c : Char} {digits : EfiString}

theorem ofNat_toNat_cases (P : Char → Prop) (low high : Nat)
    (hall : ∀ n, low ≤ n → n ≤ high → P (Char.ofNat n))
    (hlow : low ≤ c.toNat) (hhigh : c.toNat ≤ high) :
    P c := by
  have h := hall c.toNat hlow hhigh
  rwa [Char.ofNat_toNat] at h

theorem isHexDigit_cases (P : Char → Prop)
    (hdigit : isHexDigit c = true)
    (hdecimal : ∀ n, 48 ≤ n → n ≤ 57 → P (Char.ofNat n))
    (hupper : ∀ n, 65 ≤ n → n ≤ 70 → P (Char.ofNat n))
    (hlower : ∀ n, 97 ≤ n → n ≤ 102 → P (Char.ofNat n)) :
    P c := by
  simp only [isHexDigit, Bool.or_eq_true, Bool.and_eq_true, decide_eq_true_eq] at hdigit
  rcases hdigit with (⟨hlow, hhigh⟩ | ⟨hlow, hhigh⟩) | ⟨hlow, hhigh⟩
  · exact ofNat_toNat_cases P 48 57 hdecimal hlow hhigh
  · exact ofNat_toNat_cases P 65 70 hupper hlow hhigh
  · exact ofNat_toNat_cases P 97 102 hlower hlow hhigh

theorem strHexToUint64_digit
    (hdigit : isHexDigit c = true) :
    strHexToUint64 [c] = hexCharToUintn c ∧ hexCharToUintn c < 16 ∧ c ≠ '&' ∧ c ≠ '=' := by
  refine isHexDigit_cases
    (fun c => strHexToUint64 [c] = hexCharToUintn c ∧ hexCharToUintn c < 16 ∧ c ≠ '&' ∧ c ≠ '=')
    hdigit ?_ ?_ ?_
  all_goals
    intro n hlow hhigh
    interval_cases n <;> decide

/-- What `HiiToLower` makes of a digit. -/
def lowerDigit (c : Char) : Char :=
  if 'A' ≤ c ∧ c ≤ 'F' then Char.ofNat (c.toNat - 'A'.toNat + 'a'.toNat) else c

theorem lowerDigit_digit
    (hdigit : isHexDigit c = true) :
    isHexDigit (lowerDigit c) = true ∧ hexCharToUintn (lowerDigit c) = hexCharToUintn c := by
  refine isHexDigit_cases
    (fun c => isHexDigit (lowerDigit c) = true ∧
      hexCharToUintn (lowerDigit c) = hexCharToUintn c) hdigit ?_ ?_ ?_
  all_goals
    intro n hlow hhigh
    interval_cases n <;> decide

/-- The number that digits stand for. -/
def hexNumber (digits : EfiString) : Nat :=
  digits.foldl (fun n c => 16 * n + hexCharToUintn c) 0

/-- The digits as bytes, the last one first. -/
def digitBytes (digits : EfiString) : List UInt8 :=
  digits.reverse.map fun c => UInt8.ofNat (strHexToUint64 [c])

theorem hexNumber_append_singleton : hexNumber (digits ++ [c]) =
    16 * hexNumber digits + hexCharToUintn c := by
  rw [hexNumber, foldl_append]
  rfl

theorem digitBytes_append {a b : EfiString} :
    digitBytes (a ++ b) = digitBytes b ++ digitBytes a := by
  rw [digitBytes, reverse_append, map_append, ← digitBytes, ← digitBytes]

theorem length_packDigits {ds : List UInt8} :
    (packDigits ds).length = (ds.length + 1) / 2 := by
  induction ds using packDigits.induct with
  | case1 => rw [packDigits, length_nil]
  | case2 => rw [packDigits, length_singleton]
  | case3 low high ds ih =>
      rw [packDigits, length_cons, ih, length_cons, length_cons]
      omega

theorem toNat_pack {low high : UInt8}
    (hlow : low.toNat < 16) (hhigh : high.toNat < 16) :
    ((high <<< 4) + low).toNat = 16 * high.toNat + low.toNat := by
  simp only [UInt8.toNat_add, UInt8.toNat_shiftLeft, Nat.shiftLeft_eq]
  have hfour : (4 : UInt8).toNat % 8 = 4 := rfl
  rw [hfour]
  omega

theorem ofLE_packDigits {ds : List UInt8}
    (hall : ∀ d ∈ ds, d.toNat < 16) :
    ofLE (packDigits ds) = ds.foldr (fun d n => d.toNat + 16 * n) 0 := by
  induction ds using packDigits.induct with
  | case1 => rfl
  | case2 low => rfl
  | case3 low high ds ih =>
      have hlow := hall low mem_cons_self
      have hhigh := hall high (mem_cons_of_mem _ mem_cons_self)
      have hrest := ih fun d hd => hall d (mem_cons_of_mem _ (mem_cons_of_mem _ hd))
      rw [packDigits, ofLE, toNat_pack hlow hhigh, hrest, foldr_cons, foldr_cons]
      omega

theorem toNat_digitByte
    (hdigit : isHexDigit c = true) :
    (UInt8.ofNat (strHexToUint64 [c])).toNat = hexCharToUintn c := by
  obtain ⟨hvalue, hlt, -⟩ := strHexToUint64_digit hdigit
  rw [hvalue, UInt8.toNat_ofNat', Nat.mod_eq_of_lt (by omega)]

theorem foldr_digitBytes
    (hall : ∀ c ∈ digits, isHexDigit c = true) :
    (digitBytes digits).foldr (fun d n => d.toNat + 16 * n) 0 = hexNumber digits := by
  induction digits using List.reverseRecOn with
  | nil => rfl
  | append_singleton digits c ih =>
      have hdigit := hall c (mem_append_right _ (mem_singleton.mpr rfl))
      have hrest := ih fun d hd => hall d (mem_append_left _ hd)
      rw [digitBytes_append, foldr_append, hrest, hexNumber_append_singleton]
      simp only [digitBytes, reverse_singleton, map_cons, map_nil,
        foldr_cons, foldr_nil, toNat_digitByte hdigit]
      omega

theorem digitBytes_lt
    (hall : ∀ c ∈ digits, isHexDigit c = true) :
    ∀ d ∈ digitBytes digits, d.toNat < 16 := by
  intro d hd
  obtain ⟨c, hc, rfl⟩ := mem_map.mp hd
  have hdigit := hall c (mem_reverse.mp hc)
  rw [toNat_digitByte hdigit]
  exact (strHexToUint64_digit hdigit).2.1

theorem ofLE_digitBytes
    (hall : ∀ c ∈ digits, isHexDigit c = true) :
    ofLE (packDigits (digitBytes digits)) = hexNumber digits := by
  rw [ofLE_packDigits (digitBytes_lt hall), foldr_digitBytes hall]

/-- The text behind a number: the end, or a separator. -/
def Ends (rest : EfiString) : Prop :=
  rest = [] ∨ ∃ s, rest = '&' :: s

theorem takeWhile_digits {rest : EfiString}
    (hall : ∀ c ∈ digits, isHexDigit c = true)
    (hrest : Ends rest) :
    (digits ++ rest).takeWhile (· ≠ '&') = digits := by
  rw [takeWhile_append_of_pos]
  · rcases hrest with rfl | ⟨s, rfl⟩
    · exact append_nil _
    · rw [takeWhile_cons_of_neg (by decide), append_nil]
  · intro c hc
    exact decide_eq_true (strHexToUint64_digit (hall c hc)).2.2.1

theorem getValueOfNumber_digits {rest : EfiString}
    (hne : digits ≠ [])
    (hall : ∀ c ∈ digits, isHexDigit c = true)
    (hrest : Ends rest) :
    getValueOfNumber (digits ++ rest) =
      some (packDigits (digitBytes digits) ++
        List.replicate ((digits.length + 2) / 2 - (digits.length + 1) / 2) 0,
        digits.length) := by
  have hlength : (packDigits (digitBytes digits)).length = (digits.length + 1) / 2 := by
    rw [length_packDigits, digitBytes, length_map, length_reverse]
  rw [getValueOfNumber, if_neg (by simp [hne]), takeWhile_digits hall hrest, ← hlength]
  rfl

theorem ofLE_take {bs : List UInt8} {k : Nat} :
    ofLE (bs.take k) = ofLE bs % 256 ^ k := by
  induction bs generalizing k with
  | nil => rw [take_nil, ofLE, Nat.zero_mod]
  | cons b bs ih =>
      rcases k with - | k
      · rw [take_zero, pow_zero, Nat.mod_one, ofLE]
      · have hb : b.toNat < 256 := b.toNat_lt
        rw [take_succ_cons, ofLE, ofLE, ih, pow_succ', Nat.mod_mul, Nat.add_mul_mod_self_left,
          Nat.mod_eq_of_lt hb, Nat.add_mul_div_left _ _ (by decide), Nat.div_eq_of_lt hb,
          Nat.zero_add]

theorem copyNumber_digits {p : Platform} {zeros : List UInt8}
    (hall : ∀ c ∈ digits, isHexDigit c = true)
    (hfits : hexNumber digits < p.word) :
    copyNumber p (packDigits (digitBytes digits) ++ zeros) digits.length =
      hexNumber digits := by
  have hlength : (packDigits (digitBytes digits)).length = (digits.length + 1) / 2 := by
    rw [length_packDigits, digitBytes, length_map, length_reverse]
  rw [copyNumber]
  split_ifs with hshort
  · rw [← hlength, take_left, ofLE_digitBytes hall]
  · rw [take_append_of_le_length (by omega), ofLE_take, ofLE_digitBytes hall]
    exact Nat.mod_eq_of_lt hfits

end Digits

section Values

variable {byte : UInt8} {value : List UInt8}

/-- The two digits of a byte, the low one first. -/
def byteDigits (byte : UInt8) : EfiString :=
  [mHexStr.getD (byte.toNat / 16) '0', mHexStr.getD (byte.toNat % 16) '0']

theorem unicodeValueToString_byte : unicodeValueToString byte.toNat 2 = byteDigits byte := by
  have hb : byte.toNat < 256 := byte.toNat_lt
  rw [unicodeValueToString, byteDigits]
  by_cases hsmall : byte.toNat / 16 = 0
  · rw [valueToString, if_pos hsmall, hsmall]
    rfl
  · have hhigh : byte.toNat / 16 % 16 = byte.toNat / 16 := Nat.mod_eq_of_lt (by omega)
    rw [valueToString, if_neg hsmall, valueToString, hhigh,
      if_pos (Nat.div_eq_of_lt (by omega))]
    rfl

theorem mHexStr_digit : ∀ n < 16, isHexDigit (mHexStr.getD n '0') = true ∧
    hexCharToUintn (mHexStr.getD n '0') = n := by decide

theorem valueStr_cons : valueStr (byte :: value) = valueStr value ++ byteDigits byte := by
  rw [valueStr, reverse_cons, flatMap_append, ← valueStr, flatMap_singleton,
    unicodeValueToString_byte]

theorem length_valueStr : (valueStr value).length = 2 * value.length := by
  induction value with
  | nil => rfl
  | cons byte value ih =>
      rw [valueStr_cons, length_append, ih, length_cons, byteDigits, length_cons,
        length_singleton]
      omega

theorem valueStr_digits : ∀ c ∈ valueStr value, isHexDigit c = true := by
  induction value with
  | nil => exact fun c hc => absurd hc not_mem_nil
  | cons byte value ih =>
      intro c hc
      have hb : byte.toNat < 256 := byte.toNat_lt
      rw [valueStr_cons] at hc
      rcases mem_append.mp hc with hrest | hbyte
      · exact ih c hrest
      · rcases mem_cons.mp hbyte with rfl | hlow
        · exact (mHexStr_digit _ (by omega)).1
        · rw [mem_singleton.mp hlow]
          exact (mHexStr_digit _ (by omega)).1

theorem packDigits_valueStr :
    packDigits (digitBytes ((valueStr value).map lowerDigit)) = value := by
  induction value with
  | nil => rfl
  | cons byte value ih =>
      have hb : byte.toNat < 256 := byte.toNat_lt
      obtain ⟨hdigit, hhigh⟩ := mHexStr_digit (byte.toNat / 16) (by omega)
      obtain ⟨hdigit', hlow⟩ := mHexStr_digit (byte.toNat % 16) (by omega)
      obtain ⟨hl, hl'⟩ := lowerDigit_digit hdigit
      obtain ⟨hr, hr'⟩ := lowerDigit_digit hdigit'
      have hleft := toNat_digitByte hl
      have hright := toNat_digitByte hr
      rw [hl', hhigh] at hleft
      rw [hr', hlow] at hright
      rw [valueStr_cons, map_append, digitBytes_append]
      simp only [byteDigits, map_cons, map_nil, digitBytes, reverse_cons,
        reverse_nil, nil_append, cons_append, packDigits]
      rw [← digitBytes, ih]
      congr 1
      apply UInt8.toNat_inj.mp
      rw [toNat_pack (by omega) (by omega), hleft, hright]
      omega

end Values

end Hii
end Udk
