import Mathlib.Data.List.Basic
import Mathlib.Tactic

/-!
# Byte strings, little-endian fields and overlay writes

A memory area is a list of bytes.  This module has the two operations on such
areas that the rest of the development uses:

* `field mem offset width` reads a little-endian unsigned integer;
* `overlay f mem offset bytes` replaces the cells from `offset` on, where `f`
  combines the old content of a cell with the byte written to it.  Ordinary
  memory takes the new byte, NOR flash takes the conjunction of both.

Bytes that would land outside the area are dropped, so `overlay` never changes
the length of an area.
-/

namespace Udk

open List

variable {mem : Bytes}

/-- Contents of a memory area. -/
abbrev Bytes := List UInt8

/-- The natural number with the given little-endian bytes. -/
def ofLE : Bytes → Nat
  | [] => 0
  | b :: bs => b.toNat + 256 * ofLE bs

/-- The `width` low bytes of a natural number, least significant first. -/
def toLE : Nat → Nat → Bytes
  | 0, _ => []
  | width + 1, n => UInt8.ofNat (n % 256) :: toLE width (n / 256)

@[simp] theorem toLE_length
    (width n : Nat) :
    (toLE width n).length = width := by
  induction width generalizing n with
  | zero => rfl
  | succ width ih => simp [toLE, ih]

/-- Reading back an encoded number keeps its low bytes. -/
theorem ofLE_toLE
    (width n : Nat) :
    ofLE (toLE width n) = n % 256 ^ width := by
  induction width generalizing n with
  | zero => simp [toLE, ofLE, Nat.mod_one]
  | succ width ih =>
      have hbyte : n % 256 % 2 ^ 8 = n % 256 :=
        Nat.mod_eq_of_lt (by have := Nat.mod_lt n (show 0 < 256 by decide); omega)
      rw [toLE, ofLE, ih, UInt8.toNat_ofNat', hbyte, pow_succ', Nat.mod_mul]

theorem ofLE_toLE_of_lt
    {width n : Nat}
    (h : n < 256 ^ width) :
    ofLE (toLE width n) = n := by
  rw [ofLE_toLE, Nat.mod_eq_of_lt h]

theorem ofLE_lt
    (bs : Bytes) :
    ofLE bs < 256 ^ bs.length := by
  induction bs with
  | nil => simp [ofLE]
  | cons b bs ih =>
      have hb : b.toNat < 256 := b.toNat_lt
      rw [ofLE, length_cons, pow_succ]
      omega

/-- Bytes are the encoding of the number they hold. -/
theorem toLE_ofLE
    (bs : Bytes) :
    toLE bs.length (ofLE bs) = bs := by
  induction bs with
  | nil => rfl
  | cons b bs ih =>
      have hb : b.toNat < 256 := b.toNat_lt
      have hmod : (b.toNat + 256 * ofLE bs) % 256 = b.toNat := by omega
      have hdiv : (b.toNat + 256 * ofLE bs) / 256 = ofLE bs := by omega
      rw [length_cons, ofLE, toLE, hmod, hdiv, ih, UInt8.ofNat_toNat]

/-- The bytes `[offset, offset + width)` of an area. -/
def slice (mem : Bytes) (offset width : Nat) : Bytes :=
  (mem.drop offset).take width

/-- The unsigned integer stored in `[offset, offset + width)`. -/
def field (mem : Bytes) (offset width : Nat) : Nat :=
  ofLE (slice mem offset width)

/-- A slice that ends inside a prefix is a slice of the prefix. -/
theorem slice_append_left
    {a : Bytes} (b : Bytes)
    {offset width : Nat}
    (h : offset + width ≤ a.length) :
    slice (a ++ b) offset width = slice a offset width := by
  unfold slice
  rw [drop_append_of_le_length (by omega)]
  exact take_append_of_le_length (by rw [length_drop]; omega)

theorem slice_append_right
    (a b : Bytes)
    (offset width : Nat) :
    slice (a ++ b) (a.length + offset) width = slice b offset width := by
  unfold slice
  rw [← drop_drop, drop_left]

theorem field_append_left
    {a : Bytes} (b : Bytes)
    {offset width : Nat}
    (h : offset + width ≤ a.length) :
    field (a ++ b) offset width = field a offset width := by
  rw [field, slice_append_left b h, field]

theorem field_lt
    (mem : Bytes) (offset width : Nat) :
    field mem offset width < 256 ^ width := by
  have hlt := ofLE_lt (slice mem offset width)
  have hle : (slice mem offset width).length ≤ width := by
    simp [slice]
  exact lt_of_lt_of_le hlt (Nat.pow_le_pow_right (by decide) hle)

/-- A field behind a prefix holds the number encoded there. -/
theorem field_at
    (a rest : Bytes) {offset width n : Nat}
    (ha : a.length = offset)
    (h : n < 256 ^ width) :
    field (a ++ (toLE width n ++ rest)) offset width = n := by
  subst ha
  have hslice := slice_append_right a (toLE width n ++ rest) 0 width
  rw [Nat.add_zero] at hslice
  rw [field, hslice, slice, drop_zero, take_left' (toLE_length width n),
    ofLE_toLE_of_lt h]

@[simp] theorem slice_length
    (mem : Bytes) (offset width : Nat) :
    (slice mem offset width).length = min width (mem.length - offset) := by
  simp [slice]

/-- A field is the encoding of the number it holds. -/
theorem toLE_field
    {offset width : Nat}
    (h : offset + width ≤ mem.length) :
    toLE width (field mem offset width) = slice mem offset width := by
  have hlen : (slice mem offset width).length = width := by
    rw [slice_length]
    omega
  have hle := toLE_ofLE (slice mem offset width)
  rwa [hlen] at hle

/-- Two slices, one behind the other. -/
theorem slice_append_slice
    (mem : Bytes) (offset a b : Nat) :
    slice mem offset a ++ slice mem (offset + a) b = slice mem offset (a + b) := by
  rw [slice, slice, slice, ← drop_drop, ← take_add]

/-- Changing a cell below a slice does not change the slice. -/
theorem slice_set_of_lt
    {i offset : Nat} (width : Nat) (b : UInt8)
    (h : i < offset) :
    slice (mem.set i b) offset width = slice mem offset width := by
  rw [slice, drop_set_of_lt h, slice]

/-- Changing a cell above a slice does not change the slice. -/
theorem slice_set_of_le
    {i offset width : Nat} (b : UInt8)
    (h : offset + width ≤ i) :
    slice (mem.set i b) offset width = slice mem offset width := by
  unfold slice
  rw [drop_set, if_neg (by omega), take_set_of_le (by omega)]

/-- Write `bs` over the cells from `offset` on, combining old and new bytes with `f`. -/
def overlay (f : UInt8 → UInt8 → UInt8) (mem : Bytes) (offset : Nat) (bs : Bytes) : Bytes :=
  mem.take offset ++ List.zipWith f (mem.drop offset) bs ++ mem.drop (offset + bs.length)

section Overlay

variable (f : UInt8 → UInt8 → UInt8)

@[simp] theorem overlay_nil
    (mem : Bytes) (offset : Nat) :
    overlay f mem offset [] = mem := by
  simp [overlay]

@[simp] theorem overlay_length
    (mem : Bytes) (offset : Nat) (bs : Bytes) :
    (overlay f mem offset bs).length = mem.length := by
  simp only [overlay, length_append, length_take, length_zipWith,
    length_drop]
  omega

/-- Writing inside the middle part of an area leaves both ends alone. -/
theorem overlay_append
    (a old c bs : Bytes)
    (offset : Nat)
    (h : offset + bs.length ≤ old.length) :
    overlay f (a ++ (old ++ c)) (a.length + offset) bs =
      a ++ (overlay f old offset bs ++ c) := by
  have htake : (a ++ (old ++ c)).take (a.length + offset) = a ++ old.take offset := by
    rw [take_length_add_append, take_append_of_le_length (by omega)]
  have hdrop : (a ++ (old ++ c)).drop (a.length + offset) = old.drop offset ++ c := by
    rw [← drop_drop, drop_left, drop_append_of_le_length (by omega)]
  have hrest : (a ++ (old ++ c)).drop (a.length + offset + bs.length) =
      old.drop (offset + bs.length) ++ c := by
    rw [Nat.add_assoc, ← drop_drop, drop_left,
      drop_append_of_le_length (by omega)]
  have hzip : List.zipWith f (old.drop offset ++ c) bs =
      List.zipWith f (old.drop offset) bs := by
    apply ext_getElem?
    intro i
    simp only [getElem?_zipWith, getElem?_append, length_drop]
    split_ifs with hi
    · rfl
    · have hbs : bs[i]? = none := getElem?_eq_none (by omega)
      simp [hbs]
  rw [overlay, htake, hdrop, hrest, hzip, overlay]
  simp only [append_assoc]

/-- A write that only touches cells after a prefix. -/
theorem overlay_append_right
    (a mem bs : Bytes)
    (offset : Nat) :
    overlay f (a ++ mem) (a.length + offset) bs = a ++ overlay f mem offset bs := by
  have htake : (a ++ mem).take (a.length + offset) = a ++ mem.take offset := by
    rw [take_length_add_append]
  have hdrop : (a ++ mem).drop (a.length + offset) = mem.drop offset := by
    rw [← drop_drop, drop_left]
  have hrest : (a ++ mem).drop (a.length + offset + bs.length) =
      mem.drop (offset + bs.length) := by
    rw [Nat.add_assoc, ← drop_drop, drop_left]
  rw [overlay, htake, hdrop, hrest, overlay]
  simp only [append_assoc]

/-- Writing one byte is an update of one cell. -/
theorem overlay_singleton
    (mem : Bytes) (offset : Nat) (b : UInt8) :
    overlay f mem offset [b] = mem.modify offset (fun old => f old b) := by
  rw [modify_eq_take_drop, overlay]
  cases h : mem.drop offset with
  | nil =>
      have hlen : mem.length ≤ offset := drop_eq_nil_iff.mp h
      simp [drop_eq_nil_of_le (show mem.length ≤ offset + 1 by omega)]
  | cons old rest =>
      have hrest : mem.drop (offset + 1) = rest := by
        rw [← drop_drop, h]; rfl
      simp [hrest]

/-- Contents of a cell after a write. -/
theorem overlay_getElem?
    (mem : Bytes) (offset : Nat) (bs : Bytes) (i : Nat) :
    (overlay f mem offset bs)[i]? =
      if offset ≤ i ∧ i < offset + bs.length then
        (mem[i]?).bind (fun old => (bs[i - offset]?).map (f old))
      else mem[i]? := by
  by_cases hoff : offset ≤ mem.length
  · rw [overlay, append_assoc]
    simp only [getElem?_append, length_take, Nat.min_eq_left hoff,
      length_zipWith, length_drop, getElem?_zipWith, getElem?_drop,
      getElem?_take]
    by_cases h1 : i < offset
    · simp [h1, show ¬ (offset ≤ i ∧ i < offset + bs.length) by omega]
    · have hi : offset + (i - offset) = i := by omega
      simp only [h1, if_false, hi]
      by_cases h2 : i < offset + bs.length
      · rw [if_pos (⟨by omega, h2⟩ : offset ≤ i ∧ i < offset + bs.length)]
        by_cases h3 : i < mem.length
        · rw [if_pos (by omega)]
          cases hm : mem[i]? with
          | none => simp
          | some old =>
              cases hb : bs[i - offset]? with
              | none => simp
              | some b => simp
        · rw [if_neg (by omega), getElem?_eq_none (by omega),
            getElem?_eq_none (show mem.length ≤ i by omega)]
          rfl
      · rw [if_neg (show ¬ (offset ≤ i ∧ i < offset + bs.length) by omega)]
        by_cases h3 : i < mem.length
        · rw [if_neg (by omega)]
          congr 1
          omega
        · rw [if_neg (by omega), getElem?_eq_none (by omega),
            getElem?_eq_none (show mem.length ≤ i by omega)]
  · have hnil : mem.drop offset = [] := drop_eq_nil_of_le (by omega)
    have hnil' : mem.drop (offset + bs.length) = [] := drop_eq_nil_of_le (by omega)
    have hall : mem.take offset = mem := take_of_length_le (by omega)
    have hself : overlay f mem offset bs = mem := by
      simp [overlay, hnil, hnil', hall]
    rw [hself]
    split_ifs with h
    · rw [getElem?_eq_none (show mem.length ≤ i by omega)]
      rfl
    · rfl

/-- A write does not reach the cells behind it. -/
theorem overlay_drop
    (mem : Bytes) {offset n : Nat} {bs : Bytes}
    (h : offset + bs.length ≤ n) :
    (overlay f mem offset bs).drop n = mem.drop n := by
  apply ext_getElem?
  intro i
  rw [getElem?_drop, getElem?_drop, overlay_getElem?, if_neg (by omega)]

/-- A write can be split into consecutive writes. -/
theorem overlay_overlay
    (mem : Bytes) (offset : Nat) (bs cs : Bytes) :
    overlay f (overlay f mem offset bs) (offset + bs.length) cs =
      overlay f mem offset (bs ++ cs) := by
  apply ext_getElem?
  intro i
  simp only [overlay_getElem?, length_append]
  by_cases h1 : offset ≤ i ∧ i < offset + bs.length
  · rw [if_neg (show ¬ (offset + bs.length ≤ i ∧ i < offset + bs.length + cs.length) by omega),
      if_pos h1, if_pos (show offset ≤ i ∧ i < offset + (bs.length + cs.length) by omega),
      getElem?_append_left (by omega)]
  · rw [if_neg h1]
    by_cases h2 : offset + bs.length ≤ i ∧ i < offset + bs.length + cs.length
    · rw [if_pos h2, if_pos (show offset ≤ i ∧ i < offset + (bs.length + cs.length) by omega),
        getElem?_append_right (by omega),
        show i - offset - bs.length = i - (offset + bs.length) by omega]
    · rw [if_neg h2, if_neg (show ¬ (offset ≤ i ∧ i < offset + (bs.length + cs.length)) by omega)]

end Overlay

/-- Ordinary memory keeps the byte written last. -/
def copyMem (mem : Bytes) (offset : Nat) (bs : Bytes) : Bytes :=
  overlay (fun _ new => new) mem offset bs

@[simp] theorem copyMem_length
    (mem : Bytes) (offset : Nat) (bs : Bytes) :
    (copyMem mem offset bs).length = mem.length :=
  overlay_length _ mem offset bs

theorem zipWith_new
    {old bs : Bytes}
    (h : bs.length ≤ old.length) :
    List.zipWith (fun _ new => new) old bs = bs := by
  induction bs generalizing old with
  | nil => simp
  | cons b bs ih =>
      cases old with
      | nil => simp at h
      | cons o old => simp [ih (by simpa using h)]

/-- A copy over the front of an area. -/
theorem copyMem_zero
    {mem bs : Bytes}
    (h : bs.length ≤ mem.length) :
    copyMem mem 0 bs = bs ++ mem.drop bs.length := by
  simp [copyMem, overlay, zipWith_new h]

end Udk
