import Udk.PartitionDxe.Gpt

/-!
# Reading what was stored

Fields of a header after a store, and headers that carry their own CRC.
-/

namespace Udk
namespace Gpt

open List

section Copy

variable {mem bs : Bytes} {offset offset' width width' value i : Nat}

theorem slice_copyMem_same
    (hroom : offset + bs.length ≤ mem.length) :
    slice (copyMem mem offset bs) offset bs.length = bs := by
  apply ext_getElem?
  intro i
  by_cases hi : i < bs.length
  · rw [slice, getElem?_take_of_lt hi, getElem?_drop, copyMem, overlay_getElem?,
      if_pos (by omega), getElem?_eq_getElem (by omega), Option.bind_some, Option.map_id',
      Nat.add_sub_cancel_left]
  · rw [getElem?_eq_none (by rw [slice_length]; omega), getElem?_eq_none (by omega)]

theorem slice_copyMem_apart
    (hapart : offset + width ≤ offset' ∨ offset' + bs.length ≤ offset) :
    slice (copyMem mem offset' bs) offset width = slice mem offset width := by
  apply ext_getElem?
  intro i
  by_cases hi : i < width
  · rw [slice, slice, getElem?_take_of_lt hi, getElem?_take_of_lt hi,
      getElem?_drop, getElem?_drop, copyMem, overlay_getElem?, if_neg (by omega)]
  · rw [getElem?_eq_none (by rw [slice_length]; omega),
      getElem?_eq_none (by rw [slice_length]; omega)]

theorem field_setField_same
    (hroom : offset + width ≤ mem.length) :
    field (setField mem offset width value) offset width = value % 256 ^ width := by
  have hslice : slice (setField mem offset width value) offset width = toLE width value := by
    have h : slice (copyMem mem offset (toLE width value)) offset (toLE width value).length =
        toLE width value := slice_copyMem_same (by rwa [toLE_length])
    rwa [toLE_length] at h
  rw [field, hslice, ofLE_toLE]

theorem field_setField_apart
    (hapart : offset + width ≤ offset' ∨ offset' + width' ≤ offset) :
    field (setField mem offset' width' value) offset width = field mem offset width := by
  rw [field, setField, slice_copyMem_apart (by rwa [toLE_length]), field]

@[simp] theorem length_setField : (setField mem offset width value).length = mem.length :=
  copyMem_length _ _ _

theorem toLE_ofLE : toLE bs.length (ofLE bs) = bs := by
  induction bs with
  | nil => rfl
  | cons b bs ih =>
      have hb : b.toNat < 256 := b.toNat_lt
      rw [length_cons, toLE, ofLE, Nat.add_mul_mod_self_left, Nat.mod_eq_of_lt hb,
        Nat.add_mul_div_left _ _ (by decide), Nat.div_eq_of_lt hb, Nat.zero_add, ih]
      congr 1
      exact UInt8.ofNat_toNat

theorem setField_setField
    (hroom : offset + width ≤ mem.length) :
    setField (setField mem offset width value) offset width (field mem offset width) = mem := by
  have hlength : (slice mem offset width).length = width := by rw [slice_length]; omega
  have hbytes : toLE width (field mem offset width) = slice mem offset width := by
    have h : toLE (slice mem offset width).length (ofLE (slice mem offset width)) = _ := toLE_ofLE
    rwa [hlength] at h
  apply ext_getElem?
  intro i
  rw [setField, hbytes, setField, copyMem, overlay_getElem?, copyMem, overlay_getElem?, hlength,
    toLE_length]
  by_cases hi : offset ≤ i ∧ i < offset + width
  · rw [if_pos hi, if_pos hi, getElem?_eq_getElem (by omega), Option.bind_some,
      Option.map_id', Option.map_id', getElem?_eq_getElem (by rw [toLE_length]; omega),
      Option.bind_some, slice,
      getElem?_take_of_lt (by omega), getElem?_drop, Nat.add_sub_cancel' hi.1,
      getElem?_eq_getElem (by omega)]
  · rw [if_neg hi, if_neg hi]

theorem setField_twice {value' : Nat} :
    setField (setField mem offset width value) offset width value' =
      setField mem offset width value' := by
  apply ext_getElem?
  intro i
  simp only [setField, copyMem, overlay_getElem?, toLE_length]
  by_cases hi : offset ≤ i ∧ i < offset + width
  · simp only [if_pos hi, Option.map_id']
    rw [getElem?_eq_getElem (show i - offset < (toLE width value).length by
      rw [toLE_length]; omega)]
    rcases mem[i]? with - | old
    · rfl
    · rfl
  · simp only [if_neg hi]

theorem field_take
    (hle : offset + width ≤ i) :
    field (mem.take i) offset width = field mem offset width := by
  rw [field, field, slice, slice, drop_take, take_take, Nat.min_eq_left (by omega)]

end Copy

section Crc

theorem reverseBits_lt {value : Nat} : reverseBits value < 2 ^ 32 := by
  have hall : ∀ (l : List Nat) (newValue : Nat), newValue < 2 ^ 32 →
      l.foldl (fun newValue index =>
        if value.testBit index then newValue ||| 1 <<< (31 - index) else newValue) newValue <
          2 ^ 32 := by
    intro l
    induction l with
    | nil => exact fun _ h => h
    | cons index l ih =>
        intro newValue hlt
        refine ih _ ?_
        simp only
        split_ifs with hbit
        · refine Nat.or_lt_two_pow hlt ?_
          rw [Nat.one_shiftLeft]
          exact Nat.pow_lt_pow_right (by decide) (by omega)
        · exact hlt
  exact hall _ 0 (by decide)

theorem calculateCrc32_lt {data : Bytes} {crc : Nat}
    (hcrc : calculateCrc32 data = some crc) :
    crc < 2 ^ 32 := by
  have hall : ∀ (l : Bytes) (crc : Nat), crc < 2 ^ 32 →
      l.foldl (fun crc byte => (crc >>> 8) ^^^ mCrcTable ((crc % 256) ^^^ byte.toNat)) crc <
        2 ^ 32 := by
    intro l
    induction l with
    | nil => exact fun _ h => h
    | cons byte l ih =>
        intro crc hlt
        refine ih _ (Nat.xor_lt_two_pow ?_ reverseBits_lt)
        exact lt_of_le_of_lt (Nat.shiftRight_le _ _) hlt
  rw [calculateCrc32] at hcrc
  split_ifs at hcrc
  obtain rfl := Option.some_inj.mp hcrc
  exact Nat.xor_lt_two_pow (hall _ _ (by decide)) (by decide)

variable {header : Bytes} {maxSize : Nat}

theorem partitionCheckCrc_eq
    (hlength : 20 ≤ header.length)
    (hpass : (partitionCheckCrc header maxSize).1 = true) :
    (partitionCheckCrc header maxSize).2 = header := by
  rw [partitionCheckCrc] at hpass ⊢
  simp only at hpass ⊢
  split_ifs at hpass ⊢ with hzero hlarge
  rcases hcrc : calculateCrc32 ((setField header 16 4 0).take (headerSize header)) with - | crc
  · rw [hcrc] at hpass
    cases hpass
  · simp only [hcrc, decide_eq_true_eq] at hpass ⊢
    rw [← hpass]
    exact setField_setField hlength

theorem partitionCheckCrc_set
    (hlength : 20 ≤ header.length)
    (hpos : headerSize header ≠ 0) (hmax : headerSize header ≤ maxSize) :
    (partitionCheckCrc (partitionSetCrc header) maxSize).1 = true := by
  have hcleared : headerSize (setField header 16 4 0) = headerSize header :=
    field_setField_apart (Or.inl (by decide))
  rcases hcrc : calculateCrc32 ((setField header 16 4 0).take (headerSize header)) with - | crc
  · rw [calculateCrc32] at hcrc
    split_ifs at hcrc with hnil
    have hlen := congrArg List.length hnil
    rw [length_take, length_setField, length_nil] at hlen
    omega
  have hset : partitionSetCrc header = setField header 16 4 crc := by
    rw [partitionSetCrc, hcleared, hcrc, setField_twice, Option.getD_some]
  have hsize : headerSize (setField header 16 4 crc) = headerSize header :=
    field_setField_apart (Or.inl (by decide))
  have hread : headerCrc32 (setField header 16 4 crc) = crc := by
    rw [headerCrc32, field_setField_same hlength]
    exact Nat.mod_eq_of_lt (calculateCrc32_lt hcrc)
  rw [hset, partitionCheckCrc]
  simp only [hsize, if_neg hpos, if_neg (not_and_of_not_right _ (not_lt.mpr hmax)),
    setField_twice, hcrc, hread, decide_true]

end Crc

end Gpt
end Udk
