import Udk.Fat.FatEntry
import Udk.LinkedTable

/-!
# Entries and bytes

Writing one entry leaves the other entries, although two FAT12 entries share a byte; and what
`FatSetFatEntry` writes `FatGetFatEntry` reads.
-/

namespace Udk
namespace Fat

variable {g : Geometry} {v v' : Volume g} {mem bs : Bytes} {p q b k width x index value : Nat}

section Bits

/-- The byte at a position. -/
def byteAt (mem : Bytes) (p : Nat) : Nat :=
  (mem[p]?.getD 0).toNat

/-- The bit at a position, counted from the lowest one of the first byte. -/
def bitAt (mem : Bytes) (b : Nat) : Bool :=
  (byteAt mem (b / 8)).testBit (b % 8)

theorem byteAt_toLE
    (hq : q < width) :
    byteAt (toLE width x) q = x / 256 ^ q % 256 := by
  induction width generalizing q x with
  | zero => omega
  | succ width ih =>
      cases q with
      | zero =>
          rw [byteAt, toLE, List.getElem?_cons_zero, Option.getD_some, UInt8.toNat_ofNat',
            pow_zero, Nat.div_one]
          omega
      | succ q =>
          have hrest := ih (q := q) (x := x / 256) (by omega)
          rw [byteAt] at hrest ⊢
          rw [toLE, List.getElem?_cons_succ, hrest, Nat.div_div_eq_div_mul, pow_succ, Nat.mul_comm]

theorem bitAt_toLE
    (hb : b < 8 * width) :
    bitAt (toLE width x) b = x.testBit b := by
  have hpow : 256 ^ (b / 8) = 2 ^ (8 * (b / 8)) := by
    rw [pow_mul]
    rfl
  rw [bitAt, byteAt_toLE (by omega), hpow, show 256 = 2 ^ 8 by rfl, Nat.testBit_mod_two_pow,
    Nat.testBit_div_two_pow, decide_eq_true (by omega), Bool.true_and, Nat.mod_add_div]

theorem field_testBit
    (hp : p + width ≤ mem.length) :
    (field mem p width).testBit k = (decide (k < 8 * width) && bitAt mem (8 * p + k)) := by
  by_cases hk : k < 8 * width
  · rw [← bitAt_toLE hk, toLE_field hp, decide_eq_true hk, Bool.true_and, bitAt, bitAt, byteAt,
      byteAt, slice, List.getElem?_take_of_lt (by omega), List.getElem?_drop,
      Nat.mul_add_mod, Nat.mul_add_div (by decide)]
  · have hlt := field_lt mem p width
    rw [show 256 = 2 ^ 8 by rfl, ← pow_mul] at hlt
    rw [Nat.testBit_lt_two_pow (hlt.trans_le (Nat.pow_le_pow_right (by decide) (by omega))),
      decide_eq_false hk, Bool.false_and]

theorem bitAt_copyMem
    (hp : p + width ≤ mem.length) :
    bitAt (copyMem mem p (toLE width x)) b =
      if 8 * p ≤ b ∧ b < 8 * (p + width) then x.testBit (b - 8 * p) else bitAt mem b := by
  rw [bitAt, byteAt, copyMem, overlay_getElem?, toLE_length]
  split
  next hin =>
    have hbit := bitAt_toLE (x := x) (show b - 8 * p < 8 * width by omega)
    rw [bitAt, byteAt, show (b - 8 * p) / 8 = b / 8 - p by omega,
      show (b - 8 * p) % 8 = b % 8 by omega] at hbit
    rw [if_pos (by omega), List.getElem?_eq_getElem (by omega), Option.bind_some, ← hbit]
    cases hget : (toLE width x)[b / 8 - p]? with
    | none =>
        rw [List.getElem?_eq_none_iff, toLE_length] at hget
        omega
    | some byte => rfl
  next hout => rw [if_neg (by omega), bitAt, byteAt]

end Bits

section Entries

variable {fatType : FatType}

/-- The bits of an entry among those of the FAT. -/
def FatType.Own (fatType : FatType) (index b : Nat) : Prop :=
  match fatType with
  | .fat12 => 12 * index ≤ b ∧ b < 12 * index + 12
  | .fat16 => 16 * index ≤ b ∧ b < 16 * index + 16
  | .fat32 => 32 * index ≤ b ∧ b < 32 * index + 28

theorem own_apart
    {i j : Nat}
    (hb : fatType.Own i b)
    (hne : i ≠ j) :
    ¬ fatType.Own j b := by
  cases fatType with
  | fat12 | fat16 | fat32 =>
      simp only [FatType.Own] at hb ⊢
      omega

theorem entry_room
    (v : Volume g)
    (hindex : index ≤ g.maxCluster + 1) :
    g.fatType.entryPos index + g.fatType.entrySize ≤ v.fat.length := by
  have hroom := g.room
  rw [v.fat_length]
  refine le_trans (Nat.add_le_add_right ?_ _) hroom
  cases g.fatType with
  | fat12 => exact Nat.div_le_div_right (Nat.mul_le_mul_right 3 hindex)
  | fat16 => exact Nat.mul_le_mul_right 2 hindex
  | fat32 => exact Nat.mul_le_mul_right 4 hindex

theorem load_testBit
    (v : Volume g)
    (hindex : index ≤ g.maxCluster + 1) :
    (fatLoadFatEntry v index).testBit k = (decide (k < 8 * g.fatType.entrySize) &&
      bitAt v.fat (8 * g.fatType.entryPos index + k)) :=
  field_testBit (entry_room v hindex)

theorem write_testBit
    (hindex : index ≤ g.maxCluster + 1) :
    bitAt (v.write (g.fatType.entryPos index) x).fat b =
      if 8 * g.fatType.entryPos index ≤ b ∧
        b < 8 * (g.fatType.entryPos index + g.fatType.entrySize) then
        x.testBit (b - 8 * g.fatType.entryPos index)
      else bitAt v.fat b :=
  bitAt_copyMem (entry_room v hindex)

theorem load_write_self
    (hindex : index ≤ g.maxCluster + 1) :
    fatLoadFatEntry (v.write (g.fatType.entryPos index) x) index =
      x % 256 ^ g.fatType.entrySize := by
  refine Nat.eq_of_testBit_eq fun k => ?_
  rw [load_testBit _ hindex, write_testBit hindex, show 256 = 2 ^ 8 by rfl, ← pow_mul,
    Nat.testBit_mod_two_pow]
  by_cases hk : k < 8 * g.fatType.entrySize
  · rw [if_pos (by omega), Nat.add_sub_cancel_left]
  · rw [decide_eq_false hk, Bool.false_and, Bool.false_and]

theorem load_congr
    (hindex : index ≤ g.maxCluster + 1)
    (hsame : ∀ k < 8 * g.fatType.entrySize,
      bitAt v'.fat (8 * g.fatType.entryPos index + k) =
        bitAt v.fat (8 * g.fatType.entryPos index + k)) :
    fatLoadFatEntry v' index = fatLoadFatEntry v index := by
  refine Nat.eq_of_testBit_eq fun k => ?_
  rw [load_testBit v' hindex, load_testBit v hindex]
  by_cases hk : k < 8 * g.fatType.entrySize
  · rw [hsame k hk]
  · rw [decide_eq_false hk, Bool.false_and, Bool.false_and]

/-- An entry is what its own bits say. -/
theorem decode_congr
    (hindex : index ≤ g.maxCluster + 1)
    (hsame : ∀ b, g.fatType.Own index b → bitAt v'.fat b = bitAt v.fat b) :
    g.fatType.decode index (fatLoadFatEntry v' index) =
      g.fatType.decode index (fatLoadFatEntry v index) := by
  have hbit : ∀ k, g.fatType.Own index (8 * g.fatType.entryPos index + k) →
      (fatLoadFatEntry v' index).testBit k = (fatLoadFatEntry v index).testBit k := by
    intro k hk
    rw [load_testBit v' hindex, load_testBit v hindex, hsame _ hk]
  have hhigh : ∀ (w : Volume g) k, 8 * g.fatType.entrySize ≤ k →
      (fatLoadFatEntry w index).testBit k = false := by
    intro w k hk
    rw [load_testBit w hindex, decide_eq_false (Nat.not_lt.mpr hk), Bool.false_and]
  cases hfat : g.fatType with
  | fat12 =>
      simp only [hfat, FatType.Own, FatType.entryPos, FatType.entrySize] at hbit hhigh
      simp only [FatType.decode]
      congr 1
      split
      · refine Nat.eq_of_testBit_eq fun k => ?_
        rw [show 16 = 2 ^ 4 by rfl, Nat.testBit_div_two_pow, Nat.testBit_div_two_pow]
        by_cases hk : k < 12
        · exact hbit _ (by omega)
        · rw [hhigh v' _ (by omega), hhigh v _ (by omega)]
      · refine Nat.eq_of_testBit_eq fun k => ?_
        rw [Nat.testBit_mod_two_pow, Nat.testBit_mod_two_pow]
        by_cases hk : k < 12
        · rw [hbit k (by omega)]
        · rw [decide_eq_false hk, Bool.false_and, Bool.false_and]
  | fat16 =>
      simp only [hfat, FatType.Own, FatType.entryPos, FatType.entrySize] at hbit hhigh
      simp only [FatType.decode]
      congr 1
      refine Nat.eq_of_testBit_eq fun k => ?_
      by_cases hk : k < 16
      · exact hbit k (by omega)
      · rw [hhigh v' k (by omega), hhigh v k (by omega)]
  | fat32 =>
      simp only [hfat, FatType.Own, FatType.entryPos] at hbit
      simp only [FatType.decode]
      congr 1
      refine Nat.eq_of_testBit_eq fun k => ?_
      rw [Nat.testBit_mod_two_pow, Nat.testBit_mod_two_pow]
      by_cases hk : k < 28
      · rw [hbit k (by omega)]
      · rw [decide_eq_false hk, Bool.false_and, Bool.false_and]

theorem encode_lt
    (hload : x < 256 ^ g.fatType.entrySize) :
    g.fatType.encode index x value < 256 ^ g.fatType.entrySize := by
  cases hfat : g.fatType with
  | fat12 =>
      rw [hfat] at hload
      simp only [FatType.entrySize, FatType.encode] at hload ⊢
      split
      · omega
      · omega
  | fat16 =>
      simp only [FatType.entrySize, FatType.encode]
      omega
  | fat32 =>
      rw [hfat] at hload
      simp only [FatType.entrySize, FatType.encode] at hload ⊢
      omega

theorem encode_testBit
    (hk : k < 8 * fatType.entrySize)
    (hout : ¬ fatType.Own index (8 * fatType.entryPos index + k)) :
    (fatType.encode index x value).testBit k = x.testBit k := by
  cases fatType with
  | fat12 =>
      simp only [FatType.entrySize, FatType.Own, FatType.entryPos] at hk hout
      simp only [FatType.encode]
      split
      · rw [Nat.mul_comm, show 16 = 2 ^ 4 by rfl,
          Nat.testBit_two_pow_mul_add _ (Nat.mod_lt _ (by decide)), if_pos (by omega),
          Nat.testBit_mod_two_pow, decide_eq_true (by omega), Bool.true_and]
      · rw [Nat.add_comm, Nat.mul_comm,
          Nat.testBit_two_pow_mul_add _ (Nat.mod_lt _ (by decide)), if_neg (by omega),
          Nat.testBit_div_two_pow, Nat.sub_add_cancel (by omega)]
  | fat16 =>
      simp only [FatType.entrySize, FatType.Own, FatType.entryPos] at hk hout
      omega
  | fat32 =>
      simp only [FatType.entrySize, FatType.Own, FatType.entryPos] at hk hout
      simp only [FatType.encode]
      rw [Nat.mul_comm, Nat.testBit_two_pow_mul_add _ (Nat.mod_lt _ (by decide)),
        if_neg (by omega), Nat.testBit_div_two_pow, Nat.sub_add_cancel (by omega)]

/-- Writing an entry leaves the bits of the others, also in a byte that they share. -/
theorem write_own
    (hindex : index ≤ g.maxCluster + 1)
    (hout : ¬ g.fatType.Own index b) :
    bitAt (v.write (g.fatType.entryPos index)
      (g.fatType.encode index (fatLoadFatEntry v index) value)).fat b = bitAt v.fat b := by
  rw [write_testBit hindex]
  split
  next hin =>
    obtain ⟨k, rfl⟩ := Nat.exists_eq_add_of_le hin.1
    have hk : k < 8 * g.fatType.entrySize := by omega
    rw [Nat.add_sub_cancel_left, encode_testBit hk hout, load_testBit v hindex, decide_eq_true hk,
      Bool.true_and]
  next => rfl

/-- The number of bits in an entry. -/
def FatType.entryBits : FatType → Nat
  | .fat12 => 12
  | .fat16 => 16
  | .fat32 => 28

/-- A value that is written is read, as far as it fits. -/
theorem decode_encode
    (hload : x < 256 ^ g.fatType.entrySize) :
    g.fatType.decode index (g.fatType.encode index x value % 256 ^ g.fatType.entrySize) =
      extendSpecial g.fatType.clusterSpecial (value % 2 ^ g.fatType.entryBits) := by
  rw [Nat.mod_eq_of_lt (encode_lt hload)]
  cases hfat : g.fatType with
  | fat12 =>
      simp only [FatType.encode, FatType.decode, FatType.clusterSpecial, FatType.entryBits]
      congr 1
      split
      · omega
      · omega
  | fat16 => rfl
  | fat32 =>
      simp only [FatType.encode, FatType.decode, FatType.clusterSpecial, FatType.entryBits]
      congr 1
      omega

/-- A value that an entry can hold. -/
def EntryValue (g : Geometry) (value : Nat) : Prop :=
  value ≤ g.maxCluster + 1 ∨ value = fatClusterLast

theorem EntryValue.extend
    (hvalue : EntryValue g value) :
    extendSpecial g.fatType.clusterSpecial (value % 2 ^ g.fatType.entryBits) = value := by
  have hfits := g.fits
  rcases hvalue with hvalue | rfl
  · have hlt : value < g.fatType.clusterSpecial := hvalue.trans_lt hfits
    have hbits : g.fatType.clusterSpecial < 2 ^ g.fatType.entryBits := by
      cases g.fatType with
      | fat12 | fat16 | fat32 => decide
    rw [Nat.mod_eq_of_lt (hlt.trans hbits), extendSpecial, if_neg (Nat.not_le.mpr hlt)]
  · cases g.fatType with
    | fat12 | fat16 | fat32 => decide

end Entries

end Fat
end Udk
