import Udk.Fat.EntryBytes

/-!
# Setting an entry

What `FatSetFatEntry` leaves of the volume, and the table of slots that the entries stand for.
-/

namespace Udk
namespace Fat

open LinkedTable

variable {g : Geometry} {v v' : Volume g} {b i index value : Nat}

/-- The numbers of the clusters. -/
def IsCluster (g : Geometry) (i : Nat) : Prop :=
  fatMinCluster ≤ i ∧ i ≤ g.maxCluster + 1

instance : Decidable (IsCluster g i) :=
  inferInstanceAs (Decidable (_ ∧ _))

/-- The meaning of an entry. -/
def slotOf (value : Nat) : Slot Nat :=
  if value = fatClusterFree then .free
  else if fatEndOfFatChain value then .last
  else .link value

/-- The table in the FAT. -/
def slot (v : Volume g) (i : Nat) : Slot Nat :=
  slotOf (fatGetFatEntry v i)

/-- The volume after an entry has been set. -/
structure EntrySet (v v' : Volume g) (index value : Nat) : Prop where
  entry : ∀ i, IsCluster g i →
    fatGetFatEntry v' i = Function.update (fatGetFatEntry v) index value i
  freeInfoValid : v'.freeInfoValid = v.freeInfoValid
  clusterCount : v'.clusterCount = (v.account index value).clusterCount
  nextCluster : v'.nextCluster = (v.account index value).nextCluster

section Slots

theorem IsCluster.not_special
    (hi : IsCluster g i) :
    i ≠ fatClusterFree ∧ i < fatClusterSpecial := by
  have hfits := g.fits
  have hspecial : g.fatType.clusterSpecial ≤ 0x0FFFFFF7 := by
    cases g.fatType with
    | fat12 | fat16 | fat32 => decide
  obtain ⟨hlow, hhigh⟩ := hi
  simp only [fatMinCluster] at hlow
  simp only [fatClusterFree, fatClusterSpecial]
  omega

theorem IsCluster.not_end
    (hi : IsCluster g i) :
    ¬ fatEndOfFatChain i :=
  not_lt_of_gt hi.not_special.2

theorem IsCluster.lt_two_pow
    (hi : IsCluster g i) :
    i < 2 ^ 28 := by
  have hfits := g.fits
  have hspecial : g.fatType.clusterSpecial ≤ 0x0FFFFFF7 := by
    cases g.fatType with
    | fat12 | fat16 | fat32 => decide
  have hhigh := hi.2
  omega

theorem slotOf_cluster
    (hi : IsCluster g i) :
    slotOf i = .link i := by
  rw [slotOf, if_neg hi.not_special.1, if_neg hi.not_end]

theorem slotOf_last : slotOf fatClusterLast = .last :=
  rfl

theorem slot_eq_free : slot v i = .free ↔ fatGetFatEntry v i = fatClusterFree := by
  rw [slot, slotOf]
  split
  next hfree => simp only [hfree]
  next hfree =>
    simp only [hfree, iff_false]
    split
    · exact nofun
    · exact nofun

theorem slot_eq_last
    (hlast : slot v i = .last) :
    fatEndOfFatChain (fatGetFatEntry v i) := by
  rw [slot, slotOf] at hlast
  split at hlast
  · cases hlast
  · split at hlast
    · assumption
    · cases hlast

theorem slot_eq_link
    {b : Nat}
    (hlink : slot v i = .link b) :
    fatGetFatEntry v i = b := by
  rw [slot, slotOf] at hlink
  split at hlink
  · cases hlink
  · split at hlink
    · cases hlink
    · injection hlink

theorem IsCluster.entryValue
    (hi : IsCluster g i) :
    EntryValue g i :=
  Or.inl hi.2

theorem free_value : EntryValue g fatClusterFree :=
  Or.inl (Nat.zero_le _)

theorem last_value : EntryValue g fatClusterLast :=
  Or.inr rfl

end Slots

section Setting

/-- The dirty bit is set now. -/
def Volume.Dirtied (v : Volume g) : Prop :=
  ¬ v.fatDirty ∧ g.fatType ≠ .fat12

instance : Decidable v.Dirtied :=
  inferInstanceAs (Decidable (_ ∧ _))

/-- The bits that change when it is set. -/
def Volume.DirtyBit (v : Volume g) (b : Nat) : Prop :=
  v.Dirtied ∧ 8 * g.fatType.entrySize ≤ b ∧ b < 16 * g.fatType.entrySize

theorem setDirty_bit
    (hb : ¬ v.DirtyBit b) :
    bitAt v.setDirty.fat b = bitAt v.fat b := by
  rw [Volume.setDirty]
  split
  next hdirty =>
    have hpos : g.fatType.entrySize = g.fatType.entryPos 1 := by
      cases hfat : g.fatType with
      | fat12 => exact absurd hfat hdirty.2
      | fat16 | fat32 => rfl
    have hout : ¬ (8 * g.fatType.entryPos 1 ≤ b ∧
        b < 8 * (g.fatType.entryPos 1 + g.fatType.entrySize)) := by
      rw [← hpos]
      exact fun hin => hb ⟨hdirty, hin.1, by omega⟩
    rw [hpos, write_testBit (Nat.succ_le_succ (Nat.zero_le _)), if_neg hout]
  · rfl

theorem dirty_apart
    (hi : ¬ (v.Dirtied ∧ i = 1))
    (hlow : 8 * g.fatType.entryPos i ≤ b)
    (hhigh : b < 8 * (g.fatType.entryPos i + g.fatType.entrySize)) :
    ¬ v.DirtyBit b := by
  rintro ⟨hdirty, hle, hlt⟩
  have hne : i ≠ 1 := fun heq => hi ⟨hdirty, heq⟩
  cases hfat : g.fatType with
  | fat12 => exact hdirty.2 hfat
  | fat16 | fat32 =>
      simp only [hfat, FatType.entrySize, FatType.entryPos] at hlow hhigh hle hlt
      omega

theorem setDirty_load
    (hi : i ≤ g.maxCluster + 1)
    (hne : ¬ (v.Dirtied ∧ i = 1)) :
    fatLoadFatEntry v.setDirty i = fatLoadFatEntry v i :=
  load_congr hi fun k hk => setDirty_bit (dirty_apart hne (by omega) (by omega))

theorem setDirty_info :
    v.setDirty.freeInfoValid = v.freeInfoValid ∧ v.setDirty.clusterCount = v.clusterCount ∧
      v.setDirty.nextCluster = v.nextCluster := by
  rw [Volume.setDirty]
  split
  · exact ⟨rfl, rfl, rfl⟩
  · exact ⟨rfl, rfl, rfl⟩

theorem account_fat :
    (v.account index value).fat = v.fat ∧
      (v.account index value).freeInfoValid = v.freeInfoValid := by
  rw [Volume.account]
  split
  · exact ⟨rfl, rfl⟩
  · split
    · exact ⟨rfl, rfl⟩
    · exact ⟨rfl, rfl⟩

theorem load_lt
    (v : Volume g) :
    fatLoadFatEntry v index < 256 ^ g.fatType.entrySize :=
  field_lt ..

theorem account_dirtied : (v.account index value).Dirtied ↔ v.Dirtied := by
  rw [Volume.Dirtied, Volume.Dirtied, Volume.account]
  split
  · exact Iff.rfl
  · split
    · exact Iff.rfl
    · exact Iff.rfl

theorem account_load
    (hi : i ≤ g.maxCluster + 1)
    (hne : ¬ (v.Dirtied ∧ i = 1)) :
    fatLoadFatEntry (v.account index value).setDirty i = fatLoadFatEntry v i := by
  rw [setDirty_load hi (fun h => hne ⟨account_dirtied.mp h.1, h.2⟩), fatLoadFatEntry,
    account_fat.1, fatLoadFatEntry]

theorem IsCluster.not_dirty
    (hi : IsCluster g i) :
    ¬ (v.Dirtied ∧ i = 1) := by
  rintro ⟨-, rfl⟩
  exact absurd hi.1 (by decide)

/-- What an entry holds of a value that is written. -/
theorem write_entry
    (hindex : IsCluster g index)
    (hi : IsCluster g i) :
    fatGetFatEntry ((v.account index value).setDirty.write (g.fatType.entryPos index)
        (g.fatType.encode index (fatLoadFatEntry v index) value)) i =
      Function.update (fatGetFatEntry v) index
        (extendSpecial g.fatType.clusterSpecial (value % 2 ^ g.fatType.entryBits)) i := by
  rw [fatGetFatEntry, if_neg (Nat.not_lt.mpr hi.2)]
  by_cases hne : i = index
  · rw [hne, Function.update_self, load_write_self hindex.2]
    exact decode_encode (load_lt v)
  · have hload := @account_load g v i index value hi.2 hi.not_dirty
    have hown := @account_load g v index index value hindex.2 hindex.not_dirty
    rw [Function.update_of_ne hne, fatGetFatEntry, if_neg (Nat.not_lt.mpr hi.2), ← hload, ← hown]
    generalize (v.account index value).setDirty = w
    exact decode_congr hi.2 fun b hb => write_own hindex.2 (own_apart hb hne)

theorem fatSetFatEntry_of_cluster
    (hindex : IsCluster g index) :
    fatSetFatEntry v index value =
      some ((v.account index value).setDirty.write (g.fatType.entryPos index)
        (g.fatType.encode index (fatLoadFatEntry v index) value)) := by
  rw [fatSetFatEntry, if_neg (Nat.not_lt.mpr hindex.1), if_neg (Nat.not_lt.mpr hindex.2)]

theorem fatSetFatEntry_spec
    (hindex : IsCluster g index)
    (hvalue : EntryValue g value) :
    ∃ v', fatSetFatEntry v index value = some v' ∧ EntrySet v v' index value := by
  refine ⟨_, fatSetFatEntry_of_cluster hindex, fun i hi => ?_, setDirty_info.1.trans account_fat.2,
    setDirty_info.2.1, setDirty_info.2.2⟩
  rw [write_entry hindex hi, hvalue.extend]

variable (hset : EntrySet v v' index value)
include hset

theorem EntrySet.slot
    (hi : IsCluster g i) :
    slot v' i = Function.update (slot v) index (slotOf value) i := by
  rw [Fat.slot, hset.entry i hi]
  by_cases hne : i = index
  · rw [hne, Function.update_self, Function.update_self]
  · rw [Function.update_of_ne hne, Function.update_of_ne hne, Fat.slot]

theorem EntrySet.info_of_used
    (hvalue : value ≠ fatClusterFree)
    (hused : fatGetFatEntry v index ≠ fatClusterFree) :
    v'.clusterCount = v.clusterCount ∧ v'.nextCluster = v.nextCluster := by
  rw [hset.clusterCount, hset.nextCluster, Volume.account]
  simp only [hvalue, hused, false_and, and_false, if_false, and_self]

theorem EntrySet.info_of_free
    (hvalue : value ≠ fatClusterFree)
    (hfree : fatGetFatEntry v index = fatClusterFree) :
    v'.clusterCount = v.clusterCount - 1 ∧ v'.nextCluster = v.nextCluster := by
  rw [hset.clusterCount, hset.nextCluster, Volume.account]
  simp only [hvalue, hfree, false_and, if_false, ne_eq, not_false_eq_true, and_self, if_true]

theorem EntrySet.next_le
    (hindex : IsCluster g index)
    (hnext : fatMinCluster ≤ v.nextCluster) :
    fatMinCluster ≤ v'.nextCluster := by
  rw [hset.nextCluster, Volume.account]
  split
  · dsimp only
    split
    · exact hindex.1
    · exact hnext
  · split
    · exact hnext
    · exact hnext

end Setting

end Fat
end Udk
