import Udk.Fat.SpaceRun

/-!
# Accesses to single entries

Setting an entry changes its own bits only, at every index; except behind the last cluster, where
the fake entry of `FatLoadFatEntry` is written to the entry that was loaded before.
-/

namespace Udk
namespace Fat

variable {g : Geometry} {v v' : Volume g} {a b i index new value : Nat}

/-- A volume of which an entry has been loaded. -/
structure FatState (g : Geometry) where
  volume : Volume g
  /-- The entry at `FatEntryPos`. -/
  loaded : Nat
  loaded_le : loaded ≤ g.maxCluster + 1

/-- `FatLoadFatEntry`: the bytes of the entry, all ones behind the last cluster. -/
def FatState.load (s : FatState g) (index : Nat) : Nat × FatState g :=
  if hindex : index ≤ g.maxCluster + 1 then
    (fatLoadFatEntry s.volume index, { s with loaded := index, loaded_le := hindex })
  else (256 ^ g.fatType.entrySize - 1, s)

/-- `FatSetFatEntry` for every index. -/
def FatState.set (s : FatState g) (index value : Nat) : FatState g :=
  if index < fatMinCluster then s
  else
    { (s.load index).2 with
      volume := (s.volume.account index value).setDirty.write
        (g.fatType.entryPos (s.load index).2.loaded)
        (g.fatType.encode index (s.load index).1 value) }

/-- Reserved values are extended to the internal special range. -/
def FatType.extended (fatType : FatType) (value : Nat) : Nat :=
  if value < 2 ^ fatType.entryBits then extendSpecial fatType.clusterSpecial value else value

/-- The values that an entry can hold, special ones also in their internal form. -/
def FatType.Holds (fatType : FatType) (value : Nat) : Prop :=
  value < 2 ^ fatType.entryBits ∨ fatClusterSpecial ≤ value ∧ value < 2 ^ 64

/-- The bits that the entry of a cluster has. -/
def OwnBit (g : Geometry) (index b : Nat) : Prop :=
  IsCluster g index ∧ g.fatType.Own index b

/-- The cluster count is the number of free entries. -/
def Counted (v : Volume g) : Prop :=
  v.freeInfoValid → v.clusterCount = (freeClusters v).length

/-- Only the entry at the index has changed. -/
structure EntryExact (v v' : Volume g) (index value : Nat) : Prop where
  entry : IsCluster g index → fatGetFatEntry v' index = g.fatType.extended value
  others : ∀ i, i ≠ index → ¬ (v.Dirtied ∧ i = 1) → fatGetFatEntry v' i = fatGetFatEntry v i
  bits : ∀ b, ¬ OwnBit g index b → ¬ v.DirtyBit b → bitAt v'.fat b = bitAt v.fat b
  count : Counted v → Counted v'

/-- When setting an entry is exact: behind the last cluster the entry that was loaded before must
hold what is written there, and an entry must not count as free that was none. -/
def ExactWhen (s : FatState g) (index value : Nat) : Prop :=
  index < fatMinCluster ∨ IsCluster g index ∧ g.fatType.Holds value ∨
    g.maxCluster + 1 < index ∧
      (s.volume.Dirtied ∧ s.loaded = 1 ∨ fatLoadFatEntry s.volume s.loaded =
        g.fatType.encode index (256 ^ g.fatType.entrySize - 1) value) ∧
      ¬ (value = fatClusterFree ∧ s.volume.freeInfoValid ∧ Counted s.volume)

section Values

theorem extended_iff
    {fatType : FatType} :
    extendSpecial fatType.clusterSpecial (value % 2 ^ fatType.entryBits) =
      fatType.extended value ↔ fatType.Holds value := by
  rw [FatType.extended, FatType.Holds]
  by_cases hlt : value < 2 ^ fatType.entryBits
  · rw [if_pos hlt, Nat.mod_eq_of_lt hlt]
    simp only [hlt, true_or]
  · rw [if_neg hlt, extendSpecial]
    by_cases hspecial : fatType.clusterSpecial ≤ value % 2 ^ fatType.entryBits
    · rw [if_pos hspecial]
      cases fatType with
      | fat12 | fat16 | fat32 =>
          simp only [FatType.entryBits, FatType.clusterSpecial, fatClusterSpecial] at hlt hspecial ⊢
          omega
    · rw [if_neg hspecial]
      cases fatType with
      | fat12 | fat16 | fat32 =>
          simp only [FatType.entryBits, FatType.clusterSpecial, fatClusterSpecial] at hlt hspecial ⊢
          omega

theorem extended_free
    {fatType : FatType} :
    fatType.extended value = fatClusterFree ↔ value = fatClusterFree := by
  rw [FatType.extended, extendSpecial]
  by_cases hspecial : fatType.clusterSpecial ≤ value
  · have hpos : 0 < fatType.clusterSpecial := by
      cases fatType with
      | fat12 | fat16 | fat32 => decide
    rw [if_pos hspecial, fatClusterFree]
    split
    · omega
    · exact Iff.rfl
  · rw [if_neg hspecial, ite_self]

end Values

section Counting

theorem freeClusters_congr
    (hentry : ∀ i, IsCluster g i → fatGetFatEntry v' i = fatGetFatEntry v i) :
    freeClusters v' = freeClusters v :=
  List.filter_congr fun i hi => by rw [hentry i (cluster_of_mem hi)]

theorem freeClusters_erase
    (ha : a ∈ freeClusters v) :
    ((freeClusters v).filter (· ≠ a)).length + 1 = (freeClusters v).length := by
  have hnodup : (freeClusters v).Nodup := freeClusters_sorted.imp Nat.ne_of_lt
  have hfilter : (freeClusters v).filter (· ≠ a) = (freeClusters v).erase a := by
    rw [hnodup.erase_eq_filter]
    exact List.filter_congr fun i _ => by rw [decide_not, bne, beq_eq_decide]
  have hpos := List.length_pos_of_mem ha
  rw [hfilter, List.length_erase_of_mem ha]
  omega

theorem account_count
    (hindex : IsCluster g index)
    (hentry : ∀ i, IsCluster g i →
      fatGetFatEntry v' i = Function.update (fatGetFatEntry v) index new i)
    (hnew : new = fatClusterFree ↔ value = fatClusterFree)
    (hcount : v.clusterCount = (freeClusters v).length) :
    (v.account index value).clusterCount = (freeClusters v').length := by
  have hold := @mem_freeClusters g v index
  have hat : fatGetFatEntry v' index = new := by
    rw [hentry index hindex, Function.update_self]
  have hsame : ∀ i, IsCluster g i → i ≠ index → fatGetFatEntry v' i = fatGetFatEntry v i := by
    intro i hi hne
    rw [hentry i hi, Function.update_of_ne hne]
  rw [Volume.account]
  by_cases hfree : fatGetFatEntry v index = fatClusterFree
  · by_cases hvalue : value = fatClusterFree
    · have hset : freeClusters v' = freeClusters v := freeClusters_congr fun i hi => by
        by_cases hne : i = index
        · rw [hne, hat, hfree, hnew.mpr hvalue]
        · exact hsame i hi hne
      simp only [hvalue, hfree, ne_eq, not_true_eq_false, and_false, false_and, if_false, hset,
        hcount]
    · have hset := freeClusters_set hentry (fun h => hvalue (hnew.mp h))
      have herase := freeClusters_erase (hold.mpr ⟨hindex, hfree⟩)
      simp only [hvalue, hfree, false_and, if_false, ne_eq, not_false_eq_true, and_self, if_true]
      rw [hset]
      omega
  · by_cases hvalue : value = fatClusterFree
    · have hback : ∀ i, IsCluster g i → fatGetFatEntry v i =
          Function.update (fatGetFatEntry v') index (fatGetFatEntry v index) i := by
        intro i hi
        by_cases hne : i = index
        · rw [hne, Function.update_self]
        · rw [Function.update_of_ne hne, hsame i hi hne]
      have hset := freeClusters_set hback hfree
      have herase := freeClusters_erase
        (mem_freeClusters.mpr ⟨hindex, hat.trans (hnew.mpr hvalue)⟩)
      have hlength := @freeClusters_length g v'
      have hmax := maxCluster_lt g
      simp only [hvalue, hfree, ne_eq, not_false_eq_true, and_self, if_true]
      rw [hset] at hcount
      omega
    · have hset := freeClusters_set hentry (fun h => hvalue (hnew.mp h))
      have hself : (freeClusters v).filter (· ≠ index) = freeClusters v :=
        List.filter_eq_self.mpr fun i hi => decide_eq_true fun heq =>
          hfree (heq ▸ (mem_freeClusters.mp hi).2)
      simp only [hvalue, hfree, false_and, and_false, if_false]
      rw [hset, hself, hcount]

end Counting

section Accesses

variable {s : FatState g}

theorem own_word
    (hb : g.fatType.Own i b) :
    8 * g.fatType.entryPos i ≤ b ∧ b < 8 * (g.fatType.entryPos i + g.fatType.entrySize) := by
  cases hfat : g.fatType with
  | fat12 | fat16 | fat32 =>
      simp only [hfat, FatType.Own, FatType.entryPos, FatType.entrySize] at hb ⊢
      omega

/-- The other entries keep their values when their bits do. -/
theorem others_of_bits
    (hbits : ∀ b, ¬ OwnBit g index b → ¬ v.DirtyBit b → bitAt v'.fat b = bitAt v.fat b)
    (hne : i ≠ index)
    (hi : ¬ (v.Dirtied ∧ i = 1)) :
    fatGetFatEntry v' i = fatGetFatEntry v i := by
  rw [fatGetFatEntry, fatGetFatEntry]
  split
  · rfl
  next hin =>
    refine decode_congr (Nat.not_lt.mp hin) fun b hb => hbits b ?_ ?_
    · exact fun hown => own_apart hb hne hown.2
    · exact dirty_apart hi (own_word hb).1 (own_word hb).2

theorem set_cluster
    (hindex : IsCluster g index) :
    (s.set index value).volume =
      (s.volume.account index value).setDirty.write (g.fatType.entryPos index)
        (g.fatType.encode index (fatLoadFatEntry s.volume index) value) := by
  rw [FatState.set, if_neg (Nat.not_lt.mpr hindex.1), FatState.load, dif_pos hindex.2]

theorem set_behind
    (hindex : g.maxCluster + 1 < index) :
    (s.set index value).volume =
      (s.volume.account index value).setDirty.write (g.fatType.entryPos s.loaded)
        (g.fatType.encode index (256 ^ g.fatType.entrySize - 1) value) := by
  have htwo : ¬ index < fatMinCluster := by
    simp only [fatMinCluster]
    omega
  rw [FatState.set, if_neg htwo, FatState.load, dif_neg (Nat.not_le.mpr hindex)]

theorem account_bit
    (hb : ¬ v.DirtyBit b) :
    bitAt (v.account index value).setDirty.fat b = bitAt v.fat b := by
  rw [setDirty_bit (fun h => hb ⟨account_dirtied.mp h.1, h.2⟩), account_fat.1]

theorem cluster_exact
    (hindex : IsCluster g index) :
    EntryExact s.volume (s.set index value).volume index value ↔ g.fatType.Holds value := by
  rw [set_cluster hindex]
  have hentry : ∀ i, IsCluster g i → _ :=
    fun i hi => @write_entry g s.volume i index value hindex hi
  have hat := hentry index hindex
  rw [Function.update_self] at hat
  have hload := @account_load g s.volume index index value hindex.2 hindex.not_dirty
  have hbits : ∀ b, ¬ OwnBit g index b → ¬ s.volume.DirtyBit b →
      bitAt ((s.volume.account index value).setDirty.write (g.fatType.entryPos index)
        (g.fatType.encode index (fatLoadFatEntry s.volume index) value)).fat b =
        bitAt s.volume.fat b := by
    intro b hown hdirty
    rw [← hload, write_own hindex.2 (fun h => hown ⟨hindex, h⟩), account_bit hdirty]
  constructor
  case mp =>
    intro hexact
    exact extended_iff.mp (hat.symm.trans (hexact.entry hindex))
  case mpr =>
    intro hvalue
    refine ⟨fun _ => hat.trans (extended_iff.mpr hvalue), fun i => others_of_bits hbits, hbits,
      fun hcount hvalid => ?_⟩
    refine setDirty_info.2.1.trans (account_count hindex hentry ?_ (hcount ?_))
    · rw [extended_iff.mpr hvalue, extended_free]
    · exact account_fat.2.symm.trans (setDirty_info.1.symm.trans hvalid)

theorem behind_exact
    (hindex : g.maxCluster + 1 < index) :
    EntryExact s.volume (s.set index value).volume index value ↔
      (s.volume.Dirtied ∧ s.loaded = 1 ∨ fatLoadFatEntry s.volume s.loaded =
        g.fatType.encode index (256 ^ g.fatType.entrySize - 1) value) ∧
      ¬ (value = fatClusterFree ∧ s.volume.freeInfoValid ∧ Counted s.volume) := by
  have hnot : ¬ IsCluster g index := fun h => Nat.not_lt.mpr h.2 hindex
  have hvalid : (s.set index value).volume.freeInfoValid = s.volume.freeInfoValid := by
    rw [set_behind hindex]
    exact setDirty_info.1.trans account_fat.2
  have hcount : (s.set index value).volume.clusterCount =
      if value = fatClusterFree then (s.volume.clusterCount + 1) % 2 ^ 32
      else s.volume.clusterCount := by
    have hlast : fatGetFatEntry s.volume index ≠ fatClusterFree := by
      rw [fatGetFatEntry, if_pos hindex]
      decide
    rw [set_behind hindex]
    refine setDirty_info.2.1.trans ?_
    rw [Volume.account]
    by_cases hvalue : value = fatClusterFree
    · simp only [hvalue, hlast, ne_eq, not_false_eq_true, and_self, if_true]
    · simp only [hvalue, hlast, false_and, and_false, if_false]
  have hbit : ∀ b, ¬ s.volume.DirtyBit b → bitAt (s.set index value).volume.fat b =
      if 8 * g.fatType.entryPos s.loaded ≤ b ∧
        b < 8 * (g.fatType.entryPos s.loaded + g.fatType.entrySize) then
        (g.fatType.encode index (256 ^ g.fatType.entrySize - 1) value).testBit
          (b - 8 * g.fatType.entryPos s.loaded)
      else bitAt s.volume.fat b := by
    intro b hb
    rw [set_behind hindex, write_testBit s.loaded_le, account_bit hb]
  have hfree : (∀ b, ¬ OwnBit g index b → ¬ s.volume.DirtyBit b →
        bitAt (s.set index value).volume.fat b = bitAt s.volume.fat b) →
      freeClusters (s.set index value).volume = freeClusters s.volume := fun hbits =>
    freeClusters_congr fun i hi => others_of_bits hbits (fun h => hnot (h ▸ hi)) hi.not_dirty
  constructor
  case mp =>
    intro hexact
    constructor
    case left =>
      by_cases hdirty : s.volume.Dirtied ∧ s.loaded = 1
      · exact Or.inl hdirty
      · have hload : fatLoadFatEntry (s.set index value).volume s.loaded =
            fatLoadFatEntry s.volume s.loaded :=
          load_congr s.loaded_le fun k hk => hexact.bits _ (fun h => hnot h.1)
            (dirty_apart hdirty (by omega) (by omega))
        rw [set_behind hindex, load_write_self s.loaded_le,
          Nat.mod_eq_of_lt (encode_lt (Nat.sub_lt (by positivity) Nat.one_pos))] at hload
        exact Or.inr hload.symm
    case right =>
      rintro ⟨rfl, hinfo, hcounted⟩
      have hbefore := hcounted hinfo
      have hafter := hexact.count hcounted (hvalid.trans hinfo)
      rw [hfree hexact.bits, hcount, if_pos rfl] at hafter
      omega
  case mpr =>
    rintro ⟨hsame, hinfo⟩
    have hbits : ∀ b, ¬ OwnBit g index b → ¬ s.volume.DirtyBit b →
        bitAt (s.set index value).volume.fat b = bitAt s.volume.fat b := by
      intro b _ hb
      rw [hbit b hb]
      split
      next hin =>
        rcases hsame with ⟨hdirty, hloaded⟩ | hsame
        · refine absurd ⟨hdirty, ?_⟩ hb
          rw [hloaded] at hin
          cases hfat : g.fatType with
          | fat12 => exact absurd hfat hdirty.2
          | fat16 | fat32 =>
              simp only [hfat, FatType.entryPos, FatType.entrySize] at hin ⊢
              omega
        · rw [← hsame, load_testBit _ s.loaded_le, decide_eq_true (by omega), Bool.true_and,
            Nat.add_sub_cancel' hin.1]
      next => rfl
    refine ⟨fun h => absurd h hnot, fun i => others_of_bits hbits, hbits, fun hcounted hv => ?_⟩
    have hv' := hvalid.symm.trans hv
    rw [hcount, if_neg (fun hvalue => hinfo ⟨hvalue, hv', hcounted⟩), hfree hbits]
    exact hcounted hv'

/-- Every access to an entry. -/
theorem fatSetFatEntry_exact
    (s : FatState g)
    (index value : Nat) :
    EntryExact s.volume (s.set index value).volume index value ↔ ExactWhen s index value := by
  by_cases htwo : index < fatMinCluster
  · have hset : s.set index value = s := if_pos htwo
    have hnot : ¬ IsCluster g index := fun h => Nat.not_lt.mpr h.1 htwo
    rw [hset]
    exact ⟨fun _ => Or.inl htwo, fun _ => ⟨fun h => absurd h hnot, fun _ _ _ => rfl,
      fun _ _ _ => rfl, id⟩⟩
  · rw [ExactWhen]
    by_cases hhigh : g.maxCluster + 1 < index
    · have hnot : ¬ IsCluster g index := fun h => Nat.not_lt.mpr h.2 hhigh
      simp only [behind_exact hhigh, htwo, hnot, hhigh, false_or, false_and, true_and]
    · have hindex : IsCluster g index := ⟨Nat.not_lt.mp htwo, Nat.not_lt.mp hhigh⟩
      simp only [cluster_exact hindex, htwo, hindex, hhigh, false_or, false_and, true_and, or_false]

/-- The end of a corrupt chain is freed: its only cluster gets an entry again. -/
theorem fatSetFatEntry_corrupts :
    ¬ ∀ (g : Geometry) (s : FatState g) (index value : Nat), g.fatType.Holds value →
      EntryExact s.volume (s.set index value).volume index value := by
  intro hexact
  have hother := (hexact oneCluster ⟨sampleDisk.volume, 2, by decide⟩ 21 fatClusterFree
    (Or.inl (by decide))).others 2 (by decide) (by decide)
  exact absurd hother (by decide)

end Accesses

end Fat
end Udk
