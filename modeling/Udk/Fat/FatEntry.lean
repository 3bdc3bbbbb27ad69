import Udk.Bytes

/-!
# Entries of the file allocation table

The entries of the three FAT types, packed into the bytes of the first FAT, and what a changed
entry does to the hint about free clusters.
-/

namespace Udk
namespace Fat

/-- `FAT_VOLUME_TYPE`. -/
inductive FatType
  | fat12
  | fat16
  | fat32
  deriving DecidableEq

/-- `FAT_CLUSTER_SPECIAL_FAT12` and the like. -/
def FatType.clusterSpecial : FatType → Nat
  | .fat12 => 0xFF7
  | .fat16 => 0xFFF7
  | .fat32 => 0x0FFFFFF7

/-- `FatEntrySize`. -/
def FatType.entrySize : FatType → Nat
  | .fat12 => 2
  | .fat16 => 2
  | .fat32 => 4

/-- `FAT_POS_FAT12` and the like. -/
def FatType.entryPos : FatType → Nat → Nat
  | .fat12, index => index * 3 / 2
  | .fat16, index => index * 2
  | .fat32, index => index * 4

/-- `FAT_CLUSTER_FREE`. -/
abbrev fatClusterFree : Nat := 0

/-- `FAT_MIN_CLUSTER`. -/
abbrev fatMinCluster : Nat := 2

/-- `FAT_CLUSTER_SPECIAL`. -/
abbrev fatClusterSpecial : Nat := 2 ^ 64 - 9

/-- `FAT_CLUSTER_LAST`. -/
abbrev fatClusterLast : Nat := 2 ^ 64 - 1

/-- `FAT_END_OF_FAT_CHAIN`. -/
def fatEndOfFatChain (cluster : Nat) : Prop :=
  fatClusterSpecial < cluster

instance (cluster : Nat) : Decidable (fatEndOfFatChain cluster) :=
  inferInstanceAs (Decidable (fatClusterSpecial < cluster))

/-- What `FatOpenDevice` computes from the boot sector. -/
structure Geometry where
  fatType : FatType
  maxCluster : Nat
  clusterAlignment : Nat
  /-- `FatSize`. -/
  fatSize : Nat
  /-- A cluster number is no special value of an entry. -/
  fits : maxCluster + 1 < fatType.clusterSpecial
  /-- The FAT has an entry for each cluster. -/
  room : fatType.entryPos (maxCluster + 1) + fatType.entrySize ≤ fatSize

/-- `ClusterSize`. -/
def Geometry.clusterSize (g : Geometry) : Nat :=
  2 ^ g.clusterAlignment

/-- The parts of `FAT_VOLUME` that change. -/
structure Volume (g : Geometry) where
  /-- The first FAT, as the FAT cache shows it. -/
  fat : Bytes
  fat_length : fat.length = g.fatSize
  freeInfoValid : Bool
  /-- `FatInfoSector.FreeInfo.ClusterCount`. -/
  clusterCount : Nat
  /-- `FatInfoSector.FreeInfo.NextCluster`. -/
  nextCluster : Nat
  fatDirty : Bool
  dirtyValue : Nat

variable {g : Geometry}

/-- `FatLoadFatEntry` for an entry of the FAT. -/
def fatLoadFatEntry (v : Volume g) (index : Nat) : Nat :=
  field v.fat (g.fatType.entryPos index) g.fatType.entrySize

/-- Special values are extended to all the bits of `UINTN`. -/
def extendSpecial (special value : Nat) : Nat :=
  if special ≤ value then 2 ^ 64 - 16 + value % 16 else value

/-- The entry in what has been loaded. -/
def FatType.decode (fatType : FatType) (index loaded : Nat) : Nat :=
  match fatType with
  | .fat12 => extendSpecial 0xFF7 (if index % 2 = 1 then loaded / 16 else loaded % 2 ^ 12)
  | .fat16 => extendSpecial 0xFFF7 loaded
  | .fat32 => extendSpecial 0x0FFFFFF7 (loaded % 2 ^ 28)

/-- What has been loaded, with another entry in it. -/
def FatType.encode (fatType : FatType) (index loaded value : Nat) : Nat :=
  match fatType with
  | .fat12 =>
      if index % 2 = 1 then value % 2 ^ 12 * 16 + loaded % 16
      else value % 2 ^ 12 + loaded / 2 ^ 12 * 2 ^ 12
  | .fat16 => value % 2 ^ 16
  | .fat32 => loaded / 2 ^ 28 * 2 ^ 28 + value % 2 ^ 28

/-- `FatGetFatEntry`. -/
def fatGetFatEntry (v : Volume g) (index : Nat) : Nat :=
  if g.maxCluster + 1 < index then fatClusterLast
  else g.fatType.decode index (fatLoadFatEntry v index)

/-- A write to the first FAT. -/
def Volume.write (v : Volume g) (pos value : Nat) : Volume g :=
  { v with
    fat := copyMem v.fat pos (toLE g.fatType.entrySize value)
    fat_length := by rw [copyMem_length, v.fat_length] }

/-- The free info of `FatSetFatEntry`. -/
def Volume.account (v : Volume g) (index value : Nat) : Volume g :=
  let original := fatGetFatEntry v index
  if value = fatClusterFree ∧ original ≠ fatClusterFree then
    { v with
      clusterCount := (v.clusterCount + 1) % 2 ^ 32
      nextCluster := if index < v.nextCluster then index else v.nextCluster }
  else if value ≠ fatClusterFree ∧ original = fatClusterFree then
    { v with clusterCount := v.clusterCount - 1 }
  else v

/-- The dirty bit in the FAT. -/
def Volume.setDirty (v : Volume g) : Volume g :=
  if ¬ v.fatDirty ∧ g.fatType ≠ .fat12 then
    { v with fatDirty := true }.write g.fatType.entrySize v.dirtyValue
  else v

/-- `FatSetFatEntry`; no result for a cluster behind the last one, where it would write to the
entry that was loaded before. -/
def fatSetFatEntry (v : Volume g) (index value : Nat) : Option (Volume g) :=
  if index < fatMinCluster then some v
  else if g.maxCluster + 1 < index then none
  else
    let loaded := fatLoadFatEntry v index
    some ((v.account index value).setDirty.write (g.fatType.entryPos index)
      (g.fatType.encode index loaded value))

end Fat
end Udk
