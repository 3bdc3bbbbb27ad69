import Udk.PartitionDxe.GptRepair

/-!
# Runs of a repair

The good copy survives every prefix of the writes of a call; a call that is not disturbed, also
one after a power cut, leaves two copies that agree.
-/

namespace Udk
namespace Gpt

open List

/-- Both copies pass and have the same entries and the same usable range. -/
def Mirrored (dev : Device) (disk : Memory) : Prop :=
  ∃ primary backup, Passes dev disk 1 primary ∧ Passes dev disk dev.lastBlock backup ∧
    numberOfPartitionEntries primary = numberOfPartitionEntries backup ∧
    sizeOfPartitionEntry primary = sizeOfPartitionEntry backup ∧
    arrayAt dev disk primary = arrayAt dev disk backup ∧
    firstUsableLba primary = firstUsableLba backup ∧
    lastUsableLba primary = lastUsableLba backup

/-- A header names the other place of the table, and its entry array fits there outside the
usable range. -/
structure Standard (dev : Device) (lba : Nat) (header : Bytes) : Prop where
  other : (lba = 1 ∧ alternateLba header = dev.lastBlock) ∨
    (lba = dev.lastBlock ∧ alternateLba header = 1)
  forBackup : lba = 1 →
    (lastUsableLba header + 1) * dev.blockSize + arraySize header ≤
      dev.lastBlock * dev.blockSize
  forPrimary : lba = dev.lastBlock →
    2 * dev.blockSize + arraySize header ≤ firstUsableLba header * dev.blockSize ∧
      2 * dev.blockSize + arraySize header ≤ dev.lastBlock * dev.blockSize

section Places

variable {dev : Device} {disk : Memory} {lba : Nat} {header : Bytes}

theorem Sole.ne
    (hsole : Sole dev disk lba header) :
    dev.lastBlock ≠ 1 := by
  obtain ⟨hpasses, ⟨rfl, hnone⟩ | ⟨rfl, hnone⟩⟩ := hsole
  · intro hone
    exact hnone header (hone ▸ hpasses)
  · intro hone
    exact hnone header (hone ▸ hpasses)

theorem offset_eq
    (hle : lba ≤ dev.lastBlock) :
    dev.offset lba = lba * dev.blockSize ∧ lba * dev.blockSize + dev.blockSize ≤ dev.size := by
  have hsize : lba * dev.blockSize + dev.blockSize ≤ dev.size := by
    rw [← Nat.succ_mul, Device.size]
    exact Nat.mul_le_mul_right _ (by omega)
  have hsmall : dev.size ≤ 2 ^ 64 := dev.small
  have hlarge := dev.large
  exact ⟨Nat.mod_eq_of_lt (by omega), hsize⟩

/-- Where a repair writes in the standard case: on the disk, and not twice in one place. -/
structure Target (dev : Device) (header : Bytes) : Prop where
  block : dev.offset (alternateLba header) + dev.blockSize ≤ dev.size
  array : dev.offset (restoredEntryLba header) + arraySize header ≤ dev.size
  apart : Apart (dev.offset (restoredEntryLba header)) (arraySize header)
    (dev.offset (alternateLba header)) dev.blockSize

theorem Standard.target
    (hstandard : Standard dev lba header)
    (hpasses : Passes dev disk lba header)
    (hne : dev.lastBlock ≠ 1) :
    Target dev header := by
  have hmy := hpasses.myLba_eq
  have hlarge := dev.large
  rcases hstandard.other with ⟨hlba, halternate⟩ | ⟨hlba, halternate⟩
  · have hroom := hstandard.forBackup hlba
    obtain ⟨hoffset, hsize⟩ := offset_eq (le_refl dev.lastBlock)
    have hlast : lastUsableLba header + 1 ≤ dev.lastBlock := by
      refine Nat.le_of_mul_le_mul_right ?_ (by omega : 0 < dev.blockSize)
      omega
    obtain ⟨hentry, -⟩ := offset_eq hlast
    have hbound : dev.lastBlock < 2 ^ 64 := by
      have hsmall : dev.size ≤ 2 ^ 64 := dev.small
      have hmul := Nat.le_mul_of_pos_right dev.lastBlock (by omega : 0 < dev.blockSize)
      omega
    have hrestored : restoredEntryLba header = lastUsableLba header + 1 := by
      rw [restoredEntryLba, if_pos (hmy.trans hlba), Nat.mod_eq_of_lt (by omega)]
    refine ⟨?_, ?_, fun k hk => Or.inl ?_⟩
    · rw [halternate, hoffset]
      exact hsize
    · rw [hrestored, hentry]
      omega
    · rw [hrestored, hentry, halternate, hoffset]
      omega
  · obtain ⟨-, hroom⟩ := hstandard.forPrimary hlba
    obtain ⟨hoffset, hsize⟩ := offset_eq (le_refl dev.lastBlock)
    have hpos : 2 ≤ dev.lastBlock := by
      refine Nat.le_of_mul_le_mul_right ?_ (by omega : 0 < dev.blockSize)
      omega
    obtain ⟨hone, hone'⟩ := offset_eq (by omega : 1 ≤ dev.lastBlock)
    obtain ⟨htwo, -⟩ := offset_eq hpos
    have hrestored : restoredEntryLba header = 2 := by
      rw [restoredEntryLba, if_neg]
      rw [hmy, hlba]
      exact hne
    refine ⟨?_, ?_, fun k _ => Or.inr ?_⟩
    · rw [halternate, hone]
      exact hone'
    · rw [hrestored, htwo]
      omega
    · rw [hrestored, htwo, halternate, hone]
      omega

end Places

section Mirror

variable {dev : Device} {disk : Memory} {lba : Nat} {header : Bytes}

theorem arraySize_restoredHeader
    (hlength : header.length = sizeofHeader) :
    arraySize (restoredHeader dev header) = arraySize header := by
  obtain ⟨-, -, -, -, -, hnumber, hsize, -⟩ := @restoredHeader_fields dev header hlength
  rw [arraySize, hnumber, hsize, arraySize]

theorem arrayAt_restoredHeader
    (hlength : header.length = sizeofHeader) :
    arrayAt dev disk (restoredHeader dev header) =
      peek disk (dev.offset (restoredEntryLba header)) (arraySize header) := by
  obtain ⟨-, -, -, -, hentry, -⟩ := @restoredHeader_fields dev header hlength
  rw [arrayAt, hentry, arraySize_restoredHeader hlength]

/-- A copy that a repair has written passes, and the two copies agree. -/
theorem Passes.mirrored
    (hpasses : Passes dev disk lba header)
    (hstandard : Standard dev lba header)
    (htarget : Target dev header)
    (hblock : blockAt dev disk (alternateLba header) = restoredBlock dev header)
    (harray : peek disk (dev.offset (restoredEntryLba header)) (arraySize header) =
      arrayAt dev disk header) :
    Passes dev disk (alternateLba header) (restoredHeader dev header) ∧ Mirrored dev disk := by
  have hlength := hpasses.length_header
  obtain ⟨-, -, hfirst, hlast, hentry, hnumber, hsize, hcrc⟩ :=
    @restoredHeader_fields dev header hlength
  have hsame : arrayAt dev disk (restoredHeader dev header) = arrayAt dev disk header := by
    rw [arrayAt_restoredHeader hlength, harray]
  have hother : Passes dev disk (alternateLba header) (restoredHeader dev header) := by
    constructor
    case onDisk => exact htarget.block
    case accepted =>
      rw [hblock]
      exact headerAccepted_restoredBlock hpasses
    case header_eq => rw [hblock, restoredHeader]
    case arrayOnDisk =>
      rw [hentry, arraySize_restoredHeader hlength]
      exact htarget.array
    case array =>
      rw [hsame, hcrc]
      exact hpasses.array
  refine ⟨hother, ?_⟩
  rcases hstandard.other with ⟨hlba, halternate⟩ | ⟨hlba, halternate⟩
  · rw [hlba] at hpasses
    rw [halternate] at hother
    exact ⟨header, _, hpasses, hother, hnumber.symm, hsize.symm, hsame.symm, hfirst.symm,
      hlast.symm⟩
  · rw [hlba] at hpasses
    rw [halternate] at hother
    exact ⟨_, header, hother, hpasses, hnumber, hsize, hsame, hfirst, hlast⟩

/-- Both writes of a repair. -/
def fullRepair (dev : Device) (disk : Memory) (header : Bytes) : List (Nat × Bytes) :=
  [headerWrite dev header, arrayWrite dev (applyWrites disk [headerWrite dev header]) header]

theorem onDisk_fullRepair
    (hpasses : Passes dev disk lba header)
    (htarget : Target dev header) :
    OnDisk dev (headerWrite dev header) ∧
      OnDisk dev (arrayWrite dev (applyWrites disk [headerWrite dev header]) header) := by
  constructor
  · rw [OnDisk, headerWrite, length_restoredBlock hpasses.length_header]
    exact htarget.block
  · rw [OnDisk, arrayWrite, arrayAt, length_peek]
    exact htarget.array

theorem restored_fullRepair
    (hpasses : Passes dev disk lba header)
    (htarget : Target dev header) :
    Restored dev disk header (fullRepair dev disk header) :=
  .both (onDisk_fullRepair hpasses htarget).1 (onDisk_fullRepair hpasses htarget).2

/-- After both writes the two copies agree. -/
theorem fullRepair_mirrored
    (hpasses : Passes dev disk lba header)
    (hsafe : SafeTarget dev lba header)
    (hstandard : Standard dev lba header)
    (htarget : Target dev header) :
    Passes dev (applyWrites disk (fullRepair dev disk header)) (alternateLba header)
        (restoredHeader dev header) ∧
      Mirrored dev (applyWrites disk (fullRepair dev disk header)) := by
  have hlength := hpasses.length_header
  have hrestored := restored_fullRepair hpasses htarget
  have hone := hrestored.intact hpasses hsafe 1
  have htwo := hrestored.intact hpasses hsafe 2
  have hend : applyWrites disk (fullRepair dev disk header) =
      poke (applyWrites disk [headerWrite dev header]) (dev.offset (restoredEntryLba header))
        (arrayAt dev (applyWrites disk [headerWrite dev header]) header) := rfl
  have hwritten : Written (applyWrites disk [headerWrite dev header])
      (applyWrites disk (fullRepair dev disk header)) (dev.offset (restoredEntryLba header))
      (arrayAt dev (applyWrites disk [headerWrite dev header]) header) := by
    rw [hend]
    exact written_poke
  have hwritten' : Written disk (applyWrites disk [headerWrite dev header])
      (dev.offset (alternateLba header)) (restoredBlock dev header) := written_poke
  refine htwo.passes.mirrored hstandard htarget ?_ ?_
  · have hapart : Apart (dev.offset (alternateLba header)) dev.blockSize
        (dev.offset (restoredEntryLba header))
        (arrayAt dev (applyWrites disk [headerWrite dev header]) header).length := by
      rw [arrayAt, length_peek]
      exact htarget.apart.symm
    have hkept := hwritten.peek_apart hapart
    have hcontent := hwritten'.content
    rw [length_restoredBlock hlength] at hcontent
    exact hkept.trans hcontent
  · have hcontent := hwritten.content
    rw [arrayAt, length_peek] at hcontent
    exact hcontent.trans (hone.array.trans htwo.array.symm)

end Mirror

section Granted

variable {dev : Device} {s : IoState} {lba : Nat} {header : Bytes}

theorem partitionValidGptTable_of_not
    (partHeader : Bytes)
    (hnone : ∀ other, ¬ Passes dev s.disk lba other) :
    (partitionValidGptTable dev s lba partHeader).1 = false := by
  rcases hcall : partitionValidGptTable dev s lba partHeader with ⟨valid, result, s'⟩
  cases valid with
  | false => rfl
  | true => exact absurd ((partitionValidGptTable_eq hcall).2 rfl) (hnone result)

theorem partitionRestoreGptTable_granted
    (hall : ∀ n, dev.answers n = true)
    (hpasses : Passes dev s.disk lba header)
    (htarget : Target dev header) :
    After s (fullRepair dev s.disk header) (partitionRestoreGptTable dev s header).2 := by
  obtain ⟨hfirst, hsecond⟩ := onDisk_fullRepair hpasses htarget
  have harray := hpasses.arrayOnDisk
  rw [OnDisk, headerWrite] at hfirst
  rw [OnDisk, arrayWrite, arrayAt] at hsecond
  simp only [partitionRestoreGptTable, allocatePool, writeDisk, readDisk, hall, hfirst, harray,
    and_self, if_true]
  rw [if_pos ⟨trivial, hsecond⟩]
  constructor
  · rfl
  · rw [append_assoc]
    rfl

/-- The one good copy is used to write the other one. -/
theorem checkTables_sole
    (hall : ∀ n, dev.answers n = true)
    (hsole : Sole dev s.disk lba header)
    (hstandard : Standard dev lba header) :
    After s (fullRepair dev s.disk header) (checkTables dev s).2 := by
  have htarget := hstandard.target hsole.1 hsole.ne
  have hne := hsole.ne
  obtain ⟨hpasses, hcase⟩ := hsole
  have hplace : lba = 1 ∧ alternateLba header = dev.lastBlock ∧
      (∀ other, ¬ Passes dev s.disk dev.lastBlock other) ∨
      lba = dev.lastBlock ∧ ∀ other, ¬ Passes dev s.disk 1 other := by
    rcases hcase with ⟨hlba, hnone⟩ | ⟨hlba, hnone⟩
    · rcases hstandard.other with ⟨-, halternate⟩ | ⟨hlast, -⟩
      · exact Or.inl ⟨hlba, halternate, hnone⟩
      · exact absurd (hlast.symm.trans hlba) hne
    · exact Or.inr ⟨hlba, hnone⟩
  rcases hplace with ⟨rfl, halternate, hnone⟩ | ⟨rfl, hnone⟩
  · obtain ⟨s₁, hfirst⟩ := partitionValidGptTable_of_passes s
      (List.replicate sizeofHeader 0) hall hpasses
    have hsame := (partitionValidGptTable_eq hfirst).1
    rcases hbackup : partitionValidGptTable dev s₁ (alternateLba header)
      (List.replicate sizeofHeader 0) with ⟨valid, backupHeader, s₂⟩
    have hbad : valid = false := by
      rw [← hsame.disk, ← halternate] at hnone
      have h := partitionValidGptTable_of_not (List.replicate sizeofHeader 0) hnone
      rwa [hbackup] at h
    subst hbad
    have hsame' := hsame.trans (partitionValidGptTable_eq hbackup).1
    have hpasses' : Passes dev s₂.disk 1 header := by rwa [hsame'.disk]
    have hrestore := partitionRestoreGptTable_granted hall hpasses' htarget
    rcases hagain : partitionValidGptTable dev (partitionRestoreGptTable dev s₂ header).2
      (alternateLba header) backupHeader with ⟨valid', again, s₃⟩
    have hlast := (partitionValidGptTable_eq hagain).1
    have hresult : (checkTables dev s).2 = s₃ := by
      rw [checkTables]
      simp only [hfirst, hbackup, hagain]
    rw [hsame'.disk] at hrestore
    have htrans := (hsame'.after.trans hrestore).trans hlast.after
    rwa [nil_append, append_nil, ← hresult] at htrans
  · rcases hprimary : partitionValidGptTable dev s 1 (List.replicate sizeofHeader 0)
      with ⟨valid, primaryHeader, s₁⟩
    have hbad : valid = false := by
      have h := partitionValidGptTable_of_not (List.replicate sizeofHeader 0) hnone
      rwa [hprimary] at h
    subst hbad
    have hsame := (partitionValidGptTable_eq hprimary).1
    obtain ⟨s₂, hbackup⟩ := partitionValidGptTable_of_passes s₁
      (List.replicate sizeofHeader 0) hall (by rwa [hsame.disk])
    have hsame' := hsame.trans (partitionValidGptTable_eq hbackup).1
    have hpasses' : Passes dev s₂.disk dev.lastBlock header := by rwa [hsame'.disk]
    have hrestore := partitionRestoreGptTable_granted hall hpasses' htarget
    rcases hagain : partitionValidGptTable dev (partitionRestoreGptTable dev s₂ header).2
      (alternateLba header) primaryHeader with ⟨valid', again, s₃⟩
    have hlast := (partitionValidGptTable_eq hagain).1
    have hresult : (checkTables dev s).2 = s₃ := by
      rw [checkTables]
      simp only [hprimary, hbackup, hagain]
    rw [hsame'.disk] at hrestore
    have htrans := (hsame'.after.trans hrestore).trans hlast.after
    rwa [nil_append, append_nil, ← hresult] at htrans

theorem checkTables_both {backup : Bytes}
    (hall : ∀ n, dev.answers n = true)
    (hprimary : Passes dev s.disk 1 header)
    (hbackup : Passes dev s.disk (alternateLba header) backup) :
    SameDisk s (checkTables dev s).2 := by
  obtain ⟨s₁, hfirst⟩ := partitionValidGptTable_of_passes s
    (List.replicate sizeofHeader 0) hall hprimary
  have hsame := (partitionValidGptTable_eq hfirst).1
  obtain ⟨s₂, hsecond⟩ := partitionValidGptTable_of_passes s₁
    (List.replicate sizeofHeader 0) hall (by rwa [hsame.disk])
  have hsame' := hsame.trans (partitionValidGptTable_eq hsecond).1
  have hresult : (checkTables dev s).2 = s₂ := by
    rw [checkTables]
    simp only [hfirst, hsecond]
  rwa [hresult]

theorem install_granted
    (s : IoState)
    (hall : ∀ n, dev.answers n = true)
    (hmbr : protectiveMbr (peek s.disk 0 dev.blockSize) = true) :
    ∃ s₁, SameDisk s s₁ ∧
      SameDisk (checkTables dev s₁).2 (partitionInstallGptChildHandles dev s).io := by
  have hsize : dev.blockSize ≤ dev.size := by
    rw [Device.size, Nat.succ_mul]
    exact Nat.le_add_left _ _
  refine ⟨⟨s.disk, s.writes, s.served + 1 + 1 + 1 + 1⟩, ⟨rfl, rfl⟩, ?_⟩
  simp only [partitionInstallGptChildHandles, allocatePool, readDisk, hall, Nat.zero_add, hsize,
    and_self, if_true, hmbr, Bool.true_eq_false, if_false]
  rcases checkTables dev ⟨s.disk, s.writes, s.served + 1 + 1 + 1 + 1⟩
    with ⟨- | primaryHeader, s₂⟩
  · exact SameDisk.refl
  · exact installChildren_same

end Granted

section Repair

variable {dev : Device} {disk : Memory} {lba : Nat} {header : Bytes} {writes : List (Nat × Bytes)}

/-- The device when no request fails. -/
def Device.granting (dev : Device) : Device :=
  { dev with answers := fun _ => true }

theorem passes_granting {other : Bytes} {place : Nat} :
    Passes dev.granting disk place other ↔ Passes dev disk place other :=
  ⟨fun h => ⟨h.onDisk, h.accepted, h.header_eq, h.arrayOnDisk, h.array⟩,
    fun h => ⟨h.onDisk, h.accepted, h.header_eq, h.arrayOnDisk, h.array⟩⟩

theorem Mirrored.of_granting
    (hmirrored : Mirrored dev.granting disk) :
    Mirrored dev disk := by
  obtain ⟨primary, backup, hprimary, hbackup, hsame⟩ := hmirrored
  exact ⟨primary, backup, passes_granting.mp hprimary, passes_granting.mp hbackup, hsame⟩

/-- A call on a disk. -/
def installOn (dev : Device) (disk : Memory) : Outcome :=
  partitionInstallGptChildHandles dev ⟨disk, [], 0⟩

theorem installOn_sole
    (hall : ∀ n, dev.answers n = true)
    (hmbr : protectiveMbr (peek disk 0 dev.blockSize) = true)
    (hsole : Sole dev disk lba header)
    (hsafe : SafeTarget dev lba header)
    (hstandard : Standard dev lba header) :
    Mirrored dev (installOn dev disk).io.disk := by
  obtain ⟨s₁, hsame, hend⟩ := install_granted ⟨disk, [], 0⟩ hall hmbr
  have hsole' : Sole dev s₁.disk lba header := by rwa [hsame.disk]
  have hrepair := checkTables_sole hall hsole' hstandard
  rw [installOn, hend.disk, hrepair.disk, hsame.disk]
  exact (fullRepair_mirrored hsole.1 hsafe hstandard (hstandard.target hsole.1 hsole.ne)).2

theorem installOn_both {backup : Bytes}
    (hall : ∀ n, dev.answers n = true)
    (hmbr : protectiveMbr (peek disk 0 dev.blockSize) = true)
    (hprimary : Passes dev disk 1 header)
    (hbackup : Passes dev disk (alternateLba header) backup) :
    (installOn dev disk).io.disk = disk := by
  obtain ⟨s₁, hsame, hend⟩ := install_granted ⟨disk, [], 0⟩ hall hmbr
  have hprimary' : Passes dev s₁.disk 1 header := by rwa [hsame.disk]
  have htables := checkTables_both hall hprimary' (by rwa [hsame.disk])
  rw [installOn, hend.disk, htables.disk, hsame.disk]

/-- Where the array will be written there is nothing else with its CRC. -/
def NoCollision (dev : Device) (disk : Memory) (header : Bytes) : Prop :=
  calculateCrc32 (peek disk (dev.offset (restoredEntryLba header)) (arraySize header)) =
      some (partitionEntryArrayCrc32 header) →
    peek disk (dev.offset (restoredEntryLba header)) (arraySize header) = arrayAt dev disk header

/-- A copy that passes at the other place after some of the writes agrees with the good one. -/
theorem Restored.mirrored {other : Bytes} {k : Nat}
    (hrestored : Restored dev disk header writes)
    (hsole : Sole dev disk lba header)
    (hsafe : SafeTarget dev lba header)
    (hstandard : Standard dev lba header)
    (hcollision : NoCollision dev disk header)
    (hother : Passes dev (applyWrites disk (writes.take k)) (alternateLba header) other) :
    other = restoredHeader dev header ∧ Mirrored dev (applyWrites disk (writes.take k)) := by
  have htarget := hstandard.target hsole.1 hsole.ne
  have hlength := hsole.1.length_header
  -- without a write the other copy does not pass
  have hnone : ¬ Passes dev disk (alternateLba header) other := by
    have hne := hsole.ne
    rcases hsole.2 with ⟨hlba, hnone⟩ | ⟨hlba, hnone⟩
    · rcases hstandard.other with ⟨-, halternate⟩ | ⟨hlast, -⟩
      · rw [halternate]
        exact hnone other
      · exact absurd (hlast.symm.trans hlba) hne
    · rcases hstandard.other with ⟨hfirst, -⟩ | ⟨-, halternate⟩
      · exact absurd (hlba.symm.trans hfirst) hne
      · rw [halternate]
        exact hnone other
  have hone : OnDisk dev (headerWrite dev header) →
      Passes dev (applyWrites disk [headerWrite dev header]) (alternateLba header) other →
      other = restoredHeader dev header ∧
        Mirrored dev (applyWrites disk [headerWrite dev header]) := by
    intro hon hpasses
    have hintact : Intact dev disk (applyWrites disk [headerWrite dev header]) lba header :=
      (Restored.header hon).intact hsole.1 hsafe 1
    have hwritten : Written disk (applyWrites disk [headerWrite dev header])
        (dev.offset (alternateLba header)) (restoredBlock dev header) := written_poke
    have hblock : blockAt dev (applyWrites disk [headerWrite dev header]) (alternateLba header) =
        restoredBlock dev header := by
      have hcontent := hwritten.content
      rwa [length_restoredBlock hlength] at hcontent
    have heq : other = restoredHeader dev header := by
      rw [hpasses.header_eq, hblock, restoredHeader]
    subst heq
    -- the array that is there has not been written yet
    have hold : peek (applyWrites disk [headerWrite dev header])
        (dev.offset (restoredEntryLba header)) (arraySize header) =
        peek disk (dev.offset (restoredEntryLba header)) (arraySize header) := by
      refine hwritten.peek_apart ?_
      rw [length_restoredBlock hlength]
      exact htarget.apart
    have hcrc := hpasses.array
    obtain ⟨-, -, -, -, -, -, -, hfield⟩ := @restoredHeader_fields dev header hlength
    rw [arrayAt_restoredHeader hlength, hfield, hold] at hcrc
    have harray := hcollision hcrc
    refine ⟨rfl, (hintact.passes.mirrored hstandard htarget hblock ?_).2⟩
    rw [hold, harray]
    exact hintact.array.symm
  cases hrestored with
  | nothing => exact absurd (by rwa [take_nil] at hother) hnone
  | header hon =>
      rcases k with - | k
      · exact absurd hother hnone
      · rw [take_of_length_le (by rw [length_singleton]; omega)] at hother ⊢
        exact hone hon hother
  | both hon harray =>
      rcases k with - | - | k
      · exact absurd hother hnone
      · exact hone hon hother
      · rw [take_of_length_le (by rw [length_cons, length_singleton]; omega)]
          at hother ⊢
        obtain ⟨hpasses, hmirrored⟩ := fullRepair_mirrored hsole.1 hsafe hstandard htarget
        exact ⟨hother.unique hpasses, hmirrored⟩

theorem Sole.restored
    (hsole : Sole dev disk lba header)
    (hrepairs : Repairs dev disk writes) :
    Restored dev disk header writes := by
  rcases hrepairs with rfl | ⟨lba', header', hplace, hpasses, hrestored⟩
  · exact .nothing
  obtain ⟨hgood, ⟨rfl, hnone⟩ | ⟨rfl, hnone⟩⟩ := hsole
  · rcases hplace with rfl | rfl
    · rwa [hgood.unique hpasses]
    · exact absurd hpasses (hnone header')
  · rcases hplace with rfl | rfl
    · exact absurd hpasses (hnone header')
    · rwa [hgood.unique hpasses]

end Repair

section Sample

/-- Eight blocks of 512 bytes, and no request fails. -/
def sampleDevice : Device where
  blockSize := 512
  lastBlock := 7
  bits := 64
  answers := fun _ => true
  installs := fun _ => true
  stray := fun _ => 0
  large := by decide
  narrow := by decide
  small := by decide

/-- A header for LBA 1 with one entry in block 2 and the usable range of blocks 3 to 5. -/
def sampleHeader (alternate crc : Nat) : Bytes :=
  toLE 8 efiPtabHeaderId ++ toLE 4 0x10000 ++ toLE 4 92 ++ toLE 4 crc ++ toLE 4 0 ++ toLE 8 1 ++
    toLE 8 alternate ++ toLE 8 3 ++ toLE 8 5 ++ List.replicate 16 0 ++ toLE 8 2 ++ toLE 4 1 ++
    toLE 4 128 ++ toLE 4 0xC2A8FA9D

/-- A protective MBR, the header at LBA 1, and nothing else. -/
def sampleDisk (header : Bytes) : Memory := fun a =>
  if a = 450 then 0xEE
  else if a = 454 then 1
  else if 512 ≤ a ∧ a < 604 then header.getD (a - 512) 0
  else 0

/-- The backup belongs in block 7. -/
def goodHeader : Bytes := sampleHeader 7 0x949655F2

/-- The backup belongs in block 0. -/
def badHeader : Bytes := sampleHeader 0 0x8D3FF69C

theorem goodHeader_sole : Sole sampleDevice (sampleDisk goodHeader) 1 goodHeader := by
  constructor
  · exact ⟨by decide +kernel, by decide +kernel, by decide +kernel, by decide +kernel,
      by decide +kernel⟩
  · refine Or.inl ⟨rfl, fun other h => ?_⟩
    have hrefused : headerAccepted sampleDevice 7
        (blockAt sampleDevice (sampleDisk goodHeader) 7) = false := by decide +kernel
    exact Bool.false_ne_true (hrefused.symm.trans h.accepted)

theorem goodHeader_safe : SafeTarget sampleDevice 1 goodHeader := by
  have hfields : sampleDevice.offset (alternateLba goodHeader) = 3584 ∧
      sampleDevice.offset (restoredEntryLba goodHeader) = 3072 ∧
      arraySize goodHeader = 128 ∧ sampleDevice.offset (partitionEntryLba goodHeader) = 1024 ∧
      firstUsableLba goodHeader = 3 ∧ lastUsableLba goodHeader = 5 := by decide +kernel
  obtain ⟨halternate, hrestored, hsize, hentry, hfirst, hlast⟩ := hfields
  have hblock : sampleDevice.blockSize = 512 := rfl
  have hone : sampleDevice.offset 1 = 512 := rfl
  have hspares : ∀ addr len, 3072 ≤ addr → Spares sampleDevice 1 goodHeader addr len := by
    intro addr len hle
    constructor
    all_goals
      intro k hk
      left
      simp only [hblock, hone, hsize, hentry, hfirst, hlast] at hk ⊢
      omega
  constructor
  · intro _
    exact hspares _ _ (by rw [halternate]; decide)
  · intro _ _
    exact Or.inr (hspares _ _ (by rw [hrestored]))

end Sample

end Gpt
end Udk
