import Udk.PartitionDxe.GptPasses

/-!
# Repair of a copy of the table

A copy that passes is used to write the other one anew.  When the two writes spare what they
must not touch, the good copy survives them at every moment, and a run that is not disturbed
ends with two copies that agree.
-/

namespace Udk
namespace Gpt

open List

section Restored

variable {dev : Device} {disk : Memory} {lba : Nat} {header : Bytes}

section

variable (hpasses : Passes dev disk lba header)
include hpasses

theorem Passes.length_header :
    header.length = sizeofHeader := by
  have hlarge := dev.large
  rw [hpasses.header_eq, length_take, length_blockAt, sizeofHeader]
  omega

theorem Passes.field_eq {offset width : Nat}
    (hle : offset + width ≤ sizeofHeader) :
    field (blockAt dev disk lba) offset width = field header offset width := by
  rw [hpasses.header_eq, field_take hle]

theorem Passes.myLba_eq :
    myLba header = lba := by
  have haccepted := hpasses.accepted
  simp only [headerAccepted, Bool.and_eq_true, decide_eq_true_eq] at haccepted
  rw [myLba, ← hpasses.field_eq (by decide)]
  exact haccepted.1.1.2

end

theorem field_partitionSetCrc {b : Bytes} {offset width : Nat}
    (hapart : offset + width ≤ 16 ∨ 16 + 4 ≤ offset) :
    field (partitionSetCrc b) offset width = field b offset width := by
  rw [partitionSetCrc, field_setField_apart hapart, field_setField_apart hapart]

@[simp] theorem length_partitionSetCrc {b : Bytes} : (partitionSetCrc b).length = b.length := by
  rw [partitionSetCrc, length_setField, length_setField]

/-- The header that a restore writes. -/
def restoredHeader (dev : Device) (header : Bytes) : Bytes :=
  (restoredBlock dev header).take sizeofHeader

section

variable (hlength : header.length = sizeofHeader)
include hlength

theorem length_restoredBlock :
    (restoredBlock dev header).length = dev.blockSize := by
  have hlarge := dev.large
  simp only [restoredBlock, restoredDraft, length_partitionSetCrc, length_setField,
    length_append, length_replicate, hlength, sizeofHeader]
  omega

theorem field_restoredDraft {offset width : Nat}
    (hle : offset + width ≤ sizeofHeader)
    (hmy : offset + width ≤ 24 ∨ 40 ≤ offset)
    (hentry : offset + width ≤ 72 ∨ 80 ≤ offset) :
    field (restoredDraft dev header) offset width = field header offset width := by
  rw [restoredDraft, field_setField_apart hentry, field_setField_apart (by omega),
    field_setField_apart (by omega), field_append_left _ (by rw [hlength]; exact hle)]

theorem field_restoredBlock {offset width : Nat}
    (hle : offset + width ≤ sizeofHeader)
    (hcrc : offset + width ≤ 16 ∨ 20 ≤ offset)
    (hmy : offset + width ≤ 24 ∨ 40 ≤ offset)
    (hentry : offset + width ≤ 72 ∨ 80 ≤ offset) :
    field (restoredBlock dev header) offset width = field header offset width := by
  rw [restoredBlock, field_partitionSetCrc hcrc, field_restoredDraft hlength hle hmy hentry]

theorem myLba_restoredBlock :
    myLba (restoredBlock dev header) = alternateLba header := by
  rw [restoredBlock, restoredDraft, myLba, field_partitionSetCrc (by decide), field_setField_apart (by decide),
    field_setField_apart (by decide), field_setField_same]
  · exact Nat.mod_eq_of_lt (field_lt _ _ _)
  · rw [length_append, hlength]
    exact Nat.le_add_right_of_le (by decide)

theorem alternateLba_restoredBlock :
    alternateLba (restoredBlock dev header) = myLba header := by
  rw [restoredBlock, restoredDraft, alternateLba, field_partitionSetCrc (by decide), field_setField_apart (by decide), field_setField_same]
  · exact Nat.mod_eq_of_lt (field_lt _ _ _)
  · rw [length_setField, length_append, hlength]
    exact Nat.le_add_right_of_le (by decide)

end

theorem restoredEntryLba_lt : restoredEntryLba header < 2 ^ 64 := by
  rw [restoredEntryLba]
  split_ifs
  · exact Nat.mod_lt _ (by decide)
  · decide

theorem partitionEntryLba_restoredBlock
    (hlength : header.length = sizeofHeader) :
    partitionEntryLba (restoredBlock dev header) = restoredEntryLba header := by
  rw [restoredBlock, restoredDraft, partitionEntryLba, field_partitionSetCrc (by decide), field_setField_same]
  · exact Nat.mod_eq_of_lt restoredEntryLba_lt
  · rw [length_setField, length_setField, length_append, hlength]
    exact Nat.le_add_right_of_le (by decide)

/-- The restored header is accepted at its place. -/
theorem headerAccepted_restoredBlock
    (hpasses : Passes dev disk lba header) :
    headerAccepted dev (alternateLba header) (restoredBlock dev header) = true := by
  have hlength := hpasses.length_header
  have haccepted := hpasses.accepted
  have hlarge := dev.large
  simp only [headerAccepted, Bool.and_eq_true, decide_eq_true_eq] at haccepted ⊢
  obtain ⟨⟨⟨⟨hsignature, hcrc⟩, -⟩, hentry⟩, hcount⟩ := haccepted
  have hsize : headerSize (restoredDraft dev header) = headerSize (blockAt dev disk lba) := by
    rw [headerSize, headerSize, hpasses.field_eq (by decide),
      field_restoredDraft hlength (by decide) (by decide) (by decide)]
  have hsign : signature (restoredBlock dev header) = signature (blockAt dev disk lba) := by
    rw [signature, signature, hpasses.field_eq (by decide),
      field_restoredBlock hlength (by decide) (by decide) (by decide) (by decide)]
  have hsizeof : sizeOfPartitionEntry (restoredBlock dev header) =
      sizeOfPartitionEntry (blockAt dev disk lba) := by
    rw [sizeOfPartitionEntry, sizeOfPartitionEntry, hpasses.field_eq (by decide),
      field_restoredBlock hlength (by decide) (by decide) (by decide) (by decide)]
  have hnumber : numberOfPartitionEntries (restoredBlock dev header) =
      numberOfPartitionEntries (blockAt dev disk lba) := by
    rw [numberOfPartitionEntries, numberOfPartitionEntries, hpasses.field_eq (by decide),
      field_restoredBlock hlength (by decide) (by decide) (by decide) (by decide)]
  rw [hsign, hsizeof, hnumber]
  refine ⟨⟨⟨⟨hsignature, ?_⟩, myLba_restoredBlock hlength⟩, hentry⟩, hcount⟩
  -- the size in the header is one that the check has accepted
  have hbounds : headerSize (blockAt dev disk lba) ≠ 0 ∧
      headerSize (blockAt dev disk lba) ≤ dev.blockSize := by
    rw [partitionCheckCrc] at hcrc
    simp only at hcrc
    split_ifs at hcrc with hzero hmax
    exact ⟨hzero, by omega⟩
  have hdraft : (restoredDraft dev header).length = dev.blockSize := by
    rw [← length_partitionSetCrc]
    exact length_restoredBlock hlength
  exact partitionCheckCrc_set (by omega) (by rw [hsize]; exact hbounds.1)
    (by rw [hsize]; exact hbounds.2)

theorem restoredHeader_fields
    (hlength : header.length = sizeofHeader) :
    myLba (restoredHeader dev header) = alternateLba header ∧
      alternateLba (restoredHeader dev header) = myLba header ∧
      firstUsableLba (restoredHeader dev header) = firstUsableLba header ∧
      lastUsableLba (restoredHeader dev header) = lastUsableLba header ∧
      partitionEntryLba (restoredHeader dev header) = restoredEntryLba header ∧
      numberOfPartitionEntries (restoredHeader dev header) = numberOfPartitionEntries header ∧
      sizeOfPartitionEntry (restoredHeader dev header) = sizeOfPartitionEntry header ∧
      partitionEntryArrayCrc32 (restoredHeader dev header) = partitionEntryArrayCrc32 header := by
  have hkept : ∀ offset width, offset + width ≤ sizeofHeader →
      (offset + width ≤ 16 ∨ 20 ≤ offset) → (offset + width ≤ 24 ∨ 40 ≤ offset) →
      (offset + width ≤ 72 ∨ 80 ≤ offset) →
      field (restoredHeader dev header) offset width = field header offset width := by
    intro offset width hle hcrc hmy hentry
    rw [restoredHeader, field_take hle, field_restoredBlock hlength hle hcrc hmy hentry]
  refine ⟨?_, ?_, hkept 40 8 (by decide) (by decide) (by decide) (by decide),
    hkept 48 8 (by decide) (by decide) (by decide) (by decide), ?_,
    hkept 80 4 (by decide) (by decide) (by decide) (by decide),
    hkept 84 4 (by decide) (by decide) (by decide) (by decide),
    hkept 88 4 (by decide) (by decide) (by decide) (by decide)⟩
  · rw [← myLba_restoredBlock hlength, restoredHeader, myLba, field_take (by decide)]
    rfl
  · rw [← alternateLba_restoredBlock hlength, restoredHeader, alternateLba,
      field_take (by decide)]
    rfl
  · rw [← partitionEntryLba_restoredBlock hlength, restoredHeader, partitionEntryLba,
      field_take (by decide)]
    rfl

end Restored

section Safety

variable {dev : Device} {disk disk' : Memory} {lba : Nat} {header : Bytes}

/-- The one copy that passes, at LBA 1 or in the last block. -/
def Sole (dev : Device) (disk : Memory) (lba : Nat) (header : Bytes) : Prop :=
  Passes dev disk lba header ∧
    ((lba = 1 ∧ ∀ other, ¬ Passes dev disk dev.lastBlock other) ∨
      (lba = dev.lastBlock ∧ ∀ other, ¬ Passes dev disk 1 other))

/-- A range of the disk that has nothing of LBA 0, of the usable range or of a copy of the
table. -/
structure Spares (dev : Device) (lba : Nat) (header : Bytes) (addr len : Nat) : Prop where
  mbr : Apart 0 dev.blockSize addr len
  usable : Apart (firstUsableLba header * dev.blockSize)
    ((lastUsableLba header + 1 - firstUsableLba header) * dev.blockSize) addr len
  block : Apart (dev.offset lba) dev.blockSize addr len
  array : Apart (dev.offset (partitionEntryLba header)) (arraySize header) addr len

/-- The places that a repair writes to spare what it must not touch, or the disk does not have
them.  The array may be written where it is. -/
structure SafeTarget (dev : Device) (lba : Nat) (header : Bytes) : Prop where
  forHeader : dev.offset (alternateLba header) + dev.blockSize ≤ dev.size →
    Spares dev lba header (dev.offset (alternateLba header)) dev.blockSize
  forArray : dev.offset (alternateLba header) + dev.blockSize ≤ dev.size →
    dev.offset (restoredEntryLba header) + arraySize header ≤ dev.size →
    dev.offset (restoredEntryLba header) = dev.offset (partitionEntryLba header) ∨
      Spares dev lba header (dev.offset (restoredEntryLba header)) (arraySize header)

/-- A copy of the table, LBA 0 and the usable range are as before. -/
structure Intact (dev : Device) (disk disk' : Memory) (lba : Nat) (header : Bytes) : Prop where
  passes : Passes dev disk' lba header
  array : arrayAt dev disk' header = arrayAt dev disk header
  mbr : peek disk' 0 dev.blockSize = peek disk 0 dev.blockSize
  usable : ∀ block, firstUsableLba header ≤ block → block ≤ lastUsableLba header →
    peek disk' (block * dev.blockSize) dev.blockSize =
      peek disk (block * dev.blockSize) dev.blockSize

theorem Passes.congr
    (hpasses : Passes dev disk lba header)
    (hblock : blockAt dev disk' lba = blockAt dev disk lba)
    (harray : arrayAt dev disk' header = arrayAt dev disk header) :
    Passes dev disk' lba header where
  onDisk := hpasses.onDisk
  accepted := by rw [hblock]; exact hpasses.accepted
  header_eq := by rw [hblock]; exact hpasses.header_eq
  arrayOnDisk := hpasses.arrayOnDisk
  array := by rw [harray]; exact hpasses.array

theorem Intact.refl
    (hpasses : Passes dev disk lba header) :
    Intact dev disk disk lba header :=
  ⟨hpasses, rfl, rfl, fun _ _ _ => rfl⟩

theorem Intact.write {addr : Nat} {data : Bytes}
    (hintact : Intact dev disk disk' lba header)
    (hspares : Spares dev lba header addr data.length) :
    Intact dev disk (poke disk' addr data) lba header := by
  have hkept : ∀ {a n : Nat}, Apart a n addr data.length →
      peek (poke disk' addr data) a n = peek disk' a n :=
    fun hapart => written_poke.peek_apart hapart
  constructor
  case passes => exact hintact.passes.congr (hkept hspares.block) (hkept hspares.array)
  case array => exact (hkept hspares.array).trans hintact.array
  case mbr => exact (hkept hspares.mbr).trans hintact.mbr
  case usable =>
    intro block hfirst hlast
    refine (hkept ?_).trans (hintact.usable block hfirst hlast)
    have hstart : block * dev.blockSize = firstUsableLba header * dev.blockSize +
        (block - firstUsableLba header) * dev.blockSize := by
      rw [← Nat.add_mul, Nat.add_sub_cancel' hfirst]
    have hend : (block - firstUsableLba header) * dev.blockSize + dev.blockSize ≤
        (lastUsableLba header + 1 - firstUsableLba header) * dev.blockSize := by
      rw [← Nat.succ_mul]
      exact Nat.mul_le_mul_right _ (by omega)
    rw [hstart]
    exact hspares.usable.part hend

/-- At every moment of a restore the good copy is intact. -/
theorem Restored.intact {writes : List (Nat × Bytes)}
    (hrestored : Restored dev disk header writes)
    (hpasses : Passes dev disk lba header)
    (hsafe : SafeTarget dev lba header) (k : Nat) :
    Intact dev disk (applyWrites disk (writes.take k)) lba header := by
  have hnone := Intact.refl hpasses
  have hlength := @length_restoredBlock dev _ hpasses.length_header
  have hone : OnDisk dev (headerWrite dev header) →
      Intact dev disk (applyWrites disk [headerWrite dev header]) lba header := by
    intro hon
    rw [OnDisk, headerWrite, hlength] at hon
    refine hnone.write ?_
    rw [headerWrite, hlength]
    exact hsafe.forHeader hon
  cases hrestored with
  | nothing => rwa [take_nil]
  | header hon =>
      rcases k with - | k
      · exact hnone
      · rw [take_of_length_le (by rw [length_singleton]; omega)]
        exact hone hon
  | both hon harray =>
      rcases k with - | - | k
      · exact hnone
      · exact hone hon
      · rw [take_of_length_le (by rw [length_cons, length_singleton]; omega)]
        have hfirst := hone hon
        have hon' := hon
        rw [OnDisk, headerWrite, hlength] at hon'
        have harray' := harray
        rw [OnDisk, arrayWrite, arrayAt, length_peek] at harray'
        rcases hsafe.forArray hon' harray' with hsame | hspares
        · have hself : poke (applyWrites disk [headerWrite dev header])
              (dev.offset (restoredEntryLba header))
              (arrayAt dev (applyWrites disk [headerWrite dev header]) header) =
              applyWrites disk [headerWrite dev header] := by
            refine poke_self ?_
            rw [hsame, arrayAt, length_peek]
          have hend : applyWrites disk [headerWrite dev header,
              arrayWrite dev (applyWrites disk [headerWrite dev header]) header] =
              applyWrites disk [headerWrite dev header] := hself
          rwa [hend]
        · refine hfirst.write ?_
          rw [arrayWrite, arrayAt, length_peek]
          exact hspares

end Safety

section Install

variable {dev : Device} {s : IoState} {lba : Nat} {header : Bytes}

/-- The writes of a call: none, or a restore from a copy that passes. -/
def Repairs (dev : Device) (disk : Memory) (writes : List (Nat × Bytes)) : Prop :=
  writes = [] ∨
    ∃ lba header, (lba = 1 ∨ lba = dev.lastBlock) ∧ Passes dev disk lba header ∧
      Restored dev disk header writes

/-- What the check of the tables writes. -/
theorem checkTables_eq {s' : IoState} {result : Option Bytes}
    (hcall : checkTables dev s = (result, s')) :
    ∃ writes, Repairs dev s.disk writes ∧ After s writes s' := by
  rw [checkTables] at hcall
  simp only at hcall
  split at hcall
  next primaryHeader s₁ hprimary =>
    have hfirst := (partitionValidGptTable_eq hprimary).1
    split at hcall
    next _ s₂ hbackup =>
      cases hcall
      exact ⟨[], Or.inl rfl, (hfirst.trans (partitionValidGptTable_eq hbackup).1).after⟩
    next backupHeader s₂ hbackup =>
      obtain ⟨hsecond, hpasses⟩ := partitionValidGptTable_eq hbackup
      have hbefore := hfirst.trans hsecond
      rcases hrestore : partitionRestoreGptTable dev s₂ backupHeader with ⟨restored, s₃⟩
      obtain ⟨writes, hrestored, hafter⟩ := partitionRestoreGptTable_eq hrestore
      rcases hagain : partitionValidGptTable dev s₃ (alternateLba backupHeader) primaryHeader
        with ⟨valid, again, s₄⟩
      have hlast := (partitionValidGptTable_eq hagain).1
      simp only [hrestore, hagain] at hcall
      cases hcall
      rw [hbefore.disk] at hrestored
      rw [hfirst.disk] at hpasses
      refine ⟨writes, Or.inr ⟨dev.lastBlock, backupHeader, Or.inr rfl, hpasses rfl, hrestored⟩, ?_⟩
      have htrans := (hbefore.after.trans hafter).trans hlast.after
      rwa [nil_append, append_nil] at htrans
  next primaryHeader s₁ hprimary =>
    obtain ⟨hfirst, hpasses⟩ := partitionValidGptTable_eq hprimary
    split at hcall
    next _ s₂ hbackup =>
      cases hcall
      exact ⟨[], Or.inl rfl, (hfirst.trans (partitionValidGptTable_eq hbackup).1).after⟩
    next backupHeader s₂ hbackup =>
      have hbefore := hfirst.trans (partitionValidGptTable_eq hbackup).1
      rcases hrestore : partitionRestoreGptTable dev s₂ primaryHeader with ⟨restored, s₃⟩
      obtain ⟨writes, hrestored, hafter⟩ := partitionRestoreGptTable_eq hrestore
      rcases hagain : partitionValidGptTable dev s₃ (alternateLba primaryHeader) backupHeader
        with ⟨valid, again, s₄⟩
      have hlast := (partitionValidGptTable_eq hagain).1
      simp only [hrestore, hagain] at hcall
      cases hcall
      rw [hbefore.disk] at hrestored
      refine ⟨writes, Or.inr ⟨1, primaryHeader, Or.inl rfl, hpasses rfl, hrestored⟩, ?_⟩
      have htrans := (hbefore.after.trans hafter).trans hlast.after
      rwa [nil_append, append_nil] at htrans

theorem installChildren_same : SameDisk s (installChildren dev s header).io := by
  rw [installChildren]
  split
  next s₁ halloc => exact allocatePool_eq halloc
  next s₁ halloc =>
    have hfirst := allocatePool_eq halloc
    split
    next s₂ hread => exact hfirst.trans (readDisk_eq hread).1
    next partEntry s₂ hread =>
      have hsecond := hfirst.trans (readDisk_eq hread).1
      split
      next s₃ halloc' => exact hsecond.trans (allocatePool_eq halloc')
      next s₃ halloc' => exact hsecond.trans (allocatePool_eq halloc')

/-- What a call writes. -/
theorem install_writes :
    ∃ writes, Repairs dev s.disk writes ∧ After s writes (partitionInstallGptChildHandles dev s).io := by
  rw [partitionInstallGptChildHandles]
  split
  next s₁ halloc => exact ⟨[], Or.inl rfl, (allocatePool_eq halloc).after⟩
  next s₁ halloc =>
    have hfirst := allocatePool_eq halloc
    split
    next s₂ hread => exact ⟨[], Or.inl rfl, (hfirst.trans (readDisk_eq hread).1).after⟩
    next mbr s₂ hread =>
      have hsecond := hfirst.trans (readDisk_eq hread).1
      split
      next _ => exact ⟨[], Or.inl rfl, hsecond.after⟩
      next _ =>
        split
        next s₃ halloc' => exact ⟨[], Or.inl rfl, (hsecond.trans (allocatePool_eq halloc')).after⟩
        next s₃ halloc' =>
          have hthird := hsecond.trans (allocatePool_eq halloc')
          split
          next s₄ halloc'' =>
            exact ⟨[], Or.inl rfl, (hthird.trans (allocatePool_eq halloc'')).after⟩
          next s₄ halloc'' =>
            have hfourth := hthird.trans (allocatePool_eq halloc'')
            split
            next s₅ htables =>
              obtain ⟨writes, hrepairs, hafter⟩ := checkTables_eq htables
              rw [hfourth.disk] at hrepairs
              have hend := hfourth.after.trans hafter
              rw [nil_append] at hend
              exact ⟨writes, hrepairs, hend⟩
            next primaryHeader s₅ htables =>
              obtain ⟨writes, hrepairs, hafter⟩ := checkTables_eq htables
              rw [hfourth.disk] at hrepairs
              have hend := (hfourth.after.trans hafter).trans
                (@installChildren_same dev s₅ primaryHeader).after
              rw [nil_append, append_nil] at hend
              exact ⟨writes, hrepairs, hend⟩

end Install

end Gpt
end Udk
