import Udk.PartitionDxe.GptFields

/-!
# Copies of the table that pass

What it is for a copy of the table on a disk to pass the checks, as a property of the disk, and
what the functions of `Gpt.c` do to a disk.
-/

namespace Udk
namespace Gpt

/-- The block of an LBA. -/
def blockAt (dev : Device) (disk : Memory) (lba : Nat) : Bytes :=
  peek disk (dev.offset lba) dev.blockSize

/-- The entry array of a header. -/
def arrayAt (dev : Device) (disk : Memory) (header : Bytes) : Bytes :=
  peek disk (dev.offset (partitionEntryLba header)) (arraySize header)

/-- The copy of the table at an LBA passes, with this header. -/
structure Passes (dev : Device) (disk : Memory) (lba : Nat) (header : Bytes) : Prop where
  onDisk : dev.offset lba + dev.blockSize ≤ dev.size
  accepted : headerAccepted dev lba (blockAt dev disk lba) = true
  header_eq : header = (blockAt dev disk lba).take sizeofHeader
  arrayOnDisk : dev.offset (partitionEntryLba header) + arraySize header ≤ dev.size
  array : calculateCrc32 (arrayAt dev disk header) = some (partitionEntryArrayCrc32 header)

section Disk

variable {dev : Device} {s : IoState} {mem : Memory} {addr len addr' : Nat} {data : Bytes}

theorem written_poke : Written mem (poke mem addr data) addr data :=
  written_storeBytes

theorem poke_self
    (hsame : peek mem addr data.length = data) :
    poke mem addr data = mem := by
  funext a
  rw [poke]
  split_ifs with hin
  · have hget : (peek mem addr data.length)[a - addr]? = some (mem a) := by
      rw [getElem?_peek (by omega), Nat.add_sub_cancel' hin.1]
    rw [hsame] at hget
    rw [List.getD_eq_getElem?_getD, hget, Option.getD_some]
  · rfl

/-- Writes one after the other. -/
def applyWrites (mem : Memory) (writes : List (Nat × Bytes)) : Memory :=
  writes.foldl (fun mem w => poke mem w.1 w.2) mem

theorem applyWrites_append {writes writes' : List (Nat × Bytes)} :
    applyWrites mem (writes ++ writes') = applyWrites (applyWrites mem writes) writes' :=
  List.foldl_append

end Disk

section Valid

variable {dev : Device} {s : IoState} {lba : Nat} {header partHeader : Bytes} {s' : IoState}

/-- A state that only differs in the number of requests. -/
structure SameDisk (s s' : IoState) : Prop where
  disk : s'.disk = s.disk
  writes : s'.writes = s.writes

theorem SameDisk.refl : SameDisk s s := ⟨rfl, rfl⟩

theorem SameDisk.trans {s' s'' : IoState}
    (h : SameDisk s s') (h' : SameDisk s' s'') :
    SameDisk s s'' :=
  ⟨h'.disk.trans h.disk, h'.writes.trans h.writes⟩

theorem allocatePool_eq {granted : Bool}
    (hcall : allocatePool dev s = (granted, s')) :
    SameDisk s s' := by
  cases hcall
  exact ⟨rfl, rfl⟩

theorem readDisk_eq {offset size : Nat} {result : Option Bytes}
    (hcall : readDisk dev s offset size = (result, s')) :
    SameDisk s s' ∧
      ∀ bytes, result = some bytes → bytes = peek s.disk offset size ∧ offset + size ≤ dev.size := by
  cases hcall
  refine ⟨⟨rfl, rfl⟩, fun bytes hbytes => ?_⟩
  split_ifs at hbytes with h
  exact ⟨(Option.some_inj.mp hbytes).symm, h.2⟩

theorem partitionCheckGptEntryArrayCRC_eq {valid : Bool}
    (hcall : partitionCheckGptEntryArrayCRC dev s partHeader = (valid, s')) :
    SameDisk s s' ∧
      (valid = true →
        dev.offset (partitionEntryLba partHeader) + arraySize partHeader ≤ dev.size ∧
          calculateCrc32 (arrayAt dev s.disk partHeader) =
            some (partitionEntryArrayCrc32 partHeader)) := by
  rw [partitionCheckGptEntryArrayCRC] at hcall
  split at hcall
  next s₁ halloc =>
    cases hcall
    exact ⟨allocatePool_eq halloc, fun h => by cases h⟩
  next s₁ halloc =>
    have hsame := allocatePool_eq halloc
    split at hcall
    next s₂ hread =>
      cases hcall
      exact ⟨hsame.trans (readDisk_eq hread).1, fun h => by cases h⟩
    next ptr s₂ hread =>
      obtain ⟨hsame', hbytes⟩ := readDisk_eq hread
      obtain ⟨hptr, hle⟩ := hbytes ptr rfl
      cases hcall
      refine ⟨hsame.trans hsame', fun hvalid => ⟨hle, ?_⟩⟩
      rw [arrayAt, ← hsame.disk, ← hptr]
      exact of_decide_eq_true hvalid

theorem length_blockAt {disk : Memory} : (blockAt dev disk lba).length = dev.blockSize :=
  length_peek

/-- What `PartitionValidGptTable` leaves, and that the copy passes when it says so. -/
theorem partitionValidGptTable_eq {valid : Bool} {result : Bytes}
    (hcall : partitionValidGptTable dev s lba partHeader = (valid, result, s')) :
    SameDisk s s' ∧ (valid = true → Passes dev s.disk lba result) := by
  rw [partitionValidGptTable] at hcall
  split at hcall
  next s₁ halloc =>
    cases hcall
    exact ⟨allocatePool_eq halloc, fun h => by cases h⟩
  next s₁ halloc =>
    have hsame := allocatePool_eq halloc
    split at hcall
    next s₂ hread =>
      cases hcall
      exact ⟨hsame.trans (readDisk_eq hread).1, fun h => by cases h⟩
    next partHdr s₂ hread =>
      obtain ⟨hsame', hbytes⟩ := readDisk_eq hread
      obtain ⟨hblock, hle⟩ := hbytes partHdr rfl
      rw [hsame.disk] at hblock
      have hdisk := hsame.trans hsame'
      split at hcall
      next hrefused =>
        cases hcall
        exact ⟨hdisk, fun h => by cases h⟩
      next haccepted =>
        rw [Bool.not_eq_false] at haccepted
        have hcrc : (partitionCheckCrc partHdr dev.blockSize).1 = true := by
          simp only [headerAccepted, Bool.and_eq_true] at haccepted
          exact haccepted.1.1.1.2
        have hlength : partHdr.length = dev.blockSize := by rw [hblock, length_peek]
        have hlarge := dev.large
        rw [partitionCheckCrc_eq (by omega) hcrc] at hcall
        rcases harray : partitionCheckGptEntryArrayCRC dev s₂ (partHdr.take sizeofHeader)
          with ⟨valid', s₃⟩
        obtain ⟨hsame'', hcheck⟩ := partitionCheckGptEntryArrayCRC_eq harray
        simp only [harray] at hcall
        cases hcall
        refine ⟨hdisk.trans hsame'', fun hvalid => ?_⟩
        obtain ⟨hsize, hmatch⟩ := hcheck hvalid
        rw [hdisk.disk] at hmatch
        exact ⟨hle, by rw [blockAt, ← hblock]; exact haccepted,
          by rw [blockAt, ← hblock], hsize, hmatch⟩

theorem partitionValidGptTable_of_passes
    (s : IoState) (partHeader : Bytes)
    (hall : ∀ n, dev.answers n = true)
    (hpasses : Passes dev s.disk lba header) :
    ∃ s', partitionValidGptTable dev s lba partHeader = (true, header, s') := by
  obtain ⟨honDisk, haccepted, hheader, harrayOnDisk, harray⟩ := hpasses
  have hcrc : (partitionCheckCrc (blockAt dev s.disk lba) dev.blockSize).1 = true := by
    simp only [headerAccepted, Bool.and_eq_true] at haccepted
    exact haccepted.1.1.1.2
  have hlarge := dev.large
  have hback := partitionCheckCrc_eq (by rw [length_blockAt]; omega) hcrc
  rw [blockAt] at haccepted hheader hback
  rw [arrayAt] at harray
  refine ⟨⟨s.disk, s.writes, s.served + 1 + 1 + 1 + 1⟩, ?_⟩
  simp only [partitionValidGptTable, allocatePool, readDisk, hall, honDisk, haccepted, hback,
    ← hheader, partitionCheckGptEntryArrayCRC, harrayOnDisk, harray, and_self, if_true,
    Bool.true_eq_false, if_false, decide_true]

theorem Passes.unique {disk : Memory} {header' : Bytes}
    (h : Passes dev disk lba header) (h' : Passes dev disk lba header') :
    header = header' :=
  h.header_eq.trans h'.header_eq.symm

end Valid

section Restore

variable {dev : Device} {s : IoState} {header : Bytes} {s' : IoState}

/-- The two writes of `PartitionRestoreGptTable`. -/
def headerWrite (dev : Device) (header : Bytes) : Nat × Bytes :=
  (dev.offset (alternateLba header), restoredBlock dev header)

def arrayWrite (dev : Device) (disk : Memory) (header : Bytes) : Nat × Bytes :=
  (dev.offset (restoredEntryLba header), arrayAt dev disk header)

/-- The disk takes a write. -/
def OnDisk (dev : Device) (w : Nat × Bytes) : Prop :=
  w.1 + w.2.length ≤ dev.size

/-- What a restore may have written: nothing, the header, or the header and then the array. -/
inductive Restored (dev : Device) (disk : Memory) (header : Bytes) : List (Nat × Bytes) → Prop
  | nothing : Restored dev disk header []
  | header (hheader : OnDisk dev (headerWrite dev header)) :
      Restored dev disk header [headerWrite dev header]
  | both (hheader : OnDisk dev (headerWrite dev header))
      (harray : OnDisk dev (arrayWrite dev (applyWrites disk [headerWrite dev header]) header)) :
      Restored dev disk header [headerWrite dev header,
        arrayWrite dev (applyWrites disk [headerWrite dev header]) header]

/-- A state after some writes. -/
structure After (s : IoState) (writes : List (Nat × Bytes)) (s' : IoState) : Prop where
  disk : s'.disk = applyWrites s.disk writes
  writes : s'.writes = s.writes ++ writes

theorem SameDisk.after
    (h : SameDisk s s') :
    After s [] s' :=
  ⟨h.disk, by rw [h.writes, List.append_nil]⟩

theorem After.trans {s' s'' : IoState} {writes writes' : List (Nat × Bytes)}
    (h : After s writes s') (h' : After s' writes' s'') :
    After s (writes ++ writes') s'' := by
  constructor
  case disk => rw [h'.disk, h.disk, applyWrites_append]
  case writes => rw [h'.writes, h.writes, List.append_assoc]

theorem writeDisk_eq {offset : Nat} {data : Bytes} {written : Bool}
    (hcall : writeDisk dev s offset data = (written, s')) :
    (written = false ∧ After s [] s') ∨
      (written = true ∧ OnDisk dev (offset, data) ∧ After s [(offset, data)] s') := by
  rw [writeDisk] at hcall
  split_ifs at hcall with h
  · cases hcall
    exact Or.inr ⟨rfl, h.2, rfl, rfl⟩
  · cases hcall
    exact Or.inl ⟨rfl, rfl, by rw [List.append_nil]⟩

/-- What `PartitionRestoreGptTable` writes. -/
theorem partitionRestoreGptTable_eq {restored : Bool}
    (hcall : partitionRestoreGptTable dev s header = (restored, s')) :
    ∃ writes, Restored dev s.disk header writes ∧ After s writes s' := by
  rw [partitionRestoreGptTable] at hcall
  split at hcall
  next s₁ halloc =>
    cases hcall
    exact ⟨[], .nothing, (allocatePool_eq halloc).after⟩
  next s₁ halloc =>
    have hstart := (allocatePool_eq halloc).after
    split at hcall
    next s₂ hwrite =>
      rcases writeDisk_eq hwrite with ⟨-, hafter⟩ | ⟨hfalse, -⟩
      · cases hcall
        exact ⟨[], .nothing, hstart.trans hafter⟩
      · cases hfalse
    next s₂ hwrite =>
      rcases writeDisk_eq hwrite with ⟨hfalse, -⟩ | ⟨-, hon, hafter⟩
      · cases hfalse
      have hfirst := hstart.trans hafter
      split at hcall
      next s₃ halloc' =>
        cases hcall
        exact ⟨[headerWrite dev header], .header hon,
          hfirst.trans (allocatePool_eq halloc').after⟩
      next s₃ halloc' =>
        have hsecond := hfirst.trans (allocatePool_eq halloc').after
        split at hcall
        next s₄ hread =>
          cases hcall
          exact ⟨[headerWrite dev header], .header hon,
            hsecond.trans (readDisk_eq hread).1.after⟩
        next ptr s₄ hread =>
          obtain ⟨hsame, hbytes⟩ := readDisk_eq hread
          obtain ⟨hptr, -⟩ := hbytes ptr rfl
          rw [hsecond.disk] at hptr
          have hthird := hsecond.trans hsame.after
          have harray : arrayWrite dev (applyWrites s.disk [headerWrite dev header]) header =
              (dev.offset (restoredEntryLba header), ptr) := by
            rw [arrayWrite, arrayAt, hptr]
            rfl
          rcases writeDisk_eq hcall with ⟨-, hlast⟩ | ⟨-, hon', hlast⟩
          · exact ⟨[headerWrite dev header], .header hon, hthird.trans hlast⟩
          · rw [← harray] at hon' hlast
            exact ⟨_, .both hon hon', hthird.trans hlast⟩

end Restore

end Gpt
end Udk
