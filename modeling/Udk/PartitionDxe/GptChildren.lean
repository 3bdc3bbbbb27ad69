import Udk.PartitionDxe.GptRepairRun

/-!
# Child handles of GPT partitions

What `PartitionCheckGptEntry` finds out about the entries, and which entries of which tables get
a child handle.
-/

namespace Udk
namespace Gpt

open List

section Check

variable {partHeader : Bytes} {entry : Nat → Bytes} {status : Nat → EntryStatus} {i j k n : Nat}

/-- The test of the inner loop. -/
def Hits (entry : Nat → Bytes) (i j : Nat) : Prop :=
  Used (entry j) ∧ startingLba (entry i) ≤ endingLba (entry j) ∧
    startingLba (entry j) ≤ endingLba (entry i)

theorem checkOverlap_apply :
    (checkOverlap entry i status j k).outOfRange = (status k).outOfRange ∧
      (checkOverlap entry i status j k).osSpecific = (status k).osSpecific ∧
      ((checkOverlap entry i status j k).overlap = true ↔
        (status k).overlap = true ∨ Hits entry i j ∧ (k = i ∨ k = j)) := by
  rw [checkOverlap]
  split_ifs with htest
  · have hhits : Hits entry i j := htest
    by_cases hj : k = j
    · subst hj
      by_cases hi : k = i
      · subst hi
        simp [hhits]
      · simp [hi, hhits]
    · by_cases hi : k = i
      · subst hi
        simp [hj, hhits]
      · simp [hi, hj]
  · have hmiss : ¬ Hits entry i j := htest
    simp [hmiss]

theorem foldl_checkOverlap {l : List Nat} :
    ((l.foldl (checkOverlap entry i) status) k).outOfRange = (status k).outOfRange ∧
      ((l.foldl (checkOverlap entry i) status) k).osSpecific = (status k).osSpecific ∧
      (((l.foldl (checkOverlap entry i) status) k).overlap = true ↔
        (status k).overlap = true ∨ ∃ j ∈ l, Hits entry i j ∧ (k = i ∨ k = j)) := by
  induction l generalizing status with
  | nil => exact ⟨rfl, rfl, by simp⟩
  | cons j l ih =>
      obtain ⟨hrange, hos, hoverlap⟩ := @ih (checkOverlap entry i status j)
      obtain ⟨hrange', hos', hoverlap'⟩ := @checkOverlap_apply entry status i j k
      refine ⟨hrange.trans hrange', hos.trans hos', ?_⟩
      rw [foldl_cons, hoverlap, hoverlap']
      simp only [mem_cons, exists_eq_or_imp, or_assoc]

/-- An entry whose range is compared with those of the later entries. -/
def Checked (partHeader : Bytes) (entry : Nat → Bytes) (i : Nat) : Prop :=
  Used (entry i) ∧ InRange (entry i) partHeader

theorem not_inRange_iff {e : Bytes} :
    (endingLba e < startingLba e ∨ startingLba e < firstUsableLba partHeader ∨
        lastUsableLba partHeader < startingLba e ∨ endingLba e < firstUsableLba partHeader ∨
        lastUsableLba partHeader < endingLba e) ↔
      ¬ InRange e partHeader := by
  rw [InRange]
  omega

/-- One turn of the outer loop at one status. -/
theorem checkEntry_apply :
    ((checkEntry partHeader entry status i k).outOfRange = true ↔
        (status k).outOfRange = true ∨ k = i ∧ Used (entry i) ∧ ¬ InRange (entry i) partHeader) ∧
      ((checkEntry partHeader entry status i k).osSpecific = true ↔
        (status k).osSpecific = true ∨
          k = i ∧ Checked partHeader entry i ∧ OsSpecific (entry i)) ∧
      ((checkEntry partHeader entry status i k).overlap = true ↔
        (status k).overlap = true ∨
          ∃ j, i < j ∧ j < numberOfPartitionEntries partHeader ∧ Checked partHeader entry i ∧
            Hits entry i j ∧ (k = i ∨ k = j)) := by
  simp only [checkEntry, not_inRange_iff]
  by_cases hused : Used (entry i)
  · by_cases hrange : InRange (entry i) partHeader
    · have hchecked : Checked partHeader entry i := ⟨hused, hrange⟩
      rw [if_neg (not_not.mpr hused), if_neg (not_not.mpr hrange)]
      obtain ⟨hout, hos, hoverlap⟩ := @foldl_checkOverlap entry
        (if OsSpecific (entry i) then
          Function.update status i { status i with osSpecific := true } else status) i k
        (List.range' (i + 1) (numberOfPartitionEntries partHeader - (i + 1)))
      rw [hout, hos, hoverlap]
      have hmem : ∀ j, j ∈ List.range' (i + 1)
          (numberOfPartitionEntries partHeader - (i + 1)) ↔
          i < j ∧ j < numberOfPartitionEntries partHeader := by
        intro j
        rw [mem_range'_1]
        omega
      simp only [hmem, hchecked, and_assoc, true_and]
      by_cases hspecific : OsSpecific (entry i)
      · by_cases hi : k = i
        · subst hi
          simp [hspecific, hrange]
        · simp [hspecific, hrange, hi]
      · simp [hspecific, hrange]
    · have hnot : ¬ Checked partHeader entry i := fun h => hrange h.2
      rw [if_neg (not_not.mpr hused), if_pos hrange]
      by_cases hi : k = i
      · subst hi
        simp [hnot, hused, hrange]
      · simp [hnot, hi]
  · have hnot : ¬ Checked partHeader entry i := fun h => hused h.1
    rw [if_pos hused]
    simp [hnot, hused]

theorem head_or_mem {P : Nat → Prop} {l : List Nat} :
    (k = i ∧ P i ∨ k ∈ l ∧ P k) ↔ k ∈ i :: l ∧ P k := by
  rw [mem_cons, or_and_right]
  refine or_congr ?_ Iff.rfl
  constructor
  case mp | mpr =>
    rintro ⟨rfl, h⟩
    exact ⟨rfl, h⟩

theorem foldl_checkEntry {l : List Nat} :
    (((l.foldl (checkEntry partHeader entry) status) k).outOfRange = true ↔
        (status k).outOfRange = true ∨ k ∈ l ∧ Used (entry k) ∧ ¬ InRange (entry k) partHeader) ∧
      (((l.foldl (checkEntry partHeader entry) status) k).osSpecific = true ↔
        (status k).osSpecific = true ∨
          k ∈ l ∧ Checked partHeader entry k ∧ OsSpecific (entry k)) ∧
      (((l.foldl (checkEntry partHeader entry) status) k).overlap = true ↔
        (status k).overlap = true ∨
          ∃ i ∈ l, ∃ j, i < j ∧ j < numberOfPartitionEntries partHeader ∧
            Checked partHeader entry i ∧ Hits entry i j ∧ (k = i ∨ k = j)) := by
  induction l generalizing status with
  | nil => simp
  | cons i l ih =>
      obtain ⟨hout, hos, hoverlap⟩ := @ih (checkEntry partHeader entry status i)
      obtain ⟨hout', hos', hoverlap'⟩ := @checkEntry_apply partHeader entry status i k
      rw [foldl_cons, hout, hos, hoverlap, hout', hos', hoverlap']
      refine ⟨?_, ?_, ?_⟩
      · exact or_assoc.trans (or_congr Iff.rfl
          (@head_or_mem i k (fun i => Used (entry i) ∧ ¬ InRange (entry i) partHeader) l))
      · exact or_assoc.trans (or_congr Iff.rfl
          (@head_or_mem i k (fun i => Checked partHeader entry i ∧ OsSpecific (entry i)) l))
      · simp only [mem_cons, exists_eq_or_imp, or_assoc]

/-- An entry overlaps an entry that is looked at with it. -/
def Blocked (partHeader : Bytes) (entry : Nat → Bytes) (k : Nat) : Prop :=
  (∃ j, k < j ∧ j < numberOfPartitionEntries partHeader ∧ Hits entry k j) ∨
    ∃ i, i < k ∧ Checked partHeader entry i ∧ Hits entry i k

theorem partitionCheckGptEntry_unmarked
    (hk : k < numberOfPartitionEntries partHeader)
    (hused : Used (entry k)) :
    ((partitionCheckGptEntry partHeader entry k).outOfRange = false ∧
        (partitionCheckGptEntry partHeader entry k).overlap = false ∧
        (partitionCheckGptEntry partHeader entry k).osSpecific = false) ↔
      InRange (entry k) partHeader ∧ ¬ OsSpecific (entry k) ∧
        ¬ Blocked partHeader entry k := by
  obtain ⟨hout, hos, hoverlap⟩ := @foldl_checkEntry partHeader entry
    (fun _ => ⟨false, false, false⟩) k (List.range (numberOfPartitionEntries partHeader))
  rw [partitionCheckGptEntry, ← Bool.not_eq_true, ← Bool.not_eq_true, ← Bool.not_eq_true, hout,
    hos, hoverlap]
  simp only [Bool.false_eq_true, false_or, List.mem_range, hk, hused, true_and, not_not]
  constructor
  · rintro ⟨hrange, hfree, hplain⟩
    refine ⟨hrange, fun h => hplain ⟨⟨hused, hrange⟩, h⟩, ?_⟩
    rintro (⟨j, hlt, hj, hhits⟩ | ⟨i, hlt, hchecked, hhits⟩)
    · exact hfree ⟨k, hk, j, hlt, hj, ⟨hused, hrange⟩, hhits, Or.inl rfl⟩
    · exact hfree ⟨i, hlt.trans hk, k, hlt, hk, hchecked, hhits, Or.inr rfl⟩
  · rintro ⟨hrange, hplain, hfree⟩
    refine ⟨hrange, ?_, fun h => hplain h.2⟩
    rintro ⟨i, -, j, hlt, hj, hchecked, hhits, rfl | rfl⟩
    · exact hfree (Or.inl ⟨j, hlt, hj, hhits⟩)
    · exact hfree (Or.inr ⟨i, hlt, hchecked, hhits⟩)

end Check

section Children

/-- Two entries have a block in common. -/
def Meets (e e' : Bytes) : Prop :=
  ∃ lba, (startingLba e ≤ lba ∧ lba ≤ endingLba e) ∧ startingLba e' ≤ lba ∧ lba ≤ endingLba e'

/-- The headers for which `PartitionValidGptTable` returns TRUE while the tables are checked. -/
def validated (dev : Device) (s : IoState) : List Bytes :=
  let zero := List.replicate sizeofHeader 0
  match partitionValidGptTable dev s 1 zero with
  | (false, primaryHeader, s) =>
      match partitionValidGptTable dev s dev.lastBlock zero with
      | (false, _, _) => []
      | (true, backupHeader, s) =>
          let s := (partitionRestoreGptTable dev s backupHeader).2
          match partitionValidGptTable dev s (alternateLba backupHeader) primaryHeader with
          | (true, primaryHeader, _) => [backupHeader, primaryHeader]
          | (false, _, _) => [backupHeader]
  | (true, primaryHeader, s) =>
      match partitionValidGptTable dev s (alternateLba primaryHeader) zero with
      | (true, backupHeader, _) => [primaryHeader, backupHeader]
      | (false, backupHeader, s) =>
          let s := (partitionRestoreGptTable dev s primaryHeader).2
          match partitionValidGptTable dev s (alternateLba primaryHeader) backupHeader with
          | (true, backupHeader, _) => [primaryHeader, backupHeader]
          | (false, _, _) => [primaryHeader]

/-- The entries that the loops read. -/
def Outcome.entry (dev : Device) (o : Outcome) : Nat → Bytes :=
  entryAt dev o.header o.partEntry

/-- Only partitions of a validated table appear: the headers given are the validated ones. -/
structure OnlyValidated (dev : Device) (headers : List Bytes) (o : Outcome) : Prop where
  described : ∀ child ∈ o.children,
    calculateCrc32 o.partEntry = some (partitionEntryArrayCrc32 o.header) ∧ o.header ∈ headers ∧
      ∃ index, index < numberOfPartitionEntries o.header ∧ Used (o.entry dev index) ∧
        ¬ OsSpecific (o.entry dev index) ∧ child = childOf index (o.entry dev index)
  usable : ∀ child ∈ o.children, firstUsableLba o.header ≤ child.startingLba ∧
    child.startingLba ≤ child.endingLba ∧ child.endingLba ≤ lastUsableLba o.header
  disjoint : o.children.Pairwise fun child child' =>
    child.endingLba < child'.startingLba ∨ child'.endingLba < child.startingLba
  complete : o.status = .success → (∀ index, dev.installs index = true) →
    ∀ index, index < numberOfPartitionEntries o.header → Used (o.entry dev index) →
      InRange (o.entry dev index) o.header → ¬ OsSpecific (o.entry dev index) →
      (∀ other, other < numberOfPartitionEntries o.header → other ≠ index →
        Used (o.entry dev other) → ¬ Meets (o.entry dev index) (o.entry dev other)) →
      childOf index (o.entry dev index) ∈ o.children
  inside : ∀ index, index < numberOfPartitionEntries o.header →
    (index * sizeOfPartitionEntry o.header) % 2 ^ dev.bits + sizeofEntry ≤ o.partEntry.length

/-- The entries that get a child handle if it can be installed. -/
structure Candidate (dev : Device) (header : Bytes) (entry : Nat → Bytes) (index : Nat) : Prop where
  lt : index < numberOfPartitionEntries header
  used : Used (entry index)
  inRange : InRange (entry index) header
  plain : ¬ OsSpecific (entry index)
  free : ¬ Blocked header entry index
  installs : dev.installs index = true

/-- An entry that has to get a child handle, with a later used entry behind its back: one with an
empty range whose two ends lie in the range of the first. -/
structure Concealed (header : Bytes) (entry : Nat → Bytes) (index other : Nat) : Prop where
  lt : index < other
  lt_number : other < numberOfPartitionEntries header
  used : Used (entry index)
  inRange : InRange (entry index) header
  plain : ¬ OsSpecific (entry index)
  apart : ∀ k, k < numberOfPartitionEntries header → k ≠ index → Used (entry k) →
    ¬ Meets (entry index) (entry k)
  used_other : Used (entry other)
  empty : endingLba (entry other) < startingLba (entry other)
  first : startingLba (entry index) ≤ endingLba (entry other)
  last : startingLba (entry other) ≤ endingLba (entry index)

section Leaf

variable (dev : Device) (s : IoState) (header : Bytes)

/-- The entries can be read, and there is memory for their status. -/
structure Readable : Prop where
  pool : dev.answers s.served = true
  read : dev.answers (s.served + 1) = true
  onDisk : dev.offset (partitionEntryLba header) + arraySize header ≤ dev.size
  poolStatus : dev.answers (s.served + 2) = true

/-- The entries that are read. -/
def diskEntry : Nat → Bytes :=
  entryAt dev header (arrayAt dev s.disk header)

/-- Nothing is installed from these entries. -/
def Barren : Prop :=
  Readable dev s header → ∀ index, ¬ Candidate dev header (diskEntry dev s header) index

/-- The entry array still matches its header. -/
def ArrayKept : Prop :=
  calculateCrc32 (arrayAt dev s.disk header) = some (partitionEntryArrayCrc32 header)

/-- The size of the entry array is not cut to 32 bits, and no entry is concealed by one with an
empty range. -/
def Regular : Prop :=
  Readable dev s header →
    numberOfPartitionEntries header * sizeOfPartitionEntry header < 2 ^ 32 ∧
      ((∀ index, dev.installs index = true) →
        ∀ index other, ¬ Concealed header (diskEntry dev s header) index other)

end Leaf

section Lemmas

variable {dev : Device} {s : IoState} {header : Bytes} {headers : List Bytes}
variable {entry : Nat → Bytes} {i j index : Nat}

theorem mem_childIndices :
    index ∈ childIndices dev header entry ↔ Candidate dev header entry index := by
  rw [childIndices, mem_filter, List.mem_range]
  simp only [Bool.and_eq_true, Bool.not_eq_true', decide_eq_true_eq, and_assoc]
  constructor
  · rintro ⟨hlt, hused, hout, hoverlap, hos, hinstalls⟩
    obtain ⟨hrange, hplain, hfree⟩ :=
      (partitionCheckGptEntry_unmarked hlt hused).mp ⟨hout, hoverlap, hos⟩
    exact ⟨hlt, hused, hrange, hplain, hfree, hinstalls⟩
  · rintro ⟨hlt, hused, hrange, hplain, hfree, hinstalls⟩
    obtain ⟨hout, hoverlap, hos⟩ :=
      (partitionCheckGptEntry_unmarked hlt hused).mpr ⟨hrange, hplain, hfree⟩
    exact ⟨hlt, hused, hout, hoverlap, hos, hinstalls⟩

theorem pairwise_childIndices : (childIndices dev header entry).Pairwise (· < ·) := by
  rw [childIndices]
  exact List.Pairwise.filter _ pairwise_lt_range

theorem Candidate.apart
    (hi : Candidate dev header entry i)
    (hj : Candidate dev header entry j)
    (hlt : i < j) :
    endingLba (entry i) < startingLba (entry j) ∨ endingLba (entry j) < startingLba (entry i) := by
  have hmiss : ¬ Hits entry i j := fun h => hi.free (Or.inl ⟨j, hlt, hj.lt, h⟩)
  rw [Hits] at hmiss
  have hused := hj.used
  simp only [hused, true_and] at hmiss
  omega

theorem Hits.meets
    (hhits : Hits entry i j)
    (hi : startingLba (entry i) ≤ endingLba (entry i))
    (hj : startingLba (entry j) ≤ endingLba (entry j)) :
    Meets (entry i) (entry j) := by
  obtain ⟨-, hij, hji⟩ := hhits
  refine ⟨max (startingLba (entry i)) (startingLba (entry j)), ?_, ?_⟩
  · omega
  · omega

theorem Meets.symm {e e' : Bytes}
    (h : Meets e e') :
    Meets e' e := by
  obtain ⟨lba, hin, hin'⟩ := h
  exact ⟨lba, hin', hin⟩

/-- The header of a table fits a `UINTN`. -/
def Fits (dev : Device) (header : Bytes) : Prop :=
  numberOfPartitionEntries header = 0 ∨
    sizeofEntry ≤ sizeOfPartitionEntry header ∧
      numberOfPartitionEntries header ≤ (2 ^ dev.bits - 1) / sizeOfPartitionEntry header

theorem numberOfPartitionEntries_lt : numberOfPartitionEntries header < 2 ^ 32 :=
  field_lt _ _ _

theorem sizeOfPartitionEntry_lt : sizeOfPartitionEntry header < 2 ^ 32 :=
  field_lt _ _ _

/-- Every entry lies in the buffer exactly if the size of the array has not been cut. -/
theorem Fits.inside_iff
    (hfits : Fits dev header) :
    (∀ index, index < numberOfPartitionEntries header →
        (index * sizeOfPartitionEntry header) % 2 ^ dev.bits + sizeofEntry ≤ arraySize header) ↔
      numberOfPartitionEntries header * sizeOfPartitionEntry header < 2 ^ 32 := by
  have hsizeLt := @sizeOfPartitionEntry_lt header
  rw [Fits] at hfits
  rw [arraySize]
  generalize numberOfPartitionEntries header = n at hfits ⊢
  generalize sizeOfPartitionEntry header = size at hfits hsizeLt ⊢
  rcases hfits with hzero | ⟨hlarge, hnumber⟩
  · subst hzero
    simp
  have hproduct : n * size < 2 ^ dev.bits := by
    have hpos : 0 < 2 ^ dev.bits := Nat.pow_pos (by decide)
    have h := (Nat.le_div_iff_mul_le (by rw [sizeofEntry] at hlarge; omega)).mp hnumber
    omega
  have hplace : ∀ index, index < n →
      index * size % 2 ^ dev.bits = index * size ∧ index * size + size ≤ n * size := by
    intro index hlt
    have hle : (index + 1) * size ≤ n * size := Nat.mul_le_mul_right _ hlt
    rw [Nat.succ_mul] at hle
    exact ⟨Nat.mod_eq_of_lt (by omega), hle⟩
  constructor
  case mp =>
    intro hinside
    by_contra hcut
    -- the last entry is too far away for what is left of the size
    have hpos : 0 < n := by
      rcases Nat.eq_zero_or_pos n with rfl | hpos
      · simp at hcut
      · exact hpos
    have hlast := hinside (n - 1) (by omega)
    obtain ⟨hmod, -⟩ := hplace (n - 1) (by omega)
    rw [hmod] at hlast
    have hsplit : (n - 1) * size + size = n * size := by
      rw [← Nat.succ_mul, Nat.succ_eq_add_one, Nat.sub_add_cancel hpos]
    omega
  case mpr =>
    intro hwhole index hlt
    obtain ⟨hmod, hle⟩ := hplace index hlt
    rw [hmod, Nat.mod_eq_of_lt hwhole]
    omega

/-- What `PartitionValidGptTable` leaves in `PartHeader` fits a `UINTN`. -/
theorem partitionValidGptTable_fits {lba : Nat} {partHeader result : Bytes} {valid : Bool}
    {s' : IoState}
    (hcall : partitionValidGptTable dev s lba partHeader = (valid, result, s'))
    (hfits : Fits dev partHeader) :
    Fits dev result := by
  rw [partitionValidGptTable] at hcall
  split at hcall
  next s₁ halloc =>
    cases hcall
    exact hfits
  next s₁ _ =>
    split at hcall
    next s₂ hread =>
      cases hcall
      exact hfits
    next partHdr s₂ hread =>
      obtain ⟨-, hbytes⟩ := readDisk_eq hread
      obtain ⟨hblock, -⟩ := hbytes partHdr rfl
      split at hcall
      next hrefused =>
        cases hcall
        exact hfits
      next haccepted =>
        rw [Bool.not_eq_false] at haccepted
        simp only [headerAccepted, Bool.and_eq_true, decide_eq_true_eq] at haccepted
        have hlarge := dev.large
        rw [partitionCheckCrc_eq (by rw [hblock, length_peek]; omega) haccepted.1.1.1.2] at hcall
        rcases harray : partitionCheckGptEntryArrayCRC dev s₂ (partHdr.take sizeofHeader)
          with ⟨valid', s₃⟩
        simp only [harray] at hcall
        cases hcall
        have hnumber : numberOfPartitionEntries (partHdr.take sizeofHeader) =
            numberOfPartitionEntries partHdr := field_take (by decide)
        have hsize : sizeOfPartitionEntry (partHdr.take sizeofHeader) =
            sizeOfPartitionEntry partHdr := field_take (by decide)
        right
        rw [hnumber, hsize]
        exact ⟨haccepted.1.2, haccepted.2⟩

theorem onlyValidated_none {status : EfiStatus} :
    OnlyValidated dev headers (Outcome.none status s) := by
  have hnumber : numberOfPartitionEntries (Outcome.none status s).header = 0 := rfl
  constructor
  case described | usable => exact fun child hchild => absurd hchild not_mem_nil
  case disjoint => exact List.Pairwise.nil
  case complete =>
    intro _ _ index hlt
    rw [hnumber] at hlt
    omega
  case inside =>
    intro index hlt
    rw [hnumber] at hlt
    omega

theorem installChildren_readable
    (hreadable : Readable dev s header) :
    installChildren dev s header =
      ⟨.success, header, arrayAt dev s.disk header,
        (childIndices dev header (diskEntry dev s header)).map fun index =>
          childOf index (diskEntry dev s header index),
        ⟨s.disk, s.writes, s.served + 3⟩⟩ := by
  obtain ⟨hpool, hread, honDisk, hstatus⟩ := hreadable
  simp only [installChildren, allocatePool, hpool, readDisk, hread, honDisk, and_self, if_true,
    hstatus]
  rfl

theorem installChildren_unreadable
    (hreadable : ¬ Readable dev s header) :
    ∃ status s', installChildren dev s header = Outcome.none status s' := by
  rw [installChildren]
  split
  next s₁ _ => exact ⟨_, _, rfl⟩
  next s₁ halloc =>
    split
    next s₂ _ => exact ⟨_, _, rfl⟩
    next partEntry s₂ hread =>
      split
      next s₃ _ => exact ⟨_, _, rfl⟩
      next s₃ halloc' =>
        refine absurd ?_ hreadable
        simp only [allocatePool, Prod.mk.injEq] at halloc
        obtain ⟨hpool, rfl⟩ := halloc
        simp only [readDisk, Prod.mk.injEq] at hread
        obtain ⟨hsome, rfl⟩ := hread
        split_ifs at hsome with h
        simp only [allocatePool, Prod.mk.injEq] at halloc'
        exact ⟨hpool, h.1, h.2, halloc'.1⟩

theorem childOf_inj {e e' : Bytes}
    (hi : i < numberOfPartitionEntries header)
    (hj : j < numberOfPartitionEntries header)
    (heq : childOf i e = childOf j e') :
    i = j := by
  have hnumber := congrArg Child.partitionNumber heq
  have hlt := @numberOfPartitionEntries_lt header
  rw [childOf, childOf] at hnumber
  simp only at hnumber
  rw [Nat.mod_eq_of_lt (by omega), Nat.mod_eq_of_lt (by omega)] at hnumber
  omega

theorem Concealed.blocked
    (h : Concealed header entry i j) :
    Blocked header entry i :=
  Or.inl ⟨j, h.lt, h.lt_number, h.used_other, h.first, h.last⟩

theorem concealed_of_blocked
    (hlt : i < numberOfPartitionEntries header)
    (hused : Used (entry i))
    (hrange : InRange (entry i) header)
    (hplain : ¬ OsSpecific (entry i))
    (hapart : ∀ k, k < numberOfPartitionEntries header → k ≠ i → Used (entry k) →
      ¬ Meets (entry i) (entry k))
    (hblocked : Blocked header entry i) :
    ∃ j, Concealed header entry i j := by
  rcases hblocked with ⟨j, hij, hj, hhits⟩ | ⟨j, hji, hchecked, hhits⟩
  · refine ⟨j, hij, hj, hused, hrange, hplain, hapart, hhits.1, ?_, hhits.2.1, hhits.2.2⟩
    by_contra hnonempty
    exact hapart j hj (by omega) hhits.1 (hhits.meets hrange.1 (by omega))
  · exact absurd (hhits.meets hchecked.2.1 hrange.1).symm
      (hapart j (by omega) (by omega) hchecked.1)

/-- What the last phase has to meet, if it gets to the entries. -/
theorem onlyValidated_readable
    (hreadable : Readable dev s header)
    (hfits : Fits dev header) :
    OnlyValidated dev headers (installChildren dev s header) ↔
      ((∀ index, ¬ Candidate dev header (diskEntry dev s header) index) ∨
          header ∈ headers ∧ ArrayKept dev s header) ∧
        numberOfPartitionEntries header * sizeOfPartitionEntry header < 2 ^ 32 ∧
        ((∀ index, dev.installs index = true) →
          ∀ index other, ¬ Concealed header (diskEntry dev s header) index other) := by
  have hinside := hfits.inside_iff
  have hlength : (arrayAt dev s.disk header).length = arraySize header := length_peek
  rw [installChildren_readable hreadable]
  constructor
  case mp =>
    intro honly
    refine ⟨?_, ?_, ?_⟩
    · by_cases hbarren : ∀ index, ¬ Candidate dev header (diskEntry dev s header) index
      · exact Or.inl hbarren
      · right
        obtain ⟨index, hcandidate⟩ := not_forall_not.mp hbarren
        obtain ⟨hcrc, hmem, -⟩ := honly.described _
          (mem_map_of_mem (mem_childIndices.mpr hcandidate))
        exact ⟨hmem, hcrc⟩
    · rw [← hinside, ← hlength]
      exact honly.inside
    · intro hinstalls index other hconcealed
      have hlt : index < numberOfPartitionEntries header :=
        hconcealed.lt.trans hconcealed.lt_number
      have hchild := honly.complete rfl hinstalls index hlt hconcealed.used hconcealed.inRange
        hconcealed.plain hconcealed.apart
      obtain ⟨index', hmem, heq⟩ := mem_map.mp hchild
      have hcandidate := mem_childIndices.mp hmem
      have hindex := childOf_inj hcandidate.lt hlt heq
      subst hindex
      exact hcandidate.free hconcealed.blocked
  case mpr =>
    rintro ⟨hvalid, hwhole, hconcealed⟩
    constructor
    case described =>
      intro child hchild
      obtain ⟨index, hmem, rfl⟩ := mem_map.mp hchild
      have hcandidate := mem_childIndices.mp hmem
      rcases hvalid with hbarren | ⟨hheader, hcrc⟩
      · exact absurd hcandidate (hbarren index)
      · exact ⟨hcrc, hheader, index, hcandidate.lt, hcandidate.used, hcandidate.plain, rfl⟩
    case usable =>
      intro child hchild
      obtain ⟨index, hmem, rfl⟩ := mem_map.mp hchild
      obtain ⟨hle, hfirst, hlast⟩ := (mem_childIndices.mp hmem).inRange
      exact ⟨hfirst, hle, hlast⟩
    case disjoint =>
      rw [pairwise_map]
      refine pairwise_childIndices.imp_of_mem ?_
      intro index other hmem hmem' hlt
      exact (mem_childIndices.mp hmem).apart (mem_childIndices.mp hmem') hlt
    case complete =>
      intro _ hinstalls index hlt hused hrange hplain hapart
      refine mem_map_of_mem (mem_childIndices.mpr ⟨hlt, hused, hrange, hplain, ?_,
        hinstalls index⟩)
      intro hblocked
      obtain ⟨other, h⟩ := concealed_of_blocked hlt hused hrange hplain hapart hblocked
      exact hconcealed hinstalls index other h
    case inside =>
      rw [hlength]
      exact hinside.mpr hwhole

theorem onlyValidated_installChildren
    (hfits : Fits dev header) :
    OnlyValidated dev headers (installChildren dev s header) ↔
      (Barren dev s header ∨ header ∈ headers ∧ ArrayKept dev s header) ∧ Regular dev s header := by
  by_cases hreadable : Readable dev s header
  · rw [onlyValidated_readable hreadable hfits, Barren, Regular]
    simp only [hreadable, true_imp_iff]
  · obtain ⟨status, s', hnone⟩ := installChildren_unreadable hreadable
    rw [hnone, Barren, Regular]
    simp only [hreadable, false_imp_iff, true_or, true_and, iff_true]
    exact onlyValidated_none

end Lemmas

section Run

variable (dev : Device) (s : IoState)

/-- The tables are looked at: the first requests are granted, and there is a protective MBR. -/
structure Reached : Prop where
  poolMbr : dev.answers s.served = true
  readMbr : dev.answers (s.served + 1) = true
  onDisk : dev.blockSize ≤ dev.size
  protective : protectiveMbr (peek s.disk 0 dev.blockSize) = true
  poolPrimary : dev.answers (s.served + 2) = true
  poolBackup : dev.answers (s.served + 3) = true

/-- The state in which the tables are looked at. -/
def tablesState : IoState :=
  { s with served := s.served + 4 }

/-- When the tables lead to validated children only, along the branches of the call.  If both
copies pass, the table in use is regular.  If one has been restored from the other, also the
entry array in use has survived the restore.  If the restored primary copy does not pass, nothing
is installed from what is left in `PrimaryHeader`. -/
def Trusted : Prop :=
  let zero := List.replicate sizeofHeader 0
  match partitionValidGptTable dev s 1 zero with
  | (false, primaryHeader, s) =>
      match partitionValidGptTable dev s dev.lastBlock zero with
      | (false, _, _) => True
      | (true, backupHeader, s) =>
          let s := (partitionRestoreGptTable dev s backupHeader).2
          match partitionValidGptTable dev s (alternateLba backupHeader) primaryHeader with
          | (true, primaryHeader, s) => Regular dev s primaryHeader
          | (false, primaryHeader, s) =>
              (Barren dev s primaryHeader ∨
                primaryHeader = backupHeader ∧ ArrayKept dev s primaryHeader) ∧
                Regular dev s primaryHeader
  | (true, primaryHeader, s) =>
      match partitionValidGptTable dev s (alternateLba primaryHeader) zero with
      | (true, _, s) => Regular dev s primaryHeader
      | (false, backupHeader, s) =>
          let s := (partitionRestoreGptTable dev s primaryHeader).2
          let s := (partitionValidGptTable dev s (alternateLba primaryHeader) backupHeader).2.2
          (Barren dev s primaryHeader ∨ ArrayKept dev s primaryHeader) ∧
            Regular dev s primaryHeader

end Run

section Main

variable {dev : Device} {s : IoState}

theorem install_reached
    (hreached : Reached dev s) :
    partitionInstallGptChildHandles dev s =
      match checkTables dev (tablesState s) with
      | (none, s) => Outcome.none .notFound s
      | (some primaryHeader, s) => installChildren dev s primaryHeader := by
  obtain ⟨hpool, hread, honDisk, hprotective, hprimary, hbackup⟩ := hreached
  simp only [partitionInstallGptChildHandles, allocatePool, hpool, readDisk, hread, Nat.zero_add,
    honDisk, and_self, if_true, hprotective, Bool.true_eq_false, if_false, hprimary, hbackup]
  rfl

theorem install_not_reached
    (hreached : ¬ Reached dev s) :
    ∃ status s', partitionInstallGptChildHandles dev s = Outcome.none status s' := by
  rw [partitionInstallGptChildHandles]
  split
  next s₁ _ => exact ⟨_, _, rfl⟩
  next s₁ halloc =>
    split
    next s₂ _ => exact ⟨_, _, rfl⟩
    next mbr s₂ hread =>
      split
      next hmbr => exact ⟨_, _, rfl⟩
      next hmbr =>
        split
        next s₃ _ => exact ⟨_, _, rfl⟩
        next s₃ halloc' =>
          split
          next s₄ _ => exact ⟨_, _, rfl⟩
          next s₄ halloc'' =>
            refine absurd ?_ hreached
            simp only [allocatePool, Prod.mk.injEq] at halloc
            obtain ⟨hpool, rfl⟩ := halloc
            simp only [readDisk, Prod.mk.injEq] at hread
            obtain ⟨hsome, rfl⟩ := hread
            split_ifs at hsome with h
            simp only [allocatePool, Prod.mk.injEq] at halloc'
            obtain ⟨hprimary, rfl⟩ := halloc'
            simp only [allocatePool, Prod.mk.injEq] at halloc''
            obtain rfl := Option.some_inj.mp hsome
            rw [Nat.zero_add] at h
            exact ⟨hpool, h.1, h.2, Bool.not_eq_false _ ▸ hmbr, hprimary, halloc''.1⟩

theorem fits_zero : Fits dev (List.replicate sizeofHeader 0) :=
  Or.inl (by decide)

/-- A restore or a check later the entry array of a table that passes may be another; without a
restore it is the same. -/
theorem Passes.arrayKept {lba : Nat} {header : Bytes} {s' : IoState}
    (hpasses : Passes dev s.disk lba header)
    (hsame : SameDisk s s') :
    ArrayKept dev s' header := by
  rw [ArrayKept, hsame.disk]
  exact hpasses.array

/-- The tables and what is installed from them. -/
theorem onlyValidated_tables :
    OnlyValidated dev (validated dev s)
        (match checkTables dev s with
        | (none, s) => Outcome.none .notFound s
        | (some primaryHeader, s) => installChildren dev s primaryHeader) ↔
      Trusted dev s := by
  rw [validated, checkTables, Trusted]
  rcases hprimary : partitionValidGptTable dev s 1 (List.replicate sizeofHeader 0)
    with ⟨valid, primaryHeader, s₁⟩
  have hfits := partitionValidGptTable_fits hprimary fits_zero
  obtain ⟨hsame₁, hpasses₁⟩ := partitionValidGptTable_eq hprimary
  cases valid with
  | false =>
      simp only
      rcases hbackup : partitionValidGptTable dev s₁ dev.lastBlock (List.replicate sizeofHeader 0)
        with ⟨valid, backupHeader, s₂⟩
      cases valid with
      | false =>
          simp only [iff_true]
          exact onlyValidated_none
      | true =>
          simp only
          rcases hagain : partitionValidGptTable dev
            (partitionRestoreGptTable dev s₂ backupHeader).2 (alternateLba backupHeader)
            primaryHeader with ⟨valid, again, s₄⟩
          have hfits' := partitionValidGptTable_fits hagain hfits
          cases valid with
          | false =>
              simp only
              rw [onlyValidated_installChildren hfits', mem_singleton]
          | true =>
              obtain ⟨hsame, hpasses⟩ := partitionValidGptTable_eq hagain
              have hkept := (hpasses rfl).arrayKept hsame
              simp only
              rw [onlyValidated_installChildren hfits']
              simp only [mem_cons, true_or, or_true, hkept, and_self, true_and]
  | true =>
      simp only
      rcases hbackup : partitionValidGptTable dev s₁ (alternateLba primaryHeader)
        (List.replicate sizeofHeader 0) with ⟨valid, backupHeader, s₂⟩
      obtain ⟨hsame₂, -⟩ := partitionValidGptTable_eq hbackup
      cases valid with
      | true =>
          have hkept := (hpasses₁ rfl).arrayKept (hsame₁.trans hsame₂)
          simp only
          rw [onlyValidated_installChildren hfits]
          simp only [mem_cons, true_or, hkept, and_self, or_true, true_and]
      | false =>
          simp only
          rcases hagain : partitionValidGptTable dev
            (partitionRestoreGptTable dev s₂ primaryHeader).2 (alternateLba primaryHeader)
            backupHeader with ⟨valid, again, s₄⟩
          rw [onlyValidated_installChildren hfits]
          cases valid with
          | false => simp only [mem_singleton, true_and]
          | true => simp only [mem_cons, true_or, true_and]

end Main

end Children

section Sample

/-- The disk does not take the first write of a restore. -/
def readOnlyDevice : Device :=
  { sampleDevice with answers := fun n => decide (n ≠ 13) }

/-- A header for LBA 7 with the array in block 6. -/
def lastHeader : Bytes :=
  toLE 8 efiPtabHeaderId ++ toLE 4 0x10000 ++ toLE 4 92 ++ toLE 4 0x8CFDC5C7 ++ toLE 4 0 ++ toLE 8 7 ++
    toLE 8 1 ++ toLE 8 3 ++ toLE 8 5 ++ List.replicate 16 0 ++ toLE 8 6 ++ toLE 4 1 ++
    toLE 4 128 ++ toLE 4 0xC2A8FA9D

/-- A used entry for the blocks 3 and 4. -/
def strayEntry : Bytes :=
  List.replicate 16 1 ++ List.replicate 16 0 ++ toLE 8 3 ++ toLE 8 4 ++ List.replicate 80 0

/-- A good copy at LBA 7 with an empty entry, and a primary copy whose entry array does not match
its header. -/
def damagedDisk : Memory := fun a =>
  if 1024 ≤ a ∧ a < 1152 then strayEntry.getD (a - 1024) 0
  else if 3584 ≤ a ∧ a < 3676 then lastHeader.getD (a - 3584) 0
  else sampleDisk goodHeader a

end Sample

end Gpt
end Udk
