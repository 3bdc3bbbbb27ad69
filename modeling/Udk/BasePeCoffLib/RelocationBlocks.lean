import Udk.BasePeCoffLib.Relocation

/-!
# The blocks of a relocation directory

A relocation directory is a row of blocks, each with a page and records that name words of that
page.  The log has a slot for every word, in the order of the records.  Both walks over the
directory work through the same list of words and slots.
-/

namespace Udk
namespace PeCoff

open List

section Blocks

/-- The types of a record. -/
inductive RecordKind
  | absolute
  | low
  | highLow
  | dir64
  deriving DecidableEq, Repr

/-- `EFI_IMAGE_REL_BASED_*`. -/
def RecordKind.code : RecordKind → Nat
  | absolute => 0
  | low => 2
  | highLow => 3
  | dir64 => 10

/-- How many bytes a record adjusts. -/
def RecordKind.width : RecordKind → Nat
  | absolute => 0
  | low => 2
  | highLow => 4
  | dir64 => 8

/-- How the log is aligned for a word. -/
def RecordKind.alignment : RecordKind → Nat
  | absolute => 1
  | low => 1
  | highLow => 4
  | dir64 => 8

/-- A record of a block. -/
structure Record where
  kind : RecordKind
  offset : Nat
  offset_lt : offset < 2 ^ 12
  deriving DecidableEq, Repr

/-- The `UINT16` of a record. -/
def Record.code (r : Record) : Nat :=
  2 ^ 12 * r.kind.code + r.offset

/-- A block of records for one page. -/
structure Block where
  page : Nat
  records : List Record
  deriving DecidableEq, Repr

/-- `SizeOfBlock`. -/
def Block.size (b : Block) : Nat :=
  sizeofBaseRelocation + 2 * b.records.length

/-- A word that a record lists: its place in the image and how it is adjusted. -/
structure Fixup where
  kind : RecordKind
  offset : Nat
  deriving DecidableEq, Repr

/-- The words that a block lists. -/
def Block.fixups (b : Block) : List Fixup :=
  b.records.map fun r => ⟨r.kind, b.page + r.offset⟩

/-- The words that the blocks of a directory list. -/
def fixupsOf (blocks : List Block) : List Fixup :=
  blocks.flatMap Block.fixups

/-- The size of a row of blocks. -/
def sizeOfBlocks (blocks : List Block) : Nat :=
  (blocks.map Block.size).sum

/-- The memory holds records from an address on. -/
def RecordsAt (mem : Memory) : Nat → List Record → Prop
  | _, [] => True
  | addr, r :: rs => word mem addr 2 = r.code ∧ RecordsAt mem (addr + 2) rs

/-- The memory holds blocks from an address on. -/
def BlocksAt (mem : Memory) : Nat → List Block → Prop
  | _, [] => True
  | addr, b :: bs =>
      word mem addr 4 = b.page ∧ word mem (addr + 4) 4 = b.size ∧
        RecordsAt mem (addr + sizeofBaseRelocation) b.records ∧ BlocksAt mem (addr + b.size) bs

end Blocks

section Blocks

variable {mem mem' : Memory} {addr addr' : Nat} {r : Record} {b : Block} {rs : List Record}
  {blocks : List Block}

theorem Record.code_div : r.code / 2 ^ 12 = r.kind.code := by
  rw [Record.code, Nat.mul_add_div (by decide), Nat.div_eq_of_lt r.offset_lt, Nat.add_zero]

theorem Record.code_mod : r.code % 2 ^ 12 = r.offset := by
  rw [Record.code, Nat.mul_add_mod, Nat.mod_eq_of_lt r.offset_lt]

@[simp] theorem sizeOfBlocks_nil : sizeOfBlocks [] = 0 := rfl

@[simp] theorem sizeOfBlocks_cons : sizeOfBlocks (b :: blocks) = b.size + sizeOfBlocks blocks := by
  rw [sizeOfBlocks, map_cons, sum_cons, sizeOfBlocks]

@[simp] theorem fixupsOf_cons : fixupsOf (b :: blocks) = b.fixups ++ fixupsOf blocks := rfl

@[simp] theorem Block.length_fixups : b.fixups.length = b.records.length :=
  length_map _

theorem length_fixupsOf :
    8 * blocks.length + 2 * (fixupsOf blocks).length = sizeOfBlocks blocks := by
  induction blocks with
  | nil => rfl
  | cons b bs ih =>
      rw [fixupsOf_cons, length_append, sizeOfBlocks_cons, Block.length_fixups, Block.size,
        length_cons, sizeofBaseRelocation]
      omega

theorem RecordsAt.congr
    (hsame : ∀ k < 2 * rs.length, mem' (addr' + k) = mem (addr + k))
    (hat : RecordsAt mem addr rs) :
    RecordsAt mem' addr' rs := by
  induction rs generalizing addr addr' with
  | nil => trivial
  | cons r rs ih =>
      rw [length_cons] at hsame
      constructor
      case left => exact (word_congr fun k hk => hsame k (by omega)).trans hat.1
      case right =>
        refine ih (fun k hk => ?_) hat.2
        rw [Nat.add_assoc, Nat.add_assoc]
        exact hsame _ (by omega)

theorem BlocksAt.congr
    (hsame : ∀ k < sizeOfBlocks blocks, mem' (addr' + k) = mem (addr + k))
    (hat : BlocksAt mem addr blocks) :
    BlocksAt mem' addr' blocks := by
  induction blocks generalizing addr addr' with
  | nil => trivial
  | cons b bs ih =>
      rw [sizeOfBlocks_cons] at hsame
      have hsize : b.size = 8 + 2 * b.records.length := rfl
      obtain ⟨hpage, hword, hrecords, hrest⟩ := hat
      refine ⟨?_, ?_, ?_, ?_⟩
      · exact (word_congr fun k hk => hsame k (by omega)).trans hpage
      · refine (word_congr fun k hk => ?_).trans hword
        rw [Nat.add_assoc, Nat.add_assoc]
        exact hsame _ (by omega)
      · refine hrecords.congr fun k hk => ?_
        rw [Nat.add_assoc, Nat.add_assoc]
        exact hsame _ (by rw [sizeofBaseRelocation]; omega)
      · refine ih (fun k hk => ?_) hrest
        rw [Nat.add_assoc, Nat.add_assoc]
        exact hsame _ (by omega)

end Blocks

section Slots

/-- The slot of the log for a word, and 0 without a log. -/
def Fixup.slot (f : Fixup) (fixupData : Nat) : Nat :=
  if fixupData = 0 then 0 else alignPointer fixupData f.kind.alignment

/-- The place in the log behind a word. -/
def Fixup.next (f : Fixup) (fixupData : Nat) : Nat :=
  if fixupData = 0 then 0 else (f.slot fixupData + f.kind.width) % 2 ^ 64

/-- Words with their slots of the log. -/
def withSlots : Nat → List Fixup → List (Fixup × Nat)
  | _, [] => []
  | fixupData, f :: fs => (f, f.slot fixupData) :: withSlots (f.next fixupData) fs

/-- The place in the log behind some words. -/
def logEnd : Nat → List Fixup → Nat
  | fixupData, [] => fixupData
  | fixupData, f :: fs => logEnd (f.next fixupData) fs

variable {fixupData limit : Nat} {f : Fixup} {fs fs' : List Fixup} {p : Fixup × Nat}

theorem withSlots_append :
    withSlots fixupData (fs ++ fs') =
      withSlots fixupData fs ++ withSlots (logEnd fixupData fs) fs' := by
  induction fs generalizing fixupData with
  | nil => rfl
  | cons f fs ih => rw [cons_append, withSlots, ih, withSlots, logEnd, cons_append]

theorem logEnd_append :
    logEnd fixupData (fs ++ fs') = logEnd (logEnd fixupData fs) fs' := by
  induction fs generalizing fixupData with
  | nil => rfl
  | cons f fs ih => rw [cons_append, logEnd, ih, logEnd]

theorem fst_mem_of_mem_withSlots
    (hmem : p ∈ withSlots fixupData fs) :
    p.1 ∈ fs := by
  induction fs generalizing fixupData with
  | nil => exact absurd hmem not_mem_nil
  | cons f fs ih =>
      rcases mem_cons.mp hmem with rfl | hmem
      · exact mem_cons_self
      · exact mem_cons_of_mem _ (ih hmem)

theorem exists_slot
    (hmem : f ∈ fs) :
    ∃ slot, (f, slot) ∈ withSlots fixupData fs := by
  induction fs generalizing fixupData with
  | nil => exact absurd hmem not_mem_nil
  | cons g fs ih =>
      rcases mem_cons.mp hmem with rfl | hmem
      · exact ⟨_, mem_cons_self⟩
      · obtain ⟨slot, hslot⟩ := @ih (g.next fixupData) hmem
        exact ⟨slot, mem_cons_of_mem _ hslot⟩

theorem slot_eq_zero
    (hmem : p ∈ withSlots 0 fs) :
    p.2 = 0 := by
  induction fs with
  | nil => exact absurd hmem not_mem_nil
  | cons f fs ih =>
      rcases mem_cons.mp hmem with rfl | hmem
      · rfl
      · exact ih hmem

/-- The next multiple of 8, which the log does not pass by more than 8 bytes for a word. -/
def roundUp8 (fixupData : Nat) : Nat :=
  8 * ((fixupData + 7) / 8)

theorem slot_bounds
    (hpos : 0 < fixupData)
    (hfits : roundUp8 fixupData + 8 ≤ limit)
    (hlimit : limit < 2 ^ 64) :
    fixupData ≤ f.slot fixupData ∧ f.slot fixupData + f.kind.width ≤ limit ∧
      f.next fixupData = f.slot fixupData + f.kind.width ∧
      roundUp8 (f.next fixupData) ≤ roundUp8 fixupData + 8 := by
  rw [roundUp8] at hfits
  have hne : fixupData ≠ 0 := by omega
  have hslot : fixupData ≤ f.slot fixupData ∧
      f.slot fixupData + f.kind.width ≤ 8 * ((fixupData + 7) / 8) + 8 := by
    rw [Fixup.slot, if_neg hne, alignPointer]
    cases hkind : f.kind
    all_goals
      simp only [RecordKind.alignment, RecordKind.width]
      rw [Nat.mod_eq_of_lt (by omega)]
      omega
  have hnext : f.next fixupData = f.slot fixupData + f.kind.width := by
    rw [Fixup.next, if_neg hne, Nat.mod_eq_of_lt (by omega)]
  refine ⟨hslot.1, by omega, hnext, ?_⟩
  rw [hnext, roundUp8, roundUp8]
  omega

theorem slots_bounds
    (hpos : 0 < fixupData)
    (hfits : roundUp8 fixupData + 8 * fs.length ≤ limit)
    (hlimit : limit < 2 ^ 64)
    (hmem : p ∈ withSlots fixupData fs) :
    fixupData ≤ p.2 ∧ p.2 + p.1.kind.width ≤ limit := by
  induction fs generalizing fixupData with
  | nil => exact absurd hmem not_mem_nil
  | cons f fs ih =>
      rw [length_cons] at hfits
      obtain ⟨hlow, hhigh, hnext, hround⟩ :=
        @slot_bounds fixupData limit f hpos (by omega) hlimit
      rcases mem_cons.mp hmem with rfl | hmem
      · exact ⟨hlow, hhigh⟩
      · have h := ih (by omega) (by omega) hmem
        exact ⟨by omega, h.2⟩

end Slots

end PeCoff
end Udk
