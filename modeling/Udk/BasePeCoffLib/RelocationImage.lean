import Udk.BasePeCoffLib.RelocationWalks

/-!
# Relocating a loaded image

What the updates of a walk leave in the words and in the slots of the log, and what
`PeCoffLoaderRelocateImage` does to an image whose relocation directory is well formed.
-/

namespace Udk
namespace PeCoff

section Values

variable {base size adjust fixupData limit a : Nat} {mem : Memory} {fs : List Fixup}
  {f : Fixup} {p : Fixup × Nat}

theorem slot_apart
    (hin : ∀ f ∈ fs, f.offset + f.kind.width ≤ size)
    (hlog : fixupData = 0 ∨ LogRoom base size fixupData limit fs.length)
    (hmem : p ∈ withSlots fixupData fs)
    (hslot : p.2 ≠ 0) :
    Apart (base + p.1.offset) p.1.kind.width p.2 p.1.kind.width := by
  intro k hk
  have hword := hin p.1 (fst_mem_of_mem_withSlots hmem)
  by_cases hzero : fixupData = 0
  · subst hzero
    exact absurd (slot_eq_zero hmem) hslot
  · have hroom := hlog.resolve_left hzero
    have hbounds := slots_bounds (by omega) hroom.room hroom.limit_lt hmem
    have houtside := hroom.apart
    omega

variable (hdisjoint : DisjointFixups fs)
include hdisjoint

theorem relocateAll_inside
    (hin : ∀ f ∈ fs, f.offset + f.kind.width ≤ size)
    (hlog : fixupData = 0 ∨ LogRoom base size fixupData limit fs.length)
    (hmem : p ∈ withSlots fixupData fs)
    (htouches : Touches base p a) :
    relocateAll base adjust fixupData fs mem a = relocateWord base adjust p mem a := by
  refine @Update.applyAll_inside _ _ _ (relocateUpdate base adjust p) mem a ?_
    (List.mem_map_of_mem hmem) htouches
  exact List.pairwise_map.mpr (pairwise_withSlots hdisjoint hin hlog)

theorem refixAll_inside
    (hin : ∀ f ∈ fs, f.offset + f.kind.width ≤ size)
    (hlog : fixupData = 0 ∨ LogRoom base size fixupData limit fs.length)
    (hmem : p ∈ withSlots fixupData fs)
    (htouches : Touches base p a) :
    refixAll base adjust fixupData fs mem a = refixOneWord base adjust p mem a := by
  refine @Update.applyAll_inside _ _ _ (refixUpdate base adjust p) mem a ?_
    (List.mem_map_of_mem hmem) htouches
  exact List.pairwise_map.mpr (pairwise_withSlots hdisjoint hin hlog)

theorem value_relocateAll
    (hin : ∀ f ∈ fs, f.offset + f.kind.width ≤ size)
    (hlog : fixupData = 0 ∨ LogRoom base size fixupData limit fs.length)
    (hmem : f ∈ fs) :
    f.value (relocateAll base adjust fixupData fs mem) base =
      (f.value mem base + adjust) % 256 ^ f.kind.width := by
  obtain ⟨slot, hslot⟩ := @exists_slot fixupData f fs hmem
  have hone : f.value (relocateAll base adjust fixupData fs mem) base =
      f.value (relocateWord base adjust (f, slot) mem) base :=
    Fixup.value_congr fun a hlow hhigh =>
      relocateAll_inside hdisjoint hin hlog hslot (Or.inl ⟨hlow, hhigh⟩)
  rw [hone, relocateWord]
  split_ifs with hzero
  · rw [Fixup.value_setWord, Nat.add_mod_mod]
  · have hapart := slot_apart hin hlog hslot hzero
    rw [Fixup.value, word_setWord_apart hapart]
    exact Fixup.value_setWord.trans (Nat.add_mod_mod _ _ _)

theorem slot_relocateAll
    (hin : ∀ f ∈ fs, f.offset + f.kind.width ≤ size)
    (hlog : fixupData = 0 ∨ LogRoom base size fixupData limit fs.length)
    (hmem : p ∈ withSlots fixupData fs)
    (hsome : p.2 ≠ 0) :
    word (relocateAll base adjust fixupData fs mem) p.2 p.1.kind.width =
      p.1.value (relocateAll base adjust fixupData fs mem) base := by
  have hslot : word (relocateAll base adjust fixupData fs mem) p.2 p.1.kind.width =
      word (relocateWord base adjust p mem) p.2 p.1.kind.width :=
    word_congr fun k hk => relocateAll_inside hdisjoint hin hlog hmem
      (Or.inr ⟨hsome, by omega, by omega⟩)
  rw [hslot, value_relocateAll hdisjoint hin hlog (fst_mem_of_mem_withSlots hmem), relocateWord,
    if_neg hsome, word_setWord, Fixup.value_setWord, Nat.mod_mod, Nat.add_mod_mod]

theorem value_refixAll
    (hin : ∀ f ∈ fs, f.offset + f.kind.width ≤ size)
    (hlog : fixupData = 0 ∨ LogRoom base size fixupData limit fs.length)
    (hmem : p ∈ withSlots fixupData fs)
    (hsome : p.2 ≠ 0) :
    p.1.value (refixAll base adjust fixupData fs mem) base =
      if word mem p.2 p.1.kind.width = p.1.value mem base then
        (p.1.value mem base + adjust) % 256 ^ p.1.kind.width
      else
        p.1.value mem base := by
  have hone : p.1.value (refixAll base adjust fixupData fs mem) base =
      p.1.value (refixOneWord base adjust p mem) base :=
    Fixup.value_congr fun a hlow hhigh =>
      refixAll_inside hdisjoint hin hlog hmem (Or.inl ⟨hlow, hhigh⟩)
  rw [hone, refixOneWord]
  simp only [ne_eq, hsome, not_false_eq_true, true_and]
  split_ifs
  · rw [Fixup.value_setWord, Nat.add_mod_mod]
  · rfl

end Values

section Arithmetic

variable {a b linked physical virtual : Nat} {kind : RecordKind}

theorem sub64_eq_zero
    (ha : a < 2 ^ 64) (hb : b < 2 ^ 64) :
    sub64 a b = 0 ↔ a = b := by
  rw [sub64]
  omega

theorem adjust_int
    (hb : b < 2 ^ 64) {value : Nat} :
    (((value + sub64 a b) % 256 ^ kind.width : Nat) : Int) =
      ((value : Int) + a - b) % 256 ^ kind.width := by
  rw [sub64]
  cases kind
  all_goals
    simp only [RecordKind.width]
    omega

theorem adjust_adjust
    (hlinked : linked < 2 ^ 64) (hphysical : physical < 2 ^ 64) {value : Nat} :
    ((value + sub64 physical linked) % 256 ^ kind.width + sub64 virtual physical) %
        256 ^ kind.width =
      (value + sub64 virtual linked) % 256 ^ kind.width := by
  rw [sub64, sub64, sub64]
  cases kind
  all_goals
    simp only [RecordKind.width]
    omega

end Arithmetic

section Loaded

/-- The address of the PE header. -/
def ImageContext.hdr (ctx : ImageContext) : Nat :=
  ctx.imageAddress + ctx.peCoffHeaderOffset

/-- The image offset of the relocation directory. -/
def relocRva (ctx : ImageContext) (mem : Memory) : Nat :=
  dirVirtualAddress mem (relocDirEntry mem ctx.hdr)

/-- The image offset of the `ImageBase` field. -/
def imageBaseOffset (ctx : ImageContext) (mem : Memory) : Nat :=
  imageBaseField mem ctx.hdr - ctx.imageAddress

/-- The offsets of the DOS header, of the PE header up to its directory entry, and of the
relocation directory. -/
def HeaderOffset (ctx : ImageContext) (mem : Memory) (blocks : List Block) (k : Nat) : Prop :=
  k < 64 ∨ (ctx.peCoffHeaderOffset ≤ k ∧ k < ctx.peCoffHeaderOffset + 184) ∨
    (relocRva ctx mem ≤ k ∧ k < relocRva ctx mem + sizeOfBlocks blocks)

instance (ctx : ImageContext) (mem : Memory) (blocks : List Block) (k : Nat) :
    Decidable (HeaderOffset ctx mem blocks k) :=
  inferInstanceAs (Decidable (_ ∨ _ ∧ _ ∨ _ ∧ _))

/-- A PE32 or PE32+ image that has been loaded, with the blocks of its relocation directory. -/
structure LoadedImage (ctx : ImageContext) (mem : Memory) (blocks : List Block) : Prop where
  notTe : ctx.isTeImage = false
  notStripped : ctx.relocationsStripped = false
  address_ne : ctx.imageAddress ≠ 0
  fits : ctx.imageAddress + ctx.imageSize < 2 ^ 64
  destination_lt : ctx.destinationAddress < 2 ^ 64
  headers_in : ctx.peCoffHeaderOffset + 184 ≤ ctx.imageSize
  headerOffset : ctx.peCoffHeaderOffset =
    if word mem ctx.imageAddress 2 = dosSignature then word mem (ctx.imageAddress + 60) 4 else 0
  signature : word mem ctx.hdr 4 = ntSignature
  dosHeader : word mem ctx.imageAddress 2 = dosSignature →
    Apart 60 4 (imageBaseOffset ctx mem) (imageBaseWidth mem ctx.hdr)
  directories : directoryEntryBaseReloc < numberOfRvaAndSizes mem ctx.hdr
  dir_size : dirSize mem (relocDirEntry mem ctx.hdr) = sizeOfBlocks blocks
  dir_in : relocRva ctx mem + sizeOfBlocks blocks ≤ ctx.imageSize
  dir_le : relocRva ctx mem + sizeOfBlocks blocks ≤ 2 ^ 32
  dir_apart : Apart (relocRva ctx mem) (sizeOfBlocks blocks) (imageBaseOffset ctx mem)
    (imageBaseWidth mem ctx.hdr)
  blocksAt : BlocksAt mem (ctx.imageAddress + relocRva ctx mem) blocks
  blocks_in : ∀ b ∈ blocks, b.InImage ctx.imageSize
  fixups_in : ∀ f ∈ fixupsOf blocks, f.offset + f.kind.width ≤ ctx.imageSize
  disjoint : DisjointFixups (fixupsOf blocks)
  behind : ∀ f ∈ fixupsOf blocks, ∀ k < f.kind.width,
    ¬ HeaderOffset ctx mem blocks (f.offset + k)

/-- `FixupDataSize`, as `PeCoffLoaderLoadImage` computes it. -/
def fixupDataSize (mem : Memory) (hdr : Nat) : Nat :=
  if directoryEntryBaseReloc < numberOfRvaAndSizes mem hdr then
    dirSize mem (relocDirEntry mem hdr) / 2 * 8
  else
    0

/-- The log buffer has its size, apart from an image at an address. -/
structure LogBuffer (ctx : ImageContext) (mem : Memory) (base : Nat) : Prop where
  ne_zero : ctx.fixupData ≠ 0
  fits : ctx.fixupData + fixupDataSize mem ctx.hdr < 2 ^ 64
  apart : ctx.fixupData + fixupDataSize mem ctx.hdr ≤ base ∨
    base + ctx.imageSize ≤ ctx.fixupData

end Loaded

section Headers

variable {mem mem' : Memory} {hdr hdr' : Nat}

/-- Two memories have the same PE header, up to `ImageBase`. -/
structure SameHeaders (mem : Memory) (hdr : Nat) (mem' : Memory) (hdr' : Nat) : Prop where
  signature : word mem' hdr' 4 = word mem hdr 4
  isPe32 : IsPe32 mem' hdr' ↔ IsPe32 mem hdr
  number : numberOfRvaAndSizes mem' hdr' = numberOfRvaAndSizes mem hdr
  rva : dirVirtualAddress mem' (relocDirEntry mem' hdr') =
    dirVirtualAddress mem (relocDirEntry mem hdr)
  size : dirSize mem' (relocDirEntry mem' hdr') = dirSize mem (relocDirEntry mem hdr)

theorem sameHeaders
    (hsame : ∀ k < 184, k < 48 ∨ 56 ≤ k → mem' (hdr' + k) = mem (hdr + k)) :
    SameHeaders mem hdr mem' hdr' := by
  have hword : ∀ offset width, offset + width ≤ 48 ∨ 56 ≤ offset → offset + width ≤ 184 →
      word mem' (hdr' + offset) width = word mem (hdr + offset) width := by
    intro offset width hout hin
    refine word_congr fun k hk => ?_
    rw [Nat.add_assoc, Nat.add_assoc]
    exact hsame _ (by omega) (by omega)
  have hpe : IsPe32 mem' hdr' ↔ IsPe32 mem hdr := by
    rw [IsPe32, IsPe32, peCoffLoaderGetPeHeaderMagicValue, peCoffLoaderGetPeHeaderMagicValue,
      hword 4 2 (by omega) (by omega), hword 24 2 (by omega) (by omega)]
  have hentry : ∀ offset, offset < 8 → ∀ width, offset + width ≤ 8 →
      word mem' (relocDirEntry mem' hdr' + offset) width =
        word mem (relocDirEntry mem hdr + offset) width := by
    intro offset hoffset width hwidth
    simp only [relocDirEntry, directoryEntryBaseReloc, hpe]
    split_ifs
    · have hsum : ∀ n, n + 120 + 8 * 5 + offset = n + (160 + offset) := fun n => by omega
      rw [hsum hdr, hsum hdr']
      exact hword (160 + offset) width (by omega) (by omega)
    · have hsum : ∀ n, n + 136 + 8 * 5 + offset = n + (176 + offset) := fun n => by omega
      rw [hsum hdr, hsum hdr']
      exact hword (176 + offset) width (by omega) (by omega)
  refine ⟨hword 0 4 (by omega) (by omega), hpe, ?_, hentry 0 (by omega) 4 (by omega),
    hentry 4 (by omega) 4 (by omega)⟩
  simp only [numberOfRvaAndSizes, hpe]
  split_ifs
  · exact hword 116 4 (by omega) (by omega)
  · exact hword 132 4 (by omega) (by omega)

theorem imageBaseField_bounds :
    hdr + 48 ≤ imageBaseField mem hdr ∧
      imageBaseField mem hdr + imageBaseWidth mem hdr = hdr + 56 := by
  rw [imageBaseField, imageBaseWidth]
  split_ifs
  all_goals omega

theorem imageBase_lt : imageBase mem hdr < 2 ^ 64 := by
  refine lt_of_lt_of_le word_lt ?_
  rw [imageBaseWidth]
  split_ifs
  all_goals decide

end Headers

section FirstWalk

variable {ctx : ImageContext} {mem : Memory} {blocks : List Block}

/-- The memory with the new `ImageBase`. -/
def withImageBase (ctx : ImageContext) (mem : Memory) : Memory :=
  if sub64 ctx.baseAddress (imageBase mem ctx.hdr) ≠ 0 then
    setWord mem (imageBaseField mem ctx.hdr) (imageBaseWidth mem ctx.hdr) ctx.baseAddress
  else
    mem

theorem withImageBase_outside {a : Nat}
    (hout : a < imageBaseField mem ctx.hdr ∨
      imageBaseField mem ctx.hdr + imageBaseWidth mem ctx.hdr ≤ a) :
    withImageBase ctx mem a = mem a := by
  rw [withImageBase]
  split_ifs
  · exact setWord_outside hout
  · rfl

theorem LoadedImage.base_lt
    (himage : LoadedImage ctx mem blocks) :
    ctx.baseAddress < 2 ^ 64 := by
  have hfits := himage.fits
  have hdest := himage.destination_lt
  rw [ImageContext.baseAddress]
  split_ifs
  all_goals omega

theorem LoadedImage.locate
    (himage : LoadedImage ctx mem blocks) :
    locateRelocations ctx mem =
      { relocDir := some (relocDirEntry mem ctx.hdr), teStrippedOffset := 0,
        adjust := sub64 ctx.baseAddress (imageBase mem ctx.hdr), mem := withImageBase ctx mem } := by
  have hhdr : (ctx.imageAddress + ctx.peCoffHeaderOffset) % 2 ^ 64 = ctx.hdr :=
    Nat.mod_eq_of_lt (by have := himage.headers_in; have := himage.fits; omega)
  have hdirectories := himage.directories
  rw [locateRelocations, himage.notTe]
  simp only [Bool.false_eq_true, if_false, hhdr]
  rw [if_neg (by omega)]
  rfl

theorem LoadedImage.sameHeaders_base
    (_ : LoadedImage ctx mem blocks) :
    SameHeaders mem ctx.hdr (withImageBase ctx mem) ctx.hdr := by
  refine sameHeaders fun k hk hout => withImageBase_outside ?_
  have hbounds := @imageBaseField_bounds mem ctx.hdr
  omega

theorem LoadedImage.relocDirEntry_base
    (himage : LoadedImage ctx mem blocks) :
    relocDirEntry (withImageBase ctx mem) ctx.hdr = relocDirEntry mem ctx.hdr := by
  rw [relocDirEntry, relocDirEntry]
  simp only [himage.sameHeaders_base.isPe32]

theorem LoadedImage.blocksAt_base
    (himage : LoadedImage ctx mem blocks) :
    BlocksAt (withImageBase ctx mem) (ctx.imageAddress + relocRva ctx mem) blocks := by
  refine himage.blocksAt.congr fun k hk => withImageBase_outside ?_
  have hapart := himage.dir_apart k hk
  have hbounds := @imageBaseField_bounds mem ctx.hdr
  rw [imageBaseOffset, ImageContext.hdr] at hapart
  rw [ImageContext.hdr] at hbounds ⊢
  omega

theorem LogBuffer.logRoom {base : Nat}
    (himage : LoadedImage ctx mem blocks)
    (hlog : LogBuffer ctx mem base)
    (hsome : blocks ≠ []) :
    LogRoom base ctx.imageSize ctx.fixupData (ctx.fixupData + fixupDataSize mem ctx.hdr)
      (fixupsOf blocks).length := by
  have hlength := @length_fixupsOf blocks
  have hblocks : 0 < blocks.length := List.length_pos_of_ne_nil hsome
  have hsize : fixupDataSize mem ctx.hdr = sizeOfBlocks blocks / 2 * 8 := by
    rw [fixupDataSize, if_pos himage.directories, himage.dir_size]
  refine ⟨?_, hlog.fits, hlog.apart⟩
  rw [hsize, roundUp8]
  omega

/-- No log, or a log with room. -/
def LogFor (ctx : ImageContext) (mem : Memory) (blocks : List Block) : Prop :=
  ctx.fixupData = 0 ∨ LogRoom ctx.imageAddress ctx.imageSize ctx.fixupData
    (ctx.fixupData + fixupDataSize mem ctx.hdr) (fixupsOf blocks).length

theorem LoadedImage.spares {base fixupData limit addr len : Nat}
    (himage : LoadedImage ctx mem blocks)
    (hlog : fixupData = 0 ∨ LogRoom base ctx.imageSize fixupData limit (fixupsOf blocks).length)
    (hin : addr + len ≤ ctx.imageSize)
    (hread : ∀ k < len, HeaderOffset ctx mem blocks (addr + k)) :
    Spares base (withSlots fixupData (fixupsOf blocks)) (base + addr) len := by
  intro p hp k hk htouches
  have hbehind := himage.behind p.1 (fst_mem_of_mem_withSlots hp)
  rcases htouches with hword | hslot
  · refine hbehind (addr + k - p.1.offset) (by omega) ?_
    have hsum : p.1.offset + (addr + k - p.1.offset) = addr + k := by omega
    rw [hsum]
    exact hread k hk
  · by_cases hzero : fixupData = 0
    · subst hzero
      exact hslot.1 (slot_eq_zero hp)
    · have hroom := hlog.resolve_left hzero
      have hbounds := slots_bounds (by omega) hroom.room hroom.limit_lt hp
      have hapart := hroom.apart
      omega

theorem noNullSlot {base size fixupData limit : Nat} {fs : List Fixup}
    (hlog : fixupData = 0 ∨ LogRoom base size fixupData limit fs.length) :
    NoNullSlot fixupData fs := by
  intro hsome p hp
  have hroom := hlog.resolve_left hsome
  have hbounds := slots_bounds (by omega) hroom.room hroom.limit_lt hp
  omega

theorem LoadedImage.directory_base
    (himage : LoadedImage ctx mem blocks) :
    dirVirtualAddress (withImageBase ctx mem) (relocDirEntry mem ctx.hdr) = relocRva ctx mem ∧
      dirSize (withImageBase ctx mem) (relocDirEntry mem ctx.hdr) = sizeOfBlocks blocks := by
  have hrva := himage.sameHeaders_base.rva
  have hsize := himage.sameHeaders_base.size
  rw [himage.relocDirEntry_base] at hrva hsize
  exact ⟨hrva, hsize.trans himage.dir_size⟩

theorem relocDirEntry_bounds {hdr : Nat} :
    hdr + 56 ≤ relocDirEntry mem hdr ∧ relocDirEntry mem hdr + 8 ≤ hdr + 184 := by
  rw [relocDirEntry, directoryEntryBaseReloc]
  split_ifs
  all_goals omega

/-- The first walk over the directory of a loaded image. -/
theorem LoadedImage.walk
    (himage : LoadedImage ctx mem blocks)
    (hlog : blocks ≠ [] → LogFor ctx mem blocks)
    (hlt : ctx.fixupData < 2 ^ 64)
    (adjust : Nat) :
    ∃ relocBase relocBaseEnd,
      relocationBounds ctx
          { relocDir := some (relocDirEntry mem ctx.hdr), teStrippedOffset := 0,
            adjust := adjust, mem := withImageBase ctx mem } =
        some (relocDirEntry mem ctx.hdr, relocBase, relocBaseEnd) ∧
      relocateBlocks ctx 0 adjust (relocDirEntry mem ctx.hdr) relocBase relocBaseEnd
          (relocBaseEnd - relocBase) relocBase ⟨withImageBase ctx mem, ctx.fixupData⟩ =
        (.success, ⟨relocateAll ctx.imageAddress adjust ctx.fixupData (fixupsOf blocks)
          (withImageBase ctx mem), logEnd ctx.fixupData (fixupsOf blocks)⟩) := by
  obtain ⟨hrva, hsize⟩ := himage.directory_base
  by_cases hsome : blocks = []
  · subst hsome
    refine ⟨0, 0, ?_, ?_⟩
    · rw [relocationBounds]
      simp only [hsize, sizeOfBlocks_nil]
      rw [if_neg (Nat.lt_irrefl 0)]
    · rw [Nat.sub_zero, relocateBlocks]
      rfl
  · have hfits := himage.fits
    have hin := himage.dir_in
    have hle := himage.dir_le
    have hne := himage.address_ne
    have hheaders := himage.headers_in
    have hblocks : 0 < blocks.length := List.length_pos_of_ne_nil hsome
    have hlength := @length_fixupsOf blocks
    have hentry := @relocDirEntry_bounds mem ctx.hdr
    have hhdr : ctx.hdr = ctx.imageAddress + ctx.peCoffHeaderOffset := rfl
    have hend : (relocRva ctx mem + sizeOfBlocks blocks + (2 ^ 32 - 1)) % 2 ^ 32 =
        relocRva ctx mem + sizeOfBlocks blocks - 1 := by omega
    have hfirst := @imageAddress_eq ctx (relocRva ctx mem) hfits (by omega)
    have hlast := @imageAddress_eq ctx (relocRva ctx mem + sizeOfBlocks blocks - 1) hfits
      (by omega)
    have hroom := hlog hsome
    refine ⟨ctx.imageAddress + relocRva ctx mem,
      ctx.imageAddress + (relocRva ctx mem + sizeOfBlocks blocks - 1), ?_, ?_⟩
    · rw [relocationBounds]
      simp only [hrva, hsize, hend, hfirst, hlast]
      rw [if_pos (by omega), if_neg (by omega)]
    · refine relocateBlocks_eq hne hfits himage.blocks_in himage.blocksAt_base (by omega)
        (by rw [hsize]; omega) (by omega) (by omega) hlt (noNullSlot hroom)
        (himage.spares hroom hin fun k hk => Or.inr (Or.inr (by omega))) ?_
      have hplace : ctx.imageAddress + (relocDirEntry mem ctx.hdr + 4 - ctx.imageAddress) =
          relocDirEntry mem ctx.hdr + 4 := by omega
      rw [← hplace]
      exact himage.spares hroom (by omega) fun k hk => Or.inr (Or.inl (by omega))

/-- What the first call leaves of a loaded image. -/
def relocatedMem (ctx : ImageContext) (mem : Memory) (blocks : List Block) : Memory :=
  if sub64 ctx.baseAddress (imageBase mem ctx.hdr) ≠ 0 then
    relocateAll ctx.imageAddress (sub64 ctx.baseAddress (imageBase mem ctx.hdr))
      ctx.fixupData (fixupsOf blocks) (withImageBase ctx mem)
  else
    mem

theorem LoadedImage.applyRelocations_eq
    (himage : LoadedImage ctx mem blocks)
    (hlog : blocks ≠ [] → LogFor ctx mem blocks)
    (hlt : ctx.fixupData < 2 ^ 64) :
    (applyRelocations ctx mem).status = .success ∧
      (applyRelocations ctx mem).mem = relocatedMem ctx mem blocks := by
  obtain ⟨relocBase, relocBaseEnd, hbounds, hwalk⟩ :=
    himage.walk hlog hlt (sub64 ctx.baseAddress (imageBase mem ctx.hdr))
  rw [applyRelocations, himage.locate, relocatedMem]
  simp only [hbounds, hwalk]
  by_cases hadjust : sub64 ctx.baseAddress (imageBase mem ctx.hdr) ≠ 0
  · rw [if_pos hadjust, if_pos hadjust]
    exact ⟨rfl, rfl⟩
  · rw [if_neg hadjust, if_neg hadjust, withImageBase, if_neg hadjust]
    exact ⟨rfl, rfl⟩

theorem LoadedImage.relocateImage_eq
    (himage : LoadedImage ctx mem blocks)
    (hlog : blocks ≠ [] → LogFor ctx mem blocks)
    (hlt : ctx.fixupData < 2 ^ 64) :
    (peCoffLoaderRelocateImage ctx mem).status = .success ∧
      (peCoffLoaderRelocateImage ctx mem).mem = relocatedMem ctx mem blocks := by
  have hstripped : ({ ctx with imageError := .success } : ImageContext).relocationsStripped ≠
      true := ne_true_of_eq_false himage.notStripped
  rw [peCoffLoaderRelocateImage, if_neg hstripped]
  exact @LoadedImage.applyRelocations_eq { ctx with imageError := .success } mem blocks
    { himage with } hlog hlt

end FirstWalk

end PeCoff
end Udk
