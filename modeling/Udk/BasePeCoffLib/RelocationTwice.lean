import Udk.BasePeCoffLib.RelocationImage

/-!
# Relocation twice

An image is relocated to a base address with a log, runs there, and is relocated again for a
virtual address.  A word that has kept its value should then be the word of an image that was
relocated to the virtual address at once.
-/

namespace Udk
namespace PeCoff

variable {ctx : ImageContext} {mem mid : Memory} {blocks : List Block}

section FirstCall

/-- An address belongs to a listed word of the image. -/
def Listed (ctx : ImageContext) (blocks : List Block) (a : Nat) : Prop :=
  ∃ f ∈ fixupsOf blocks, ctx.imageAddress + f.offset ≤ a ∧
    a < ctx.imageAddress + f.offset + f.kind.width

/-- An address belongs to the `ImageBase` field. -/
def InImageBase (ctx : ImageContext) (mem : Memory) (a : Nat) : Prop :=
  imageBaseField mem ctx.hdr ≤ a ∧ a < imageBaseField mem ctx.hdr + imageBaseWidth mem ctx.hdr

/-- An address belongs to the log buffer. -/
def InLog (ctx : ImageContext) (mem : Memory) (a : Nat) : Prop :=
  ctx.fixupData ≤ a ∧ a < ctx.fixupData + fixupDataSize mem ctx.hdr

/-- The first call adds the difference of the bases to the listed words, and changes nothing else
but `ImageBase` and the log. -/
structure RelocatesExactly (ctx : ImageContext) (mem : Memory) (blocks : List Block) : Prop where
  status : (peCoffLoaderRelocateImage ctx mem).status = .success
  words : ∀ f ∈ fixupsOf blocks,
    (f.value (peCoffLoaderRelocateImage ctx mem).mem ctx.imageAddress : Int) =
      ((f.value mem ctx.imageAddress : Int) + ctx.baseAddress - imageBase mem ctx.hdr) %
        256 ^ f.kind.width
  others : ∀ a, ¬ Listed ctx blocks a → ¬ InImageBase ctx mem a →
    (ctx.fixupData ≠ 0 → ¬ InLog ctx mem a) →
    (peCoffLoaderRelocateImage ctx mem).mem a = mem a

theorem LoadedImage.value_relocatedMem {f : Fixup}
    (himage : LoadedImage ctx mem blocks)
    (hlog : blocks ≠ [] → LogFor ctx mem blocks)
    (hmem : f ∈ fixupsOf blocks) :
    f.value (relocatedMem ctx mem blocks) ctx.imageAddress =
      (f.value mem ctx.imageAddress + sub64 ctx.baseAddress (imageBase mem ctx.hdr)) %
        256 ^ f.kind.width := by
  have hsome : blocks ≠ [] := by
    rintro rfl
    exact absurd hmem List.not_mem_nil
  rw [relocatedMem]
  split_ifs with hadjust
  · have hkept : f.value (withImageBase ctx mem) ctx.imageAddress = f.value mem ctx.imageAddress := by
      refine Fixup.value_congr fun a hlow hhigh => withImageBase_outside ?_
      have hbehind := himage.behind f hmem (a - (ctx.imageAddress + f.offset)) (by omega)
      have hbounds := @imageBaseField_bounds mem ctx.hdr
      have hhdr : ctx.hdr = ctx.imageAddress + ctx.peCoffHeaderOffset := rfl
      rw [HeaderOffset] at hbehind
      omega
    rw [value_relocateAll himage.disjoint himage.fixups_in (hlog hsome) hmem, hkept]
  · have hzero : sub64 ctx.baseAddress (imageBase mem ctx.hdr) = 0 := not_not.mp hadjust
    rw [hzero, Nat.add_zero]
    exact (Nat.mod_eq_of_lt word_lt).symm

theorem LoadedImage.relocatedMem_other {a : Nat}
    (himage : LoadedImage ctx mem blocks)
    (hlog : blocks ≠ [] → LogFor ctx mem blocks)
    (hlisted : ¬ Listed ctx blocks a)
    (hbase : ¬ InImageBase ctx mem a)
    (hout : ctx.fixupData ≠ 0 → ¬ InLog ctx mem a) :
    relocatedMem ctx mem blocks a = mem a := by
  rw [relocatedMem]
  split_ifs with hadjust
  · have hkept : withImageBase ctx mem a = mem a := by
      refine withImageBase_outside ?_
      rw [InImageBase] at hbase
      omega
    rw [relocateAll, Update.applyAll_outside, hkept]
    intro u hu htouches
    obtain ⟨p, hp, rfl⟩ := List.mem_map.mp hu
    have hmem := fst_mem_of_mem_withSlots hp
    have hsome : blocks ≠ [] := by
      rintro rfl
      exact absurd hmem List.not_mem_nil
    rcases htouches with hword | hslot
    · exact hlisted ⟨p.1, hmem, hword⟩
    · by_cases hzero : ctx.fixupData = 0
      · rw [hzero] at hp
        exact hslot.1 (slot_eq_zero hp)
      · have hroom := (hlog hsome).resolve_left hzero
        have hbounds := slots_bounds (by omega) hroom.room hroom.limit_lt hp
        exact hout hzero ⟨by omega, by omega⟩
  · rfl

theorem LoadedImage.relocatesExactly
    (himage : LoadedImage ctx mem blocks)
    (hlog : blocks ≠ [] → LogFor ctx mem blocks)
    (hlt : ctx.fixupData < 2 ^ 64) :
    RelocatesExactly ctx mem blocks := by
  obtain ⟨hstatus, hmem⟩ := himage.relocateImage_eq hlog hlt
  constructor
  case status => exact hstatus
  case words =>
    intro f hf
    rw [hmem, himage.value_relocatedMem hlog hf]
    exact adjust_int imageBase_lt
  case others =>
    intro a hlisted hbase hout
    rw [hmem]
    exact himage.relocatedMem_other hlog hlisted hbase hout

end FirstCall

section SecondCall

/-- The memory when the second call is made: the image has been carried to its base address, where
it runs; its headers, its relocation directory and the log are as the first call left them. -/
structure CarriedOver (ctx : ImageContext) (mem : Memory) (blocks : List Block)
    (relocated mid : Memory) : Prop where
  headers : ∀ k, HeaderOffset ctx mem blocks k →
    mid (ctx.baseAddress + k) = relocated (ctx.imageAddress + k)
  log : ∀ a, InLog ctx mem a → mid a = relocated a

/-- The second call gives a word that was not modified the value of a direct relocation, and leaves
a word that was modified. -/
def RelocatesAgain (ctx : ImageContext) (mem : Memory) (blocks : List Block) : Prop :=
  ∀ (virtual : Nat) (mid : Memory), 0 < virtual → virtual < 2 ^ 64 →
    CarriedOver ctx mem blocks (peCoffLoaderRelocateImage ctx mem).mem mid →
    ∃ after,
      (∀ fuel, ctx.imageSize < fuel →
        peCoffLoaderRelocateImageForRuntime fuel ctx.baseAddress virtual ctx.fixupData mid =
          some after) ∧
      ∀ f ∈ fixupsOf blocks,
        (f.value mid ctx.baseAddress =
            f.value (peCoffLoaderRelocateImage ctx mem).mem ctx.imageAddress →
          f.value after ctx.baseAddress =
            f.value (peCoffLoaderRelocateImage
              { ctx with destinationAddress := virtual, fixupData := 0 } mem).mem
              ctx.imageAddress) ∧
        (f.value mid ctx.baseAddress ≠
            f.value (peCoffLoaderRelocateImage ctx mem).mem ctx.imageAddress →
          f.value after ctx.baseAddress = f.value mid ctx.baseAddress)

theorem HeaderOffset.lt {k : Nat}
    (hk : HeaderOffset ctx mem blocks k)
    (himage : LoadedImage ctx mem blocks) :
    k < ctx.imageSize := by
  have hheaders := himage.headers_in
  have hdir := himage.dir_in
  rw [HeaderOffset] at hk
  omega

theorem logFor
    (himage : LoadedImage ctx mem blocks)
    (hlog : LogBuffer ctx mem ctx.imageAddress) :
    blocks ≠ [] → LogFor ctx mem blocks :=
  fun hsome => Or.inr (hlog.logRoom himage hsome)

theorem LoadedImage.header_kept {k : Nat}
    (himage : LoadedImage ctx mem blocks)
    (hlog : LogBuffer ctx mem ctx.imageAddress)
    (hk : HeaderOffset ctx mem blocks k)
    (hbase : ¬ InImageBase ctx mem (ctx.imageAddress + k)) :
    relocatedMem ctx mem blocks (ctx.imageAddress + k) = mem (ctx.imageAddress + k) := by
  have hlt := hk.lt himage
  refine himage.relocatedMem_other (logFor himage hlog) ?_ hbase ?_
  · rintro ⟨f, hf, hlow, hhigh⟩
    have hbehind := himage.behind f hf (k - f.offset) (by omega)
    have hsum : f.offset + (k - f.offset) = k := by omega
    rw [hsum] at hbehind
    exact hbehind hk
  · intro _ hin
    have hapart := hlog.apart
    rw [InLog] at hin
    omega

section Carried

variable (hcarried : CarriedOver ctx mem blocks (relocatedMem ctx mem blocks) mid)
  (himage : LoadedImage ctx mem blocks)
  (hlog : LogBuffer ctx mem ctx.imageAddress)

include hcarried himage hlog

theorem CarriedOver.header {k : Nat}
    (hk : HeaderOffset ctx mem blocks k)
    (hbase : ¬ InImageBase ctx mem (ctx.imageAddress + k)) :
    mid (ctx.baseAddress + k) = mem (ctx.imageAddress + k) :=
  (hcarried.headers k hk).trans (himage.header_kept hlog hk hbase)

theorem CarriedOver.sameHeaders :
    SameHeaders mem ctx.hdr mid (ctx.baseAddress + ctx.peCoffHeaderOffset) := by
  refine Udk.PeCoff.sameHeaders fun k hk hout => ?_
  have hbounds := @imageBaseField_bounds mem ctx.hdr
  have hhdr : ctx.hdr = ctx.imageAddress + ctx.peCoffHeaderOffset := rfl
  rw [hhdr, Nat.add_assoc, Nat.add_assoc]
  refine hcarried.header himage hlog (Or.inr (Or.inl ⟨by omega, by omega⟩)) ?_
  rw [InImageBase]
  omega

theorem CarriedOver.findHeader
    (hfits : ctx.baseAddress + ctx.imageSize < 2 ^ 64) :
    (if word mid ctx.baseAddress 2 = dosSignature then
      (ctx.baseAddress + word mid (ctx.baseAddress + 60) 4) % 2 ^ 64
    else
      ctx.baseAddress) = ctx.baseAddress + ctx.peCoffHeaderOffset := by
  have hbounds := @imageBaseField_bounds mem ctx.hdr
  have hhdr : ctx.hdr = ctx.imageAddress + ctx.peCoffHeaderOffset := rfl
  have hheaders := himage.headers_in
  have hmagic : word mid ctx.baseAddress 2 = word mem ctx.imageAddress 2 := by
    refine word_congr fun k hk => hcarried.header himage hlog (Or.inl (by omega)) ?_
    rw [InImageBase]
    omega
  have hoffset := himage.headerOffset
  rw [hmagic]
  split_ifs with hdos
  · have hlfanew : word mid (ctx.baseAddress + 60) 4 = word mem (ctx.imageAddress + 60) 4 := by
      refine word_congr fun k hk => ?_
      have hapart := himage.dosHeader hdos k hk
      rw [imageBaseOffset] at hapart
      rw [Nat.add_assoc, Nat.add_assoc]
      refine hcarried.header himage hlog (Or.inl (by omega)) ?_
      rw [InImageBase]
      omega
    rw [if_pos hdos] at hoffset
    rw [hlfanew, ← hoffset, Nat.mod_eq_of_lt (by omega)]
  · rw [if_neg hdos] at hoffset
    rw [hoffset, Nat.add_zero]

theorem CarriedOver.blocksAt :
    BlocksAt mid (ctx.baseAddress + relocRva ctx mem) blocks := by
  refine himage.blocksAt.congr fun k hk => ?_
  have hapart := himage.dir_apart k hk
  have hbounds := @imageBaseField_bounds mem ctx.hdr
  have hhdr : ctx.hdr = ctx.imageAddress + ctx.peCoffHeaderOffset := rfl
  rw [imageBaseOffset] at hapart
  rw [Nat.add_assoc, Nat.add_assoc]
  refine hcarried.header himage hlog (Or.inr (Or.inr ⟨by omega, by omega⟩)) ?_
  rw [InImageBase]
  omega

/-- The second call on an image that was carried over. -/
theorem CarriedOver.forRuntime_eq {fuel virtual : Nat}
    (hlogBase : LogBuffer ctx mem ctx.baseAddress)
    (hfits : ctx.baseAddress + ctx.imageSize < 2 ^ 64)
    (hfuel : ctx.imageSize < fuel) :
    peCoffLoaderRelocateImageForRuntime fuel ctx.baseAddress virtual ctx.fixupData mid =
      some (refixAll ctx.baseAddress (sub64 virtual ctx.baseAddress) ctx.fixupData
        (fixupsOf blocks) mid) := by
  have hsame := hcarried.sameHeaders himage hlog
  have hin := himage.dir_in
  have hheaders := himage.headers_in
  have hdirectories := himage.directories
  have hentry := @relocDirEntry_bounds mid (ctx.baseAddress + ctx.peCoffHeaderOffset)
  have hrva : dirVirtualAddress mid (relocDirEntry mid
      (ctx.baseAddress + ctx.peCoffHeaderOffset)) = relocRva ctx mem := hsame.rva
  have hsize := hsame.size.trans himage.dir_size
  rw [peCoffLoaderRelocateImageForRuntime]
  simp only [hcarried.findHeader himage hlog hfits]
  rw [if_neg (not_not_intro (hsame.signature.trans himage.signature)),
    if_pos (by rw [hsame.number]; exact hdirectories), hrva, hsize]
  have hbase : (ctx.baseAddress + relocRva ctx mem) % 2 ^ 64 =
      ctx.baseAddress + relocRva ctx mem := Nat.mod_eq_of_lt (by omega)
  have hend : (ctx.baseAddress + relocRva ctx mem + sizeOfBlocks blocks) % 2 ^ 64 =
      ctx.baseAddress + relocRva ctx mem + sizeOfBlocks blocks := Nat.mod_eq_of_lt (by omega)
  rw [hbase, hend]
  by_cases hsome : blocks = []
  · subst hsome
    obtain ⟨fuel, rfl⟩ : ∃ n, fuel = n + 1 := ⟨fuel - 1, by omega⟩
    rw [sizeOfBlocks_nil, refixBlocks, if_neg (by omega)]
    rfl
  · have hroom := hlogBase.logRoom himage hsome
    have hpos := hlogBase.ne_zero
    refine refixBlocks_eq hfits himage.blocks_in (hcarried.blocksAt himage hlog) rfl
      (by rw [hsize]) (by omega) (by omega) (by omega) hroom
      (himage.spares (Or.inr hroom) hin fun k hk => Or.inr (Or.inr ⟨by omega, by omega⟩)) ?_
    have hplace : ctx.baseAddress + (relocDirEntry mid
        (ctx.baseAddress + ctx.peCoffHeaderOffset) + 4 - ctx.baseAddress) =
        relocDirEntry mid (ctx.baseAddress + ctx.peCoffHeaderOffset) + 4 := by omega
    rw [← hplace]
    exact himage.spares (Or.inr hroom) (by omega) fun k hk => Or.inr (Or.inl ⟨by omega, by omega⟩)

end Carried

end SecondCall

section Composition

/-- The log buffer already has the words of the image in the slots. -/
def LogHolds (ctx : ImageContext) (mem : Memory) (blocks : List Block) : Prop :=
  ∀ p ∈ withSlots ctx.fixupData (fixupsOf blocks),
    word mem p.2 p.1.kind.width = p.1.value mem ctx.imageAddress

/-- Relocation composes: each call does what it should to an image. -/
structure RelocationComposes (ctx : ImageContext) (mem : Memory) (blocks : List Block) : Prop where
  withLog : RelocatesExactly ctx mem blocks
  withoutLog : RelocatesExactly { ctx with fixupData := 0 } mem blocks
  again : RelocatesAgain ctx mem blocks

theorem LogBuffer.slot {base : Nat} {p : Fixup × Nat}
    (hlog : LogBuffer ctx mem base)
    (himage : LoadedImage ctx mem blocks)
    (hp : p ∈ withSlots ctx.fixupData (fixupsOf blocks)) :
    blocks ≠ [] ∧ p.2 ≠ 0 ∧ ∀ k < p.1.kind.width, InLog ctx mem (p.2 + k) := by
  have hmem := fst_mem_of_mem_withSlots hp
  have hsome : blocks ≠ [] := by
    rintro rfl
    exact absurd hmem List.not_mem_nil
  have hroom := hlog.logRoom himage hsome
  have hne := hlog.ne_zero
  have hbounds := slots_bounds (by omega) hroom.room hroom.limit_lt hp
  exact ⟨hsome, by omega, fun k hk => ⟨by omega, by omega⟩⟩

theorem CarriedOver.value_refixAll {adjust : Nat} {p : Fixup × Nat}
    (hcarried : CarriedOver ctx mem blocks (relocatedMem ctx mem blocks) mid)
    (himage : LoadedImage ctx mem blocks)
    (hlogBase : LogBuffer ctx mem ctx.baseAddress)
    (hp : p ∈ withSlots ctx.fixupData (fixupsOf blocks)) :
    p.1.value (refixAll ctx.baseAddress adjust ctx.fixupData (fixupsOf blocks) mid)
        ctx.baseAddress =
      if word (relocatedMem ctx mem blocks) p.2 p.1.kind.width =
          p.1.value mid ctx.baseAddress then
        (p.1.value mid ctx.baseAddress + adjust) % 256 ^ p.1.kind.width
      else
        p.1.value mid ctx.baseAddress := by
  obtain ⟨hsome, hslot, hin⟩ := hlogBase.slot himage hp
  have hword : word mid p.2 p.1.kind.width =
      word (relocatedMem ctx mem blocks) p.2 p.1.kind.width :=
    word_congr fun k hk => hcarried.log _ (hin k hk)
  rw [Udk.PeCoff.value_refixAll himage.disjoint himage.fixups_in
    (Or.inr (hlogBase.logRoom himage hsome)) hp hslot, hword]

section

variable (himage : LoadedImage ctx mem blocks)
include himage

theorem LoadedImage.slot_relocatedMem {p : Fixup × Nat}
    (hlog : LogBuffer ctx mem ctx.imageAddress)
    (hholds : ctx.baseAddress ≠ imageBase mem ctx.hdr ∨ LogHolds ctx mem blocks)
    (hp : p ∈ withSlots ctx.fixupData (fixupsOf blocks)) :
    word (relocatedMem ctx mem blocks) p.2 p.1.kind.width =
      p.1.value (relocatedMem ctx mem blocks) ctx.imageAddress := by
  obtain ⟨hsome, hslot, _⟩ := hlog.slot himage hp
  rw [relocatedMem]
  split_ifs with hadjust
  · exact slot_relocateAll himage.disjoint himage.fixups_in (logFor himage hlog hsome) hp hslot
  · have hequal := (sub64_eq_zero himage.base_lt imageBase_lt).mp (not_not.mp hadjust)
    exact (hholds.resolve_left (not_not_intro hequal)) p hp

theorem LoadedImage.value_direct {virtual : Nat} {f : Fixup}
    (hpos : 0 < virtual) (hlt : virtual < 2 ^ 64)
    (hf : f ∈ fixupsOf blocks) :
    f.value (peCoffLoaderRelocateImage
        { ctx with destinationAddress := virtual, fixupData := 0 } mem).mem ctx.imageAddress =
      (f.value mem ctx.imageAddress + sub64 virtual (imageBase mem ctx.hdr)) %
        256 ^ f.kind.width := by
  have hdirect : LoadedImage { ctx with destinationAddress := virtual, fixupData := 0 } mem
      blocks := { himage with destination_lt := hlt }
  have hbase : ({ ctx with destinationAddress := virtual, fixupData := 0 } :
      ImageContext).baseAddress = virtual := if_pos (Nat.pos_iff_ne_zero.mp hpos)
  have hvalue := hdirect.value_relocatedMem (fun _ => Or.inl rfl) hf
  rw [hbase] at hvalue
  rw [(hdirect.relocateImage_eq (fun _ => Or.inl rfl) (Nat.two_pow_pos 64)).2]
  exact hvalue

theorem LoadedImage.relocatesAgain
    (hlog : LogBuffer ctx mem ctx.imageAddress)
    (hlogBase : LogBuffer ctx mem ctx.baseAddress)
    (hfits : ctx.baseAddress + ctx.imageSize < 2 ^ 64)
    (hholds : ctx.baseAddress ≠ imageBase mem ctx.hdr ∨ LogHolds ctx mem blocks) :
    RelocatesAgain ctx mem blocks := by
  intro virtual mid hpos hvirtual hcarried
  have hlt : ctx.fixupData < 2 ^ 64 := by
    have := hlog.fits
    omega
  rw [(himage.relocateImage_eq (logFor himage hlog) hlt).2] at hcarried ⊢
  refine ⟨_, fun fuel hfuel => hcarried.forRuntime_eq himage hlog hlogBase hfits hfuel, ?_⟩
  intro f hf
  obtain ⟨slot, hp⟩ := @exists_slot ctx.fixupData f _ hf
  have hafter := @CarriedOver.value_refixAll ctx mem mid blocks
    (sub64 virtual ctx.baseAddress) (f, slot) hcarried himage hlogBase hp
  have hslot := himage.slot_relocatedMem hlog hholds hp
  simp only [hslot] at hafter
  constructor
  case left =>
    intro hsame
    rw [hafter, if_pos hsame.symm, hsame, himage.value_relocatedMem (logFor himage hlog) hf,
      himage.value_direct hpos hvirtual hf, adjust_adjust imageBase_lt himage.base_lt]
  case right =>
    intro hchanged
    rw [hafter, if_neg hchanged.symm]

/-- An image at its linked base gets no log: a word whose slot differs is not relocated again. -/
theorem LoadedImage.stale_log
    (hlog : LogBuffer ctx mem ctx.imageAddress)
    (hlogBase : LogBuffer ctx mem ctx.baseAddress)
    (hfits : ctx.baseAddress + ctx.imageSize < 2 ^ 64)
    (hlinked : ctx.baseAddress = imageBase mem ctx.hdr)
    (hstale : ¬ LogHolds ctx mem blocks) :
    ¬ RelocatesAgain ctx mem blocks := by
  intro hagain
  rw [LogHolds] at hstale
  push Not at hstale
  obtain ⟨p, hp, hdiffers⟩ := hstale
  have hlt : ctx.fixupData < 2 ^ 64 := by
    have := hlog.fits
    omega
  have hzero := (sub64_eq_zero himage.base_lt imageBase_lt).mpr hlinked
  have hrelocated : relocatedMem ctx mem blocks = mem := by
    rw [relocatedMem, if_neg (not_not_intro hzero)]
  have hmem := (himage.relocateImage_eq (logFor himage hlog) hlt).2
  have hfirst := fst_mem_of_mem_withSlots hp
  -- The image is only carried to its base address in between.
  have hcarried : CarriedOver ctx mem blocks (relocatedMem ctx mem blocks)
      (moveBytes mem ctx.baseAddress ctx.imageAddress ctx.imageSize) := by
    rw [hrelocated]
    constructor
    case headers =>
      intro k hk
      have hin := hk.lt himage
      rw [moveBytes, if_pos ⟨by omega, by omega⟩, Nat.add_sub_cancel_left]
    case log =>
      intro a hin
      have hapart := hlogBase.apart
      rw [InLog] at hin
      exact moveBytes_outside (by omega)
  have hheaders := himage.headers_in
  obtain ⟨after, hafter, hwords⟩ := hagain (ctx.baseAddress + 1)
    (moveBytes mem ctx.baseAddress ctx.imageAddress ctx.imageSize) (by omega) (by omega)
    (by rw [hmem]; exact hcarried)
  have hvalue : p.1.value (moveBytes mem ctx.baseAddress ctx.imageAddress ctx.imageSize)
      ctx.baseAddress = p.1.value mem ctx.imageAddress := by
    have hin := himage.fixups_in p.1 hfirst
    refine word_congr fun k hk => ?_
    rw [moveBytes, if_pos ⟨by omega, by omega⟩]
    congr 1
    omega
  have hsecond := Option.some.inj ((hafter _ (Nat.lt_succ_self _)).symm.trans
    (hcarried.forRuntime_eq himage hlog hlogBase hfits (Nat.lt_succ_self _)))
  have hkept := @CarriedOver.value_refixAll ctx mem _ blocks
    (sub64 (ctx.baseAddress + 1) ctx.baseAddress) p hcarried himage hlogBase hp
  rw [hrelocated, hvalue, if_neg hdiffers, ← hsecond] at hkept
  have hdirect := (hwords p.1 hfirst).1 (by rw [hmem, hrelocated, hvalue])
  rw [himage.value_direct (Nat.succ_pos _) (by omega) hfirst, ← hlinked, hkept] at hdirect
  have hone : sub64 (ctx.baseAddress + 1) ctx.baseAddress = 1 := by
    rw [sub64]
    omega
  rw [hone] at hdirect
  have hwidth : p.1.value mem ctx.imageAddress < 256 ^ p.1.kind.width := word_lt
  cases hkind : p.1.kind with
  | absolute =>
      refine hdiffers ?_
      rw [Fixup.value, hkind]
      rfl
  | low | highLow | dir64 =>
      rw [hkind] at hdirect hwidth
      simp only [RecordKind.width] at hdirect hwidth
      omega

end

/-- Relocation composes exactly when the first call fills the log, which it does unless the image
is at its linked base, or the log buffer happens to have its words already. -/
theorem relocation_composes
    (himage : LoadedImage ctx mem blocks)
    (hlog : LogBuffer ctx mem ctx.imageAddress)
    (hlogBase : LogBuffer ctx mem ctx.baseAddress)
    (hfits : ctx.baseAddress + ctx.imageSize < 2 ^ 64) :
    RelocationComposes ctx mem blocks ↔
      (ctx.baseAddress ≠ imageBase mem ctx.hdr ∨ LogHolds ctx mem blocks) := by
  constructor
  case mp =>
    intro hcomposes
    by_contra hnot
    push Not at hnot
    exact himage.stale_log hlog hlogBase hfits hnot.1 hnot.2 hcomposes.again
  case mpr =>
    intro hholds
    have hlt : ctx.fixupData < 2 ^ 64 := by
      have := hlog.fits
      omega
    constructor
    case withLog => exact himage.relocatesExactly (logFor himage hlog) hlt
    case withoutLog =>
      exact @LoadedImage.relocatesExactly { ctx with fixupData := 0 } mem blocks { himage with }
        (fun _ => Or.inl rfl) (Nat.two_pow_pos 64)
    case again => exact himage.relocatesAgain hlog hlogBase hfits hholds

end Composition

section Sample

/-- A PE32+ image with one pointer, linked to the address where it lies. -/
def sampleImage : Bytes :=
  toLE 4 ntSignature ++ toLE 2 0x8664 ++ List.replicate 18 0 ++ toLE 2 hdr64Magic ++
    List.replicate 22 0 ++ toLE 8 0x10000 ++ List.replicate 76 0 ++ toLE 4 16 ++
    List.replicate 40 0 ++ toLE 4 184 ++ toLE 4 12 ++ toLE 4 0 ++ toLE 4 12 ++ toLE 2 0xA0C8 ++
    List.replicate 6 0 ++ toLE 8 0x10040

/-- The image in a memory that is 0 elsewhere, also in the log buffer. -/
def sampleMemory : Memory :=
  storeBytes (fun _ => 0) 0x10000 sampleImage

def sampleContext : ImageContext where
  imageAddress := 0x10000
  imageSize := 208
  destinationAddress := 0
  entryPoint := 0x10000
  peCoffHeaderOffset := 0
  isTeImage := false
  relocationsStripped := false
  fixupData := 0x20000
  imageError := .success

/-- The relocation directory of the image: the pointer and a record for the alignment. -/
def sampleBlocks : List Block :=
  [⟨0, [⟨.dir64, 200, by decide⟩, ⟨.absolute, 0, by decide⟩]⟩]

theorem sample_loaded : LoadedImage sampleContext sampleMemory sampleBlocks where
  notTe := rfl
  notStripped := rfl
  address_ne := by decide
  fits := by decide
  destination_lt := by decide
  headers_in := by decide
  headerOffset := by decide +kernel
  signature := by decide +kernel
  dosHeader := fun hdos => absurd hdos (by decide +kernel)
  directories := by decide +kernel
  dir_size := by decide +kernel
  dir_in := by decide +kernel
  dir_le := by decide +kernel
  dir_apart := by
    unfold Apart
    decide +kernel
  blocksAt := by
    refine ⟨?_, ?_, ⟨?_, ?_, trivial⟩, trivial⟩
    all_goals decide +kernel
  blocks_in := by
    intro b hb
    rw [List.mem_singleton.mp hb]
    constructor
    all_goals decide +kernel
  fixups_in := by decide +kernel
  disjoint := List.pairwise_pair.mpr fun _ _ => Or.inr (Nat.zero_le _)
  behind := by decide +kernel

theorem sample_log : LogBuffer sampleContext sampleMemory sampleContext.imageAddress := by
  constructor
  all_goals decide +kernel

/-- The words of the sample image. -/
theorem relocation_composes_sample :
    RelocationComposes sampleContext sampleMemory sampleBlocks ↔
      (sampleContext.baseAddress ≠ imageBase sampleMemory sampleContext.hdr ∨
        LogHolds sampleContext sampleMemory sampleBlocks) :=
  relocation_composes sample_loaded sample_log sample_log (by decide)

/-- The sample image is not relocated for its virtual address. -/
theorem relocation_log_not_filled :
    LoadedImage sampleContext sampleMemory sampleBlocks ∧
      LogBuffer sampleContext sampleMemory sampleContext.baseAddress ∧
      ¬ RelocationComposes sampleContext sampleMemory sampleBlocks := by
  have hstale : ¬ LogHolds sampleContext sampleMemory sampleBlocks :=
    fun hholds => absurd (hholds _ List.mem_cons_self) (by decide +kernel)
  exact ⟨sample_loaded, sample_log, fun hcomposes =>
    sample_loaded.stale_log sample_log sample_log (by decide) (by decide +kernel) hstale
      hcomposes.again⟩

end Sample

end PeCoff
end Udk
