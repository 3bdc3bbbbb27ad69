import Udk.MemoryWords

/-!
# Relocation of PE/COFF images

`PeCoffLoaderRelocateImage` and `PeCoffLoaderRelocateImageForRuntime` of `BasePeCoff.c`, with
`PeCoffLoaderEx.c` for IA32 and X64.  Addresses and `UINTN` have 64 bits; the memory has a byte at
every address, and the fields of the headers are read in it where the source reads them.
-/

namespace Udk
namespace PeCoff

/-- `RETURN_STATUS`. -/
inductive ReturnStatus
  | success
  | loadError
  | unsupported
  deriving DecidableEq, Repr

/-- `ImageError` of the context. -/
inductive ImageError
  | success
  | failedRelocation
  deriving DecidableEq, Repr

/-- `PE_COFF_LOADER_IMAGE_CONTEXT`: what relocation uses of it.  A `fixupData` of 0 is `NULL`. -/
structure ImageContext where
  imageAddress : Nat
  imageSize : Nat
  destinationAddress : Nat
  entryPoint : Nat
  peCoffHeaderOffset : Nat
  isTeImage : Bool
  relocationsStripped : Bool
  fixupData : Nat
  imageError : ImageError
  deriving DecidableEq, Repr

def dosSignature : Nat := 0x5A4D
def ntSignature : Nat := 0x4550
def machineIa64 : Nat := 0x0200
def hdr32Magic : Nat := 0x10B
def hdr64Magic : Nat := 0x20B
def maxAddress : Nat := 2 ^ 64 - 1

/-- `EFI_IMAGE_DIRECTORY_ENTRY_BASERELOC`. -/
def directoryEntryBaseReloc : Nat := 5

/-- `sizeof (EFI_IMAGE_BASE_RELOCATION)`. -/
def sizeofBaseRelocation : Nat := 8

/-- `sizeof (EFI_TE_IMAGE_HEADER)`. -/
def sizeofTeHeader : Nat := 40

/-- The difference of two `UINT64`. -/
def sub64 (a b : Nat) : Nat :=
  (a + (2 ^ 64 - b)) % 2 ^ 64

/-- `ALIGN_POINTER`. -/
def alignPointer (pointer alignment : Nat) : Nat :=
  (pointer + (alignment - pointer % alignment) % alignment) % 2 ^ 64

section Headers

variable (mem : Memory) (hdr : Nat)

/-- `PeCoffLoaderGetPeHeaderMagicValue`. -/
def peCoffLoaderGetPeHeaderMagicValue : Nat :=
  if word mem (hdr + 4) 2 = machineIa64 ∧ word mem (hdr + 24) 2 = hdr32Magic then
    hdr64Magic
  else
    word mem (hdr + 24) 2

/-- The header is read as a PE32 header. -/
def IsPe32 : Prop :=
  peCoffLoaderGetPeHeaderMagicValue mem hdr = hdr32Magic

instance : Decidable (IsPe32 mem hdr) :=
  inferInstanceAs (Decidable (_ = _))

/-- The address of `OptionalHeader.ImageBase`. -/
def imageBaseField : Nat :=
  if IsPe32 mem hdr then hdr + 52 else hdr + 48

/-- The width of `OptionalHeader.ImageBase`. -/
def imageBaseWidth : Nat :=
  if IsPe32 mem hdr then 4 else 8

/-- `OptionalHeader.ImageBase`. -/
def imageBase : Nat :=
  word mem (imageBaseField mem hdr) (imageBaseWidth mem hdr)

/-- `OptionalHeader.NumberOfRvaAndSizes`. -/
def numberOfRvaAndSizes : Nat :=
  word mem (if IsPe32 mem hdr then hdr + 116 else hdr + 132) 4

/-- The address of `OptionalHeader.DataDirectory[EFI_IMAGE_DIRECTORY_ENTRY_BASERELOC]`. -/
def relocDirEntry : Nat :=
  (if IsPe32 mem hdr then hdr + 120 else hdr + 136) + 8 * directoryEntryBaseReloc

/-- `VirtualAddress` of a data directory. -/
def dirVirtualAddress (relocDir : Nat) : Nat :=
  word mem relocDir 4

/-- `Size` of a data directory. -/
def dirSize (relocDir : Nat) : Nat :=
  word mem (relocDir + 4) 4

end Headers

/-- `PeCoffLoaderImageAddress`; 0 is `NULL`.  Every caller sets `ImageError` itself when the
address cannot be converted. -/
def peCoffLoaderImageAddress (ctx : ImageContext) (address teStrippedOffset : Nat) : Nat :=
  if (ctx.imageSize + teStrippedOffset) % 2 ^ 64 ≤ address then
    0
  else
    sub64 (ctx.imageAddress + address) teStrippedOffset

/-- What a walk over the relocation blocks changes: the memory and the place in the log. -/
structure WalkState where
  mem : Memory
  fixupData : Nat

section RelocateImage

/-- A word is adjusted, and stored in the log when there is one. -/
def fixWord (s : WalkState) (fixup width alignment amount : Nat) : WalkState :=
  let mem := setWord s.mem fixup width (word s.mem fixup width + amount)
  if s.fixupData = 0 then
    { s with mem := mem }
  else
    let fixupData := alignPointer s.fixupData alignment
    { mem := setWord mem fixupData width (word mem fixup width),
      fixupData := (fixupData + width) % 2 ^ 64 }

/-- The `switch` of `PeCoffLoaderRelocateImage`.  `PeCoffLoaderRelocateImageEx` supports none of
the other types. -/
def relocateFixup (adjust reloc fixup : Nat) (s : WalkState) : Option WalkState :=
  match reloc / 2 ^ 12 with
  | 0 => some s
  | 1 => some (fixWord s fixup 2 1 (adjust % 2 ^ 32 / 2 ^ 16))
  | 2 => some (fixWord s fixup 2 1 (adjust % 2 ^ 16))
  | 3 => some (fixWord s fixup 4 4 (adjust % 2 ^ 32))
  | 10 => some (fixWord s fixup 8 8 (adjust % 2 ^ 64))
  | _ => none

variable (ctx : ImageContext) (teStrippedOffset adjust : Nat)

/-- The loop over the records of a block, with `count` of them ahead.  The last bytes of the
address space hold no record. -/
def relocateRecords (relocBase : Nat) : Nat → Nat → WalkState → ReturnStatus × WalkState
  | 0, _, s => (.success, s)
  | count + 1, reloc, s =>
      let record := word s.mem reloc 2
      let fixup := peCoffLoaderImageAddress ctx
        ((word s.mem relocBase 4 + record % 2 ^ 12) % 2 ^ 32) teStrippedOffset
      if fixup = 0 then
        (.loadError, s)
      else
        match relocateFixup adjust record fixup s with
        | none => (.unsupported, s)
        | some s' => relocateRecords relocBase count (reloc + 2) s'

/-- The loop over the blocks.  A block has a size, so the bytes ahead bound the number of
turns. -/
def relocateBlocks (relocDir relocBaseOrg relocBaseEnd : Nat) :
    Nat → Nat → WalkState → ReturnStatus × WalkState
  | 0, _, s => (.success, s)
  | ahead + 1, relocBase, s =>
      if relocBase < relocBaseEnd then
        let reloc := (relocBase + sizeofBaseRelocation) % 2 ^ 64
        let sizeOfBlock := word s.mem (relocBase + 4) 4
        if sizeOfBlock = 0 then
          (.loadError, s)
        else if maxAddress - sizeOfBlock < relocBase then
          (.loadError, s)
        else
          let relocEnd := relocBase + sizeOfBlock
          if (relocBaseOrg + dirSize s.mem relocDir) % 2 ^ 64 < relocEnd then
            (.loadError, s)
          else if peCoffLoaderImageAddress ctx (word s.mem relocBase 4) teStrippedOffset = 0 then
            (.loadError, s)
          else
            match relocateRecords ctx teStrippedOffset adjust relocBase
                ((relocEnd - reloc + 1) / 2) reloc s with
            | (.success, s') => relocateBlocks relocDir relocBaseOrg relocBaseEnd ahead relocEnd s'
            | (status, s') => (status, s')
      else
        (.success, s)

/-- The base address that an image is relocated to. -/
def ImageContext.baseAddress : Nat :=
  if ctx.destinationAddress ≠ 0 then ctx.destinationAddress else ctx.imageAddress

/-- What the headers say: the data directory, if there is one, the offset of a TE image, the
adjustment, and the memory with the new `ImageBase`. -/
structure Located where
  relocDir : Option Nat
  teStrippedOffset : Nat
  adjust : Nat
  mem : Memory

/-- The first part of `PeCoffLoaderRelocateImage`. -/
def locateRelocations (mem : Memory) : Located :=
  if ctx.isTeImage then
    let hdr := ctx.imageAddress
    let teStrippedOffset := (word mem (hdr + 6) 2 + (2 ^ 32 - sizeofTeHeader)) % 2 ^ 32
    let adjust := sub64 ctx.baseAddress ((word mem (hdr + 16) 8 + teStrippedOffset) % 2 ^ 64)
    { relocDir := some (hdr + 24),
      teStrippedOffset := teStrippedOffset,
      adjust := adjust,
      mem := if adjust ≠ 0 then
          setWord mem (hdr + 16) 8 (sub64 ctx.baseAddress teStrippedOffset)
        else
          mem }
  else
    let hdr := (ctx.imageAddress + ctx.peCoffHeaderOffset) % 2 ^ 64
    let adjust := sub64 ctx.baseAddress (imageBase mem hdr)
    { relocDir := if numberOfRvaAndSizes mem hdr < directoryEntryBaseReloc then
          none
        else
          some (relocDirEntry mem hdr),
      teStrippedOffset := 0,
      adjust := adjust,
      mem := if adjust ≠ 0 then
          setWord mem (imageBaseField mem hdr) (imageBaseWidth mem hdr) ctx.baseAddress
        else
          mem }

/-- `RelocBase`, `RelocBaseEnd` and the size in the directory; `none` where the directory is not in
the image.  Without a directory both addresses are 0. -/
def relocationBounds (located : Located) : Option (Nat × Nat × Nat) :=
  match located.relocDir with
  | none => some (0, 0, 0)
  | some relocDir =>
      if 0 < dirSize located.mem relocDir then
        let relocBase := peCoffLoaderImageAddress ctx (dirVirtualAddress located.mem relocDir)
          located.teStrippedOffset
        let relocBaseEnd := peCoffLoaderImageAddress ctx
          ((dirVirtualAddress located.mem relocDir + dirSize located.mem relocDir +
            (2 ^ 32 - 1)) % 2 ^ 32) located.teStrippedOffset
        if relocBase = 0 ∨ relocBaseEnd = 0 ∨ relocBaseEnd < relocBase then
          none
        else
          some (relocDir, relocBase, relocBaseEnd)
      else
        some (relocDir, 0, 0)

/-- What `PeCoffLoaderRelocateImage` leaves. -/
structure Relocated where
  status : ReturnStatus
  ctx : ImageContext
  mem : Memory

/-- `PeCoffLoaderRelocateImage` behind the check for stripped relocations. -/
def applyRelocations (mem : Memory) : Relocated :=
  let located := locateRelocations ctx mem
  match relocationBounds ctx located with
  | none =>
      { status := .loadError, ctx := { ctx with imageError := .failedRelocation },
        mem := located.mem }
  | some (relocDir, relocBase, relocBaseEnd) =>
      if located.adjust ≠ 0 then
        match relocateBlocks ctx located.teStrippedOffset located.adjust relocDir relocBase
            relocBaseEnd (relocBaseEnd - relocBase) relocBase
            { mem := located.mem, fixupData := ctx.fixupData } with
        | (.success, s) =>
            { status := .success,
              ctx := if ctx.destinationAddress ≠ 0 then
                  { ctx with entryPoint :=
                      (sub64 ctx.entryPoint ctx.imageAddress + ctx.destinationAddress) % 2 ^ 64 }
                else
                  ctx,
              mem := s.mem }
        | (status, s) =>
            { status := status, ctx := { ctx with imageError := .failedRelocation },
              mem := s.mem }
      else
        { status := .success, ctx := ctx, mem := located.mem }

/-- `PeCoffLoaderRelocateImage`. -/
def peCoffLoaderRelocateImage (mem : Memory) : Relocated :=
  let ctx := { ctx with imageError := .success }
  if ctx.relocationsStripped then
    { status := .success, ctx := ctx, mem := mem }
  else
    applyRelocations ctx mem

end RelocateImage

section ForRuntime

/-- A word is adjusted when it is the word of the log. -/
def refixWord (s : WalkState) (fixup width alignment amount : Nat) : WalkState :=
  let fixupData := alignPointer s.fixupData alignment
  { mem := if word s.mem fixupData width = word s.mem fixup width then
        setWord s.mem fixup width (word s.mem fixup width + amount)
      else
        s.mem,
    fixupData := (fixupData + width) % 2 ^ 64 }

/-- The `switch` of `PeCoffLoaderRelocateImageForRuntime`.  `PeHotRelocateImageEx` supports none
of the other types. -/
def refixFixup (adjust reloc fixup : Nat) (s : WalkState) : Option WalkState :=
  match reloc / 2 ^ 12 with
  | 0 => some s
  | 1 => some (refixWord s fixup 2 1 (adjust % 2 ^ 32 / 2 ^ 16))
  | 2 => some (refixWord s fixup 2 1 (adjust % 2 ^ 16))
  | 3 => some (refixWord s fixup 4 4 (adjust % 2 ^ 32))
  | 10 => some (refixWord s fixup 8 8 (adjust % 2 ^ 64))
  | _ => none

variable (adjust : Nat)

/-- The loop over the records of a block, with `count` of them ahead; `false` where the function
returns. -/
def refixRecords (fixupBase : Nat) : Nat → Nat → WalkState → Bool × WalkState
  | 0, _, s => (true, s)
  | count + 1, reloc, s =>
      let record := word s.mem reloc 2
      match refixFixup adjust record ((fixupBase + record % 2 ^ 12) % 2 ^ 64) s with
      | none => (false, s)
      | some s' => refixRecords fixupBase count (reloc + 2) s'

/-- The loop over the blocks, with a bound on the number of turns: an address may wrap here. -/
def refixBlocks (imageBase relocDir relocBaseEnd : Nat) : Nat → Nat → WalkState → Option Memory
  | 0, _, _ => none
  | fuel + 1, relocBase, s =>
      if relocBase < relocBaseEnd then
        let sizeOfBlock := word s.mem (relocBase + 4) 4
        if sizeOfBlock = 0 ∨ dirSize s.mem relocDir < sizeOfBlock then
          some s.mem
        else
          let reloc := (relocBase + sizeofBaseRelocation) % 2 ^ 64
          let relocEnd := (relocBase + sizeOfBlock) % 2 ^ 64
          let fixupBase := (imageBase + word s.mem relocBase 4) % 2 ^ 64
          match refixRecords adjust fixupBase ((relocEnd - reloc + 1) / 2) reloc s with
          | (true, s') => refixBlocks imageBase relocDir relocBaseEnd fuel relocEnd s'
          | (false, s') => some s'.mem
      else
        some s.mem

/-- `PeCoffLoaderRelocateImageForRuntime`; `none` when the bound on the turns is reached. -/
def peCoffLoaderRelocateImageForRuntime (fuel imageBase virtImageBase relocationData : Nat)
    (mem : Memory) : Option Memory :=
  let adjust := sub64 virtImageBase imageBase
  let hdr := if word mem imageBase 2 = dosSignature then
      (imageBase + word mem (imageBase + 60) 4) % 2 ^ 64
    else
      imageBase
  if word mem hdr 4 ≠ ntSignature then
    some mem
  else if directoryEntryBaseReloc < numberOfRvaAndSizes mem hdr then
    let relocDir := relocDirEntry mem hdr
    let relocBase := (imageBase + dirVirtualAddress mem relocDir) % 2 ^ 64
    let relocBaseEnd := (imageBase + dirVirtualAddress mem relocDir + dirSize mem relocDir) % 2 ^ 64
    refixBlocks adjust imageBase relocDir relocBaseEnd fuel relocBase
      { mem := mem, fixupData := relocationData }
  else
    some mem

end ForRuntime

end PeCoff
end Udk
