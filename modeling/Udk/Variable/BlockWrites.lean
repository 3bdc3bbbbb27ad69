import Udk.Variable.Driver

/-!
# Writes through the block map

`UpdateVariableStore` of the non-volatile store as it runs over the block map of the
firmware volume: addresses are absolute, the map has runs of blocks of equal length, and
what goes to the flash part is the list of `Fvb->Write` calls.
-/

namespace Udk
namespace Variable
namespace Fvb

open List

/-- `EFI_FV_BLOCK_MAP_ENTRY`. -/
structure BlockMapEntry where
  numBlocks : Nat
  length : Nat
deriving DecidableEq

/-- Lengths of the blocks of a map, in LBA order. -/
def blockLengths (blockMap : List BlockMapEntry) : List Nat :=
  blockMap.flatMap fun entry => List.replicate entry.numBlocks entry.length

/-- A firmware volume in memory.  The map ends at an entry without blocks, which is not
kept, and its blocks tile the volume. -/
structure FirmwareVolume where
  /-- `FwVolHeader`, the address of the volume. -/
  base : Nat
  fvLength : Nat
  blockMap : List BlockMapEntry
  numBlocks_pos : ∀ entry ∈ blockMap, 0 < entry.numBlocks
  length_lt : ∀ entry ∈ blockMap, entry.length < 2 ^ 32
  tiles : (blockLengths blockMap).sum = fvLength
  fits : base + fvLength < 2 ^ 64

/-- A call of `Fvb->Write`. -/
structure WriteCall where
  lba : Nat
  offset : Nat
  buffer : Bytes
deriving DecidableEq

/-- The locals of the loop over the block map, and the calls made so far. -/
structure Cursor where
  linearOffset : Nat
  lbaNumber : Nat
  currWritePtr : Nat
  currWriteSize : Nat
  currBuffer : Bytes
  calls : List WriteCall
deriving DecidableEq

/-- Status of a call and the calls made, or where the loop goes on. -/
abbrev Outcome := Except (EfiStatus × List WriteCall) Cursor

section Loop

variable (write : List WriteCall → WriteCall → EfiStatus)

/-- What the loop does at one block. -/
def writeBlock (length : Nat) (c : Cursor) : Outcome :=
  if c.linearOffset ≤ c.currWritePtr ∧ c.currWritePtr < c.linearOffset + length then
    if c.currWritePtr + c.currWriteSize ≤ c.linearOffset + length then
      let call : WriteCall :=
        ⟨c.lbaNumber, c.currWritePtr - c.linearOffset, c.currBuffer.take c.currWriteSize⟩
      .error (write c.calls call, c.calls ++ [call])
    else
      let size := (c.linearOffset + length - c.currWritePtr) % 2 ^ 32
      let call : WriteCall :=
        ⟨c.lbaNumber, c.currWritePtr - c.linearOffset, c.currBuffer.take size⟩
      let status := write c.calls call
      if status.isError then .error (status, c.calls ++ [call])
      else .ok ⟨c.linearOffset + length, c.lbaNumber + 1, c.linearOffset + length,
        c.currWriteSize - size, c.currBuffer.drop size, c.calls ++ [call]⟩
  else .ok { c with linearOffset := c.linearOffset + length, lbaNumber := c.lbaNumber + 1 }

/-- The blocks of one entry. -/
def writeRun (length : Nat) : Nat → Cursor → Outcome
  | 0, c => .ok c
  | count + 1, c => do writeRun length count (← writeBlock write length c)

/-- The entries of the map. -/
def writeMap : List BlockMapEntry → Cursor → Outcome
  | [], c => .ok c
  | entry :: entries, c =>
      if entry.numBlocks = 0 then .ok c
      else do writeMap entries (← writeRun write entry.length entry.numBlocks c)

/-- Where the data goes: an address, or an index into the variable store. -/
def dataPtr (nonVolatileVariableBase : Nat) (setByIndex : Bool) (dataPtrIndex : Nat) : Nat :=
  if setByIndex then (dataPtrIndex + nonVolatileVariableBase) % 2 ^ 64 else dataPtrIndex

/-- `UpdateVariableStore` with `Volatile` false, and the calls of `Fvb->Write` it makes;
the status of a call may depend on the ones before.  `volume` is where
`Fvb->GetPhysicalAddress` leads, and none when `Fvb` is `NULL`. -/
def updateVariableStore (volume : Option FirmwareVolume) (nonVolatileVariableBase : Nat)
    (setByIndex : Bool) (dataPtrIndex dataSize : Nat) (buffer : Bytes) :
    EfiStatus × List WriteCall :=
  match volume with
  | none => (.invalidParameter, [])
  | some fwVolHeader =>
      let dataPtr := dataPtr nonVolatileVariableBase setByIndex dataPtrIndex
      if (fwVolHeader.base + fwVolHeader.fvLength) % 2 ^ 64 ≤ (dataPtr + dataSize) % 2 ^ 64 then
        (.invalidParameter, [])
      else if dataPtr < fwVolHeader.base then (.invalidParameter, [])
      else
        match writeMap write fwVolHeader.blockMap
          ⟨fwVolHeader.base, 0, dataPtr, dataSize, buffer, []⟩ with
        | .error result => result
        | .ok c => (.success, c.calls)

end Loop

section Meaning

/-- Offset in the volume of the first byte of a block. -/
def blockStart (lengths : List Nat) (lba : Nat) : Nat :=
  (lengths.take lba).sum

/-- The volume after a call. -/
def WriteCall.apply (lengths : List Nat) (content : Bytes) (call : WriteCall) : Bytes :=
  copyMem content (blockStart lengths call.lba + call.offset) call.buffer

/-- The calls stay inside one block each, and each begins where the one before ends. -/
def Laid (lengths : List Nat) : Nat → List WriteCall → Prop
  | _, [] => True
  | pos, call :: calls =>
      blockStart lengths call.lba + call.offset = pos ∧
        (∃ length, lengths[call.lba]? = some length ∧ call.offset + call.buffer.length ≤ length) ∧
        Laid lengths (pos + call.buffer.length) calls

/-- The calls write the buffer at a position of the volume, and nothing else. -/
structure Exact (lengths : List Nat) (pos : Nat) (buffer : Bytes)
    (result : EfiStatus × List WriteCall) : Prop where
  status : result.1 = .success
  laid : Laid lengths pos result.2
  inOrder : result.2.flatMap WriteCall.buffer = buffer
  replaced : ∀ content, result.2.foldl (WriteCall.apply lengths) content =
    copyMem content pos buffer

theorem Laid.foldl_apply {lengths : List Nat} {pos : Nat} {calls : List WriteCall}
    (h : Laid lengths pos calls) (content : Bytes) :
    calls.foldl (WriteCall.apply lengths) content =
      copyMem content pos (calls.flatMap WriteCall.buffer) := by
  induction calls generalizing pos content with
  | nil => exact (overlay_nil _ content pos).symm
  | cons call calls ih =>
      obtain ⟨hpos, -, hrest⟩ := h
      rw [foldl_cons, ih hrest, flatMap_cons, WriteCall.apply, hpos]
      exact overlay_overlay _ content pos call.buffer _

end Meaning

section Blocks

variable {write : List WriteCall → WriteCall → EfiStatus}

/-- The loop over a list of blocks. -/
def writeLengths (write : List WriteCall → WriteCall → EfiStatus) : List Nat → Cursor → Outcome
  | [], c => .ok c
  | length :: lengths, c => do writeLengths write lengths (← writeBlock write length c)

theorem writeLengths_append (l₁ l₂ : List Nat) (c : Cursor) :
    writeLengths write (l₁ ++ l₂) c = writeLengths write l₁ c >>= writeLengths write l₂ := by
  induction l₁ generalizing c with
  | nil => rfl
  | cons length l₁ ih =>
      rw [cons_append, writeLengths, writeLengths, bind_assoc]
      exact congrArg _ (funext ih)

theorem writeRun_eq (length count : Nat) (c : Cursor) :
    writeRun write length count c = writeLengths write (List.replicate count length) c := by
  induction count generalizing c with
  | zero => rfl
  | succ count ih =>
      rw [writeRun, replicate_succ, writeLengths]
      exact congrArg _ (funext ih)

theorem writeMap_eq {blockMap : List BlockMapEntry}
    (hpos : ∀ entry ∈ blockMap, 0 < entry.numBlocks) (c : Cursor) :
    writeMap write blockMap c = writeLengths write (blockLengths blockMap) c := by
  induction blockMap generalizing c with
  | nil => rfl
  | cons entry entries ih =>
      have hentry := hpos entry mem_cons_self
      have hentries := ih fun e he => hpos e (mem_cons_of_mem _ he)
      rw [writeMap, if_neg hentry.ne', writeRun_eq, blockLengths, flatMap_cons,
        writeLengths_append]
      exact congrArg _ (funext hentries)

section Block

variable {length : Nat} {c : Cursor}

/-- The call at the write pointer. -/
def Cursor.call (c : Cursor) (size : Nat) : WriteCall :=
  ⟨c.lbaNumber, c.currWritePtr - c.linearOffset, c.currBuffer.take size⟩

theorem writeBlock_before (h : c.linearOffset + length ≤ c.currWritePtr) :
    writeBlock write length c =
      .ok { c with linearOffset := c.linearOffset + length, lbaNumber := c.lbaNumber + 1 } := by
  rw [writeBlock, if_neg (by omega)]

theorem writeBlock_last (hwrite : ∀ calls call, write calls call = .success)
    (hptr : c.linearOffset ≤ c.currWritePtr) (hin : c.currWritePtr < c.linearOffset + length)
    (hlast : c.currWritePtr + c.currWriteSize ≤ c.linearOffset + length) :
    writeBlock write length c = .error (.success, c.calls ++ [c.call c.currWriteSize]) := by
  simp only [writeBlock, if_pos (And.intro hptr hin), if_pos hlast, hwrite]
  rfl

theorem writeBlock_split (hwrite : ∀ calls call, write calls call = .success)
    (hptr : c.linearOffset ≤ c.currWritePtr) (hin : c.currWritePtr < c.linearOffset + length)
    (hlong : c.linearOffset + length < c.currWritePtr + c.currWriteSize)
    (hlength : length < 2 ^ 32) :
    writeBlock write length c =
      .ok ⟨c.linearOffset + length, c.lbaNumber + 1, c.linearOffset + length,
        c.currWritePtr + c.currWriteSize - (c.linearOffset + length),
        c.currBuffer.drop (c.linearOffset + length - c.currWritePtr),
        c.calls ++ [c.call (c.linearOffset + length - c.currWritePtr)]⟩ := by
  have hcast : (c.linearOffset + length - c.currWritePtr) % 2 ^ 32 =
      c.linearOffset + length - c.currWritePtr :=
    Nat.mod_eq_of_lt (by omega)
  have hsize : c.currWriteSize - (c.linearOffset + length - c.currWritePtr) =
      c.currWritePtr + c.currWriteSize - (c.linearOffset + length) := by
    omega
  simp only [writeBlock, if_pos (And.intro hptr hin), if_neg (not_le.mpr hlong), hwrite, hcast,
    hsize]
  rfl

end Block

/-- The loop from a block on, with the write pointer at or behind its start and the last
byte to write before the last one of the blocks. -/
theorem writeLengths_spec (hwrite : ∀ calls call, write calls call = .success)
    {before lengths : List Nat} (hlengths : ∀ length ∈ lengths, length < 2 ^ 32) {base : Nat}
    {c : Cursor} (hoffset : c.linearOffset = base + before.sum)
    (hlba : c.lbaNumber = before.length) (hptr : c.linearOffset ≤ c.currWritePtr)
    (hend : c.currWritePtr + c.currWriteSize < c.linearOffset + lengths.sum)
    (hsize : c.currBuffer.length = c.currWriteSize) :
    ∃ calls, writeLengths write lengths c = .error (.success, c.calls ++ calls) ∧
      Laid (before ++ lengths) (c.currWritePtr - base) calls ∧
      calls.flatMap WriteCall.buffer = c.currBuffer := by
  induction lengths generalizing before c with
  | nil =>
      rw [sum_nil] at hend
      omega
  | cons length lengths ih =>
      have hstart : blockStart (before ++ length :: lengths) c.lbaNumber = before.sum := by
        rw [blockStart, hlba, take_left]
      have hblock : (before ++ length :: lengths)[c.lbaNumber]? = some length := by
        rw [hlba, getElem?_append_right le_rfl, Nat.sub_self]
        rfl
      have hsplit : before ++ length :: lengths = (before ++ [length]) ++ lengths := by
        simp
      have hlength := hlengths length mem_cons_self
      have hrest : ∀ l ∈ lengths, l < 2 ^ 32 := fun l hl =>
        hlengths l (mem_cons_of_mem _ hl)
      have hnext : c.linearOffset + length = base + (before ++ [length]).sum := by
        rw [hoffset, sum_append, sum_singleton, Nat.add_assoc]
      have hlba' : c.lbaNumber + 1 = (before ++ [length]).length := by
        rw [hlba, length_append, length_singleton]
      rw [sum_cons] at hend
      rw [writeLengths]
      by_cases hin : c.currWritePtr < c.linearOffset + length
      · by_cases hlast : c.currWritePtr + c.currWriteSize ≤ c.linearOffset + length
        · rw [writeBlock_last hwrite hptr hin hlast, ← hsize]
          refine ⟨[c.call c.currBuffer.length], rfl, ⟨?_, ⟨length, hblock, ?_⟩, trivial⟩, ?_⟩
          · simp only [Cursor.call, hstart]
            omega
          · simp only [Cursor.call, take_length]
            omega
          · simp [Cursor.call]
        · rw [writeBlock_split hwrite hptr hin (by omega) hlength, hsplit]
          obtain ⟨calls, hloop, hlaid, hbuffer⟩ := ih
            (c := ⟨c.linearOffset + length, c.lbaNumber + 1, c.linearOffset + length,
              c.currWritePtr + c.currWriteSize - (c.linearOffset + length),
              c.currBuffer.drop (c.linearOffset + length - c.currWritePtr),
              c.calls ++ [c.call (c.linearOffset + length - c.currWritePtr)]⟩)
            hrest hnext hlba' le_rfl (by simp only; omega)
            (by simp only [length_drop]; omega)
          refine ⟨c.call (c.linearOffset + length - c.currWritePtr) :: calls, ?_, ?_, ?_⟩
          · rw [show ∀ {x : Cursor}, (Except.ok x : Outcome) >>= writeLengths write lengths =
              writeLengths write lengths x from rfl, hloop, append_assoc]
            rfl
          · rw [← hsplit]
            refine ⟨?_, ⟨length, hblock, ?_⟩, ?_⟩
            · simp only [Cursor.call, hstart]
              omega
            · simp only [Cursor.call, length_take]
              omega
            · have hpos : c.currWritePtr - base +
                  (c.call (c.linearOffset + length - c.currWritePtr)).buffer.length =
                  c.linearOffset + length - base := by
                simp only [Cursor.call, length_take]
                omega
              rw [hpos, hsplit]
              exact hlaid
          · rw [flatMap_cons, hbuffer]
            exact take_append_drop _ _
      · rw [writeBlock_before (by omega), hsplit]
        exact ih hrest hnext hlba' (by simp only; omega) (by simp only; omega) hsize

end Blocks

section Whole

variable {write : List WriteCall → WriteCall → EfiStatus} {volume : FirmwareVolume}

/-- The data lies in the volume. -/
structure InRange (volume : FirmwareVolume) (dataPtr dataSize : Nat) : Prop where
  start : volume.base ≤ dataPtr
  start_lt : dataPtr < volume.base + volume.fvLength
  stop : dataPtr + dataSize ≤ volume.base + volume.fvLength

theorem FirmwareVolume.blockLengths_lt (volume : FirmwareVolume) :
    ∀ length ∈ blockLengths volume.blockMap, length < 2 ^ 32 := by
  intro length hlength
  obtain ⟨entry, hentry, hmem⟩ := mem_flatMap.mp hlength
  rw [eq_of_mem_replicate hmem]
  exact volume.length_lt entry hentry

theorem updateVariableStore_writes (hwrite : ∀ calls call, write calls call = .success)
    {nonVolatileVariableBase dataPtrIndex : Nat} {setByIndex : Bool} {buffer : Bytes}
    (hstart : volume.base ≤ dataPtr nonVolatileVariableBase setByIndex dataPtrIndex)
    (hend : dataPtr nonVolatileVariableBase setByIndex dataPtrIndex + buffer.length <
      volume.base + volume.fvLength) :
    Exact (blockLengths volume.blockMap)
      (dataPtr nonVolatileVariableBase setByIndex dataPtrIndex - volume.base) buffer
      (updateVariableStore write (some volume) nonVolatileVariableBase setByIndex dataPtrIndex
        buffer.length buffer) := by
  have hfits := volume.fits
  obtain ⟨calls, hloop, hlaid, hbuffer⟩ := @writeLengths_spec write hwrite []
    (blockLengths volume.blockMap) volume.blockLengths_lt volume.base
    ⟨volume.base, 0, dataPtr nonVolatileVariableBase setByIndex dataPtrIndex, buffer.length,
      buffer, []⟩ rfl rfl hstart (by rw [volume.tiles]; exact hend) rfl
  rw [nil_append] at hlaid
  have hresult : updateVariableStore write (some volume) nonVolatileVariableBase setByIndex
      dataPtrIndex buffer.length buffer = (.success, calls) := by
    simp only [updateVariableStore, Nat.mod_eq_of_lt hfits, Nat.mod_eq_of_lt (hend.trans hfits),
      if_neg (not_le.mpr hend), if_neg (not_lt.mpr hstart), writeMap_eq volume.numBlocks_pos,
      hloop, nil_append]
  rw [hresult]
  refine ⟨rfl, hlaid, hbuffer, fun content => ?_⟩
  exact (hlaid.foldl_apply content).trans (congrArg _ hbuffer)

theorem updateVariableStore_refuses {nonVolatileVariableBase dataPtrIndex dataSize : Nat}
    {setByIndex : Bool} (buffer : Bytes)
    (hend : dataPtr nonVolatileVariableBase setByIndex dataPtrIndex + dataSize =
      volume.base + volume.fvLength) :
    updateVariableStore write (some volume) nonVolatileVariableBase setByIndex dataPtrIndex
      dataSize buffer = (.invalidParameter, []) := by
  simp only [updateVariableStore, hend, le_refl, if_true]

/-- **Writes through the block map.**  Data in the volume is written exactly, in writes
inside one block each, if and only if it ends before the volume does. -/
theorem blockWrites_exact_iff (hwrite : ∀ calls call, write calls call = .success)
    {nonVolatileVariableBase dataPtrIndex : Nat} {setByIndex : Bool} {buffer : Bytes}
    (hin : InRange volume (dataPtr nonVolatileVariableBase setByIndex dataPtrIndex)
      buffer.length) :
    Exact (blockLengths volume.blockMap)
        (dataPtr nonVolatileVariableBase setByIndex dataPtrIndex - volume.base) buffer
        (updateVariableStore write (some volume) nonVolatileVariableBase setByIndex dataPtrIndex
          buffer.length buffer) ↔
      dataPtr nonVolatileVariableBase setByIndex dataPtrIndex + buffer.length <
        volume.base + volume.fvLength := by
  constructor
  · intro hexact
    by_contra hge
    have hstatus := hexact.status
    rw [updateVariableStore_refuses buffer (le_antisymm hin.stop (not_lt.mp hge))] at hstatus
    cases hstatus
  · exact updateVariableStore_writes hwrite hin.start

/-- Two blocks of eight bytes and one of sixteen. -/
def sampleVolume : FirmwareVolume where
  base := 4096
  fvLength := 32
  blockMap := [⟨2, 8⟩, ⟨1, 16⟩]
  numBlocks_pos := by decide
  length_lt := by decide
  tiles := rfl
  fits := by decide

/-- A write over the first block edge and the second. -/
theorem blockWrites_exact_iff_sample :
    Exact (blockLengths sampleVolume.blockMap) 6 (List.replicate 12 1)
        (updateVariableStore (fun _ _ => .success) (some sampleVolume) 4100 true 2 12
          (List.replicate 12 1)) ↔
      (4114 : Nat) < 4128 :=
  @blockWrites_exact_iff _ sampleVolume (fun _ _ => rfl) 4100 2 true (List.replicate 12 1)
    ⟨by decide, by decide, by decide⟩

/-- The last four bytes of a volume cannot be written. -/
theorem blockWrites_refused_at_end :
    ¬ ∀ (write : List WriteCall → WriteCall → EfiStatus) (volume : FirmwareVolume)
      (nonVolatileVariableBase dataPtrIndex : Nat) (setByIndex : Bool) (buffer : Bytes),
      (∀ calls call, write calls call = .success) →
      InRange volume (dataPtr nonVolatileVariableBase setByIndex dataPtrIndex) buffer.length →
      Exact (blockLengths volume.blockMap)
        (dataPtr nonVolatileVariableBase setByIndex dataPtrIndex - volume.base) buffer
        (updateVariableStore write (some volume) nonVolatileVariableBase setByIndex dataPtrIndex
          buffer.length buffer) := by
  intro hall
  have hexact := hall (fun _ _ => .success) sampleVolume 4096 4124 false [1, 2, 3, 4]
    (fun _ _ => rfl) ⟨by decide, by decide, by decide⟩
  exact absurd hexact.status (by decide)

end Whole

end Fvb
end Variable
end Udk
