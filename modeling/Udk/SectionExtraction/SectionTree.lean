import Udk.Forest
import Udk.SectionExtraction.FindSection

/-!
# The tree of sections

What the bytes of a section stream mean: the sections of the stream in their order, and below each
one the sections of the stream that it expands to while the given protocols are usable.  Only a
well-formed stream has a tree.  The depth is fuel.
-/

namespace Udk
namespace SectionExtraction

/-- A section as a caller sees it. -/
structure Entry where
  type : Nat
  definitionGuid : Option Guid
  extended : Bool
  payload : Bytes
  authenticationStatus : Nat
  deriving DecidableEq, Repr

/-- The section at an offset of a stream with the given status. -/
def entryAt (buffer : Bytes) (offset status : Nat) : Entry where
  type := sectionType buffer offset
  definitionGuid :=
    if sectionType buffer offset = sectionGuidDefined
    then some (sectionDefinitionGuid buffer offset) else none
  extended := isSection2 buffer offset
  payload := sectionPayload buffer offset
  authenticationStatus := status

/-- The section has the type looked for, and the GUID if one is given. -/
def Entry.isWanted (target : Target) (e : Entry) : Bool :=
  target.searchType == sectionAll ||
    (e.type == target.searchType &&
      (target.searchType != sectionGuidDefined || target.sectionDefinitionGuid.isNone ||
        target.sectionDefinitionGuid == e.definitionGuid))

section Tree

variable (plat : Platform) (usable : Guid → Bool)

/-- What a compression section contains. -/
def compressionContent (buffer : Bytes) (offset : Nat) : Bytes :=
  if uncompressedLength buffer offset = 0 then []
  else if compressionType buffer offset = notCompressed then
    slice buffer (offset + compressionHeaderSize buffer offset) (uncompressedLength buffer offset)
  else plat.decompress (compressionSource buffer offset)

/-- The stream that a section expands to, with its status: a compression section hands down the
status of its own stream, an extracted one combines it with the status of the extraction, and a
guided section that needs no processing is read as it stands. -/
def expansion (buffer : Bytes) (offset status : Nat) : Option (Bytes × Nat) :=
  if sectionType buffer offset = sectionCompression then
    some (compressionContent plat buffer offset, status)
  else if sectionType buffer offset = sectionGuidDefined then
    if usable (sectionDefinitionGuid buffer offset) then
      let extracted := plat.extractSection (sectionDefinitionGuid buffer offset)
        (sectionBytes buffer offset)
      some (extracted.1, extractedStatus (guidedAttributes buffer offset) extracted.2 status)
    else if hasBit (guidedAttributes buffer offset) processingRequiredBit then none
    else
      some (guidedData buffer offset, unprocessedStatus (guidedAttributes buffer offset) status)
  else none

/-- A compression section has its header, a known compression type and the length it announces. -/
def CompressionOk (buffer : Bytes) (offset : Nat) : Prop :=
  9 ≤ sectionSize buffer offset ∧
    compressionHeaderSize buffer offset ≤ sectionSize buffer offset ∧
    (uncompressedLength buffer offset = 0 ∨
      (compressionType buffer offset = notCompressed ∧
        compressionHeaderSize buffer offset + uncompressedLength buffer offset
          ≤ sectionSize buffer offset) ∨
      (compressionType buffer offset = standardCompression ∧
        (plat.decompress (compressionSource buffer offset)).length
          = uncompressedLength buffer offset))

/-- A guided section has its header, and its data starts inside it. -/
def GuidedOk (buffer : Bytes) (offset : Nat) : Prop :=
  headerSize buffer offset + 20 ≤ sectionSize buffer offset ∧
    dataOffset buffer offset ≤ sectionSize buffer offset

/-- The section at an offset is well formed and stays below 4 GB. -/
def SectionOk (buffer : Bytes) (offset : Nat) : Prop :=
  headerSize buffer offset ≤ sectionSize buffer offset ∧
    offset + sectionSize buffer offset ≤ buffer.length ∧
    offset + sectionSize buffer offset + 3 < 2 ^ 32 ∧
    (sectionType buffer offset = sectionCompression → CompressionOk plat buffer offset) ∧
    (sectionType buffer offset = sectionGuidDefined → GuidedOk buffer offset)

instance (buffer : Bytes) (offset : Nat) : Decidable (CompressionOk plat buffer offset) :=
  inferInstanceAs (Decidable (_ ∧ _ ∧ _))

instance (buffer : Bytes) (offset : Nat) : Decidable (GuidedOk buffer offset) :=
  inferInstanceAs (Decidable (_ ∧ _))

instance (buffer : Bytes) (offset : Nat) : Decidable (SectionOk plat buffer offset) :=
  inferInstanceAs (Decidable (_ ∧ _ ∧ _ ∧ _ ∧ _))

/-- The offset of the section behind the one at `offset`. -/
def nextOffset (buffer : Bytes) (offset : Nat) : Nat :=
  (offset + sectionSize buffer offset + 3) / 4 * 4

/-- The sections of a stream from an offset on, each with the sections that it expands to. -/
def sectionTree : Nat → Bytes → Nat → Nat → Option (Forest Entry)
  | 0, _, _, _ => none
  | depth + 1, buffer, offset, status =>
      if buffer.length < offset + 4 then
        if offset = 0 ∧ buffer ≠ [] then none else some .nil
      else if SectionOk plat buffer offset then
        let inner :=
          match expansion plat usable buffer offset status with
          | none => some .nil
          | some x => sectionTree depth x.1 0 x.2
        match inner, sectionTree depth buffer (nextOffset buffer offset) status with
        | some f, some g => some (.cons (entryAt buffer offset status) f g)
        | _, _ => none
      else none

end Tree

section TreeCases

variable {plat : Platform} {usable : Guid → Bool} {depth : Nat} {buffer : Bytes}
  {offset status : Nat} {f : Forest Entry}

theorem sectionTree_end
    (h : sectionTree plat usable depth buffer offset status = some f)
    (hend : buffer.length < offset + 4) :
    f = .nil ∧ (offset = 0 → buffer = []) := by
  cases depth with
  | zero => exact absurd h (by simp [sectionTree])
  | succ depth =>
      rw [sectionTree, if_pos hend] at h
      split at h
      case isTrue hbad => exact absurd h (by simp)
      case isFalse hgood =>
        have hempty : offset = 0 → buffer = [] := by
          intro hzero
          by_contra hne
          exact hgood ⟨hzero, hne⟩
        exact ⟨(Option.some.inj h).symm, hempty⟩

theorem sectionTree_section
    (h : sectionTree plat usable (depth + 1) buffer offset status = some f)
    (hroom : offset + 4 ≤ buffer.length) :
    SectionOk plat buffer offset ∧
      ∃ inner rest,
        f = .cons (entryAt buffer offset status) inner rest ∧
        (match expansion plat usable buffer offset status with
          | none => inner = .nil
          | some x => sectionTree plat usable depth x.1 0 x.2 = some inner) ∧
        sectionTree plat usable depth buffer (nextOffset buffer offset) status = some rest := by
  rw [sectionTree, if_neg (by omega)] at h
  split at h
  case isFalse => exact absurd h (by simp)
  case isTrue hok =>
    dsimp only at h
    split at h
    case h_2 => exact absurd h (by simp)
    case h_1 inner rest hinner hrest =>
      refine ⟨hok, inner, rest, (Option.some.inj h).symm, ?_, hrest⟩
      split at hinner
      · exact (Option.some.inj hinner).symm
      · exact hinner

theorem sectionOk_of_tree
    (h : sectionTree plat usable depth buffer offset status = some f)
    (hroom : offset + 4 ≤ buffer.length) :
    SectionOk plat buffer offset := by
  cases depth with
  | zero => exact absurd h (by simp [sectionTree])
  | succ depth => exact (sectionTree_section h hroom).1

end TreeCases

section Create

variable {plat : Platform} {buffer : Bytes} {offset : Nat}

theorem expandCompression_eq
    (h : CompressionOk plat buffer offset) :
    expandCompression plat buffer offset = .ok (compressionContent plat buffer offset) := by
  obtain ⟨-, -, hkind⟩ := h
  unfold expandCompression compressionContent
  by_cases hzero : uncompressedLength buffer offset = 0
  · rw [if_pos hzero, if_pos hzero]
  · rw [if_neg hzero, if_neg hzero]
    rcases hkind with hzero' | ⟨hnone, -⟩ | ⟨hstandard, hlen⟩
    · exact absurd hzero' hzero
    · rw [if_pos hnone, if_pos hnone]
    · have hother : compressionType buffer offset ≠ notCompressed := by
        rw [hstandard]
        decide
      rw [if_neg hother, if_neg hother, if_pos hstandard, if_neg (by simp [hlen])]

variable {s : State} {handle : Nat} {stream : StreamNode}

/-- The event for a new child that has to wait for its protocol. -/
def newEvents (buffer : Bytes) (offset handle place : Nat) : List RpnEventContext :=
  if sectionType buffer offset = sectionGuidDefined
  then [⟨handle, place, sectionDefinitionGuid buffer offset⟩] else []

/-- Add a child node and register events for it. -/
def addChild (s : State) (handle : Nat) (node : ChildNode) (events : List RpnEventContext) :
    State where
  streams := s.streams.modify handle
    fun stream => { stream with children := stream.children ++ [node] }
  events := s.events ++ events
  recorded := s.recorded
  protocols := s.protocols

/-- The state after a well-formed section has been parsed. -/
def parsed (plat : Platform) (s : State) (handle : Nat) (stream : StreamNode) (offset : Nat) :
    State :=
  match expansion plat (verifyGuidedSectionGuid s) stream.streamBuffer offset
      stream.authenticationStatus with
  | none =>
      addChild s handle (newNode stream.streamBuffer offset)
        (newEvents stream.streamBuffer offset handle stream.children.length)
  | some x =>
      addChild (openSectionStreamEx s x.1 x.2) handle
        { newNode stream.streamBuffer offset with
          encapsulatedStreamHandle := some s.streams.length } []

theorem insertChild_eq
    (s : State) (handle : Nat) (node : ChildNode) :
    insertChild s handle node = addChild s handle node [] := by
  rw [insertChild, addChild, List.append_nil]

/-- `CreateChildNode` on a well-formed section: the stream it expands to is opened, and a section
without one waits for its protocol or is a leaf. -/
theorem createChildNode_eq
    (h : SectionOk plat stream.streamBuffer offset) :
    createChildNode plat s handle stream offset = .ok (parsed plat s handle stream offset) := by
  obtain ⟨-, -, -, hcompression, -⟩ := h
  unfold createChildNode parsed expansion
  dsimp only [newNode]
  by_cases hcomp : sectionType stream.streamBuffer offset = sectionCompression
  · have hok := hcompression hcomp
    rw [if_pos hcomp, if_pos hcomp, if_neg (by have := hok.1; omega), expandCompression_eq hok]
    simp only [insertEncapsulating, insertChild_eq, newNode]
  · rw [if_neg hcomp, if_neg hcomp]
    by_cases hguid : sectionType stream.streamBuffer offset = sectionGuidDefined
    · rw [if_pos hguid, if_pos hguid]
      by_cases husable : verifyGuidedSectionGuid s
          (sectionDefinitionGuid stream.streamBuffer offset) = true
      · rw [if_pos husable, if_pos husable]
        simp only [insertEncapsulating, insertChild_eq, newNode, if_pos hguid]
      · rw [if_neg husable, if_neg husable]
        by_cases hreq : hasBit (guidedAttributes stream.streamBuffer offset)
            processingRequiredBit = true
        · rw [if_pos hreq, if_pos hreq]
          simp only [insertChild, createGuidedExtractionRpnEvent, addChild, newEvents, if_pos hguid,
            newNode]
        · rw [if_neg hreq, if_neg hreq]
          simp only [insertEncapsulating, insertChild_eq, newNode, if_pos hguid]
    · rw [if_neg hguid, if_neg hguid]
      simp only [insertChild_eq, newEvents, if_neg hguid, newNode]

end Create

end SectionExtraction
end Udk
