import Udk.Bytes

/-!
# Section streams and their child nodes

`CoreSectionExtraction.c`: the stream database, the constructor of a child node with the stream
that it encapsulates, and the notification that expands a guided section later.  A stream handle
is the place of the stream in the database, a child is known by its stream and its place there.
The decompression and the extraction protocols are functions that succeed.
-/

namespace Udk
namespace SectionExtraction

inductive EfiStatus
  | success
  | warnBufferTooSmall
  | invalidParameter
  | notFound
  | protocolError
  | badBufferSize
  deriving DecidableEq, Repr

/-- `EFI_ERROR` -/
def EfiStatus.isError : EfiStatus → Bool
  | .success => false
  | .warnBufferTooSmall => false
  | _ => true

/-- The sixteen bytes of an `EFI_GUID`. -/
abbrev Guid := Bytes

/-- `EFI_SECTION_ALL` -/
def sectionAll : Nat := 0

/-- `EFI_SECTION_COMPRESSION` -/
def sectionCompression : Nat := 1

/-- `EFI_SECTION_GUID_DEFINED` -/
def sectionGuidDefined : Nat := 2

/-- `EFI_NOT_COMPRESSED` -/
def notCompressed : Nat := 0

/-- `EFI_STANDARD_COMPRESSION` -/
def standardCompression : Nat := 1

/-- `EFI_GUIDED_SECTION_PROCESSING_REQUIRED` -/
def processingRequiredBit : Nat := 1

/-- `EFI_GUIDED_SECTION_AUTH_STATUS_VALID` -/
def authStatusValidBit : Nat := 2

/-- `EFI_AUTH_STATUS_IMAGE_SIGNED` -/
def imageSigned : Nat := 2

/-- `EFI_AUTH_STATUS_NOT_TESTED` -/
def notTested : Nat := 4

/-- `EFI_AUTH_STATUS_ALL` -/
def authStatusAll : Nat := 0x0F

section Header

variable (buffer : Bytes) (offset : Nat)

/-- `SECTION_SIZE` -/
def shortSize : Nat := field buffer offset 3

/-- `IS_SECTION2` -/
def isSection2 : Bool := shortSize buffer offset == 0xFFFFFF

/-- `SECTION2_SIZE` -/
def section2Size : Nat := field buffer (offset + 4) 4

/-- The size of a section by the header that it has. -/
def sectionSize : Nat :=
  if isSection2 buffer offset then section2Size buffer offset else shortSize buffer offset

/-- `sizeof (EFI_COMMON_SECTION_HEADER2)` or `sizeof (EFI_COMMON_SECTION_HEADER)`. -/
def headerSize : Nat := if isSection2 buffer offset then 8 else 4

/-- `SectionHeader->Type` -/
def sectionType : Nat := field buffer (offset + 3) 1

/-- `CompressionHeader->UncompressedLength` -/
def uncompressedLength : Nat := field buffer (offset + headerSize buffer offset) 4

/-- `CompressionHeader->CompressionType` -/
def compressionType : Nat := field buffer (offset + headerSize buffer offset + 4) 1

/-- `sizeof (EFI_COMPRESSION_SECTION2)` or `sizeof (EFI_COMPRESSION_SECTION)`. -/
def compressionHeaderSize : Nat := headerSize buffer offset + 5

/-- What stands behind the header of a compression section. -/
def compressionSource : Bytes :=
  slice buffer (offset + compressionHeaderSize buffer offset)
    (sectionSize buffer offset - compressionHeaderSize buffer offset)

/-- `GuidedHeader->SectionDefinitionGuid` -/
def sectionDefinitionGuid : Guid := slice buffer (offset + headerSize buffer offset) 16

/-- `GuidedHeader->DataOffset` -/
def dataOffset : Nat := field buffer (offset + headerSize buffer offset + 16) 2

/-- `GuidedHeader->Attributes` -/
def guidedAttributes : Nat := field buffer (offset + headerSize buffer offset + 18) 2

/-- `((EFI_GUID_DEFINED_SECTION *) GuidedHeader)->Attributes`, whatever header the section has. -/
def standardAttributes : Nat := field buffer (offset + 22) 2

/-- The bytes of a section with its header. -/
def sectionBytes : Bytes := slice buffer offset (sectionSize buffer offset)

/-- What a guided section holds from its `DataOffset` on. -/
def guidedData : Bytes :=
  slice buffer (offset + dataOffset buffer offset)
    (sectionSize buffer offset - dataOffset buffer offset)

end Header

/-- The bit of an attribute word. -/
def hasBit (word bit : Nat) : Bool := word &&& bit != 0

/-- The decompression protocol, the extraction protocol of each GUID with its authentication
status, and what fresh pool memory holds. -/
structure Platform where
  decompress : Bytes → Bytes
  extractSection : Guid → Bytes → Bytes × Nat
  poolMemory : Nat → Bytes

/-- `CORE_SECTION_CHILD_NODE`, with `none` for the null handle. -/
structure ChildNode where
  type : Nat
  size : Nat
  offsetInStream : Nat
  encapsulatedStreamHandle : Option Nat
  encapsulationGuid : Option Guid
  deriving DecidableEq, Repr

/-- `CORE_SECTION_STREAM_NODE`; `StreamLength` is the length of the buffer. -/
structure StreamNode where
  streamBuffer : Bytes
  children : List ChildNode
  authenticationStatus : Nat
  deriving DecidableEq, Repr

/-- `RPN_EVENT_CONTEXT` with the GUID that the event is registered for. -/
structure RpnEventContext where
  parentStream : Nat
  childNode : Nat
  guid : Guid
  deriving DecidableEq, Repr

/-- `mStreamRoot`, the registered events in their order, the GUIDs recorded in the configuration
table, and the extraction protocols in the handle database. -/
structure State where
  streams : List StreamNode
  events : List RpnEventContext
  recorded : List Guid
  protocols : List Guid
  deriving DecidableEq, Repr

/-- No stream is open. -/
def State.initial : State where
  streams := []
  events := []
  recorded := []
  protocols := []

section Streams

variable (s : State)

/-- Add a new stream to the stream list. -/
def openSectionStreamEx (sectionStream : Bytes) (authenticationStatus : Nat) : State where
  streams := s.streams ++ [⟨sectionStream, [], authenticationStatus⟩]
  events := s.events
  recorded := s.recorded
  protocols := s.protocols

/-- Add a new child node to the stream with the given handle. -/
def insertChild (handle : Nat) (node : ChildNode) : State where
  streams := s.streams.modify handle
    fun stream => { stream with children := stream.children ++ [node] }
  events := s.events
  recorded := s.recorded
  protocols := s.protocols

/-- The GUID is recorded in the configuration table and its protocol is installed. -/
def verifyGuidedSectionGuid (guid : Guid) : Bool :=
  s.recorded.contains guid && s.protocols.contains guid

/-- Register the notification for the child node that is added next. -/
def createGuidedExtractionRpnEvent (handle childNode : Nat) (guid : Guid) : State where
  streams := s.streams
  events := s.events ++ [⟨handle, childNode, guid⟩]
  recorded := s.recorded
  protocols := s.protocols

end Streams

section CreateChild

variable (plat : Platform) (s : State)

/-- The stream that a compression section encapsulates. -/
def expandCompression (buffer : Bytes) (offset : Nat) : Except EfiStatus Bytes :=
  if uncompressedLength buffer offset = 0 then .ok []
  else if compressionType buffer offset = notCompressed then
    .ok (slice buffer (offset + compressionHeaderSize buffer offset)
      (uncompressedLength buffer offset))
  else if compressionType buffer offset = standardCompression then
    if (plat.decompress (compressionSource buffer offset)).length
        ≠ uncompressedLength buffer offset then .error .badBufferSize
    else .ok (plat.decompress (compressionSource buffer offset))
  else .ok (plat.poolMemory (uncompressedLength buffer offset))

/-- The status of an extracted stream, by the attributes read and the status of the parent. -/
def extractedStatus (attributes extracted parent : Nat) : Nat :=
  if hasBit attributes authStatusValidBit then extracted ||| (parent &&& authStatusAll)
  else parent

/-- The status of a guided stream that is read without its protocol. -/
def unprocessedStatus (attributes parent : Nat) : Nat :=
  if hasBit attributes authStatusValidBit then parent ||| (imageSigned ||| notTested)
  else parent

/-- The node for the section at `childOffset`, not encapsulating anything yet. -/
def newNode (buffer : Bytes) (childOffset : Nat) : ChildNode where
  type := sectionType buffer childOffset
  size := sectionSize buffer childOffset
  offsetInStream := childOffset
  encapsulatedStreamHandle := none
  encapsulationGuid :=
    if sectionType buffer childOffset = sectionGuidDefined
    then some (sectionDefinitionGuid buffer childOffset) else none

/-- Add the node with a new stream behind it. -/
def insertEncapsulating (handle : Nat) (node : ChildNode) (inner : Bytes) (status : Nat) : State :=
  insertChild (openSectionStreamEx s inner status) handle
    { node with encapsulatedStreamHandle := some s.streams.length }

/-- Constructor for a new child node of `stream`, which has the given handle. -/
def createChildNode (handle : Nat) (stream : StreamNode) (childOffset : Nat) :
    Except EfiStatus State :=
  let buffer := stream.streamBuffer
  let node := newNode buffer childOffset
  let guid := sectionDefinitionGuid buffer childOffset
  let attributes := guidedAttributes buffer childOffset
  if node.type = sectionCompression then
    if node.size < 9 then .error .notFound
    else
      match expandCompression plat buffer childOffset with
      | .error e => .error e
      | .ok inner =>
          .ok (insertEncapsulating s handle node inner stream.authenticationStatus)
  else if node.type = sectionGuidDefined then
    if verifyGuidedSectionGuid s guid then
      let extracted := plat.extractSection guid (sectionBytes buffer childOffset)
      .ok (insertEncapsulating s handle node extracted.1
        (extractedStatus attributes extracted.2 stream.authenticationStatus))
    else if hasBit attributes processingRequiredBit then
      .ok (insertChild (createGuidedExtractionRpnEvent s handle stream.children.length guid)
        handle node)
    else
      .ok (insertEncapsulating s handle node (guidedData buffer childOffset)
        (unprocessedStatus attributes stream.authenticationStatus))
  else .ok (insertChild s handle node)

end CreateChild

section Notify

variable (plat : Platform) (s : State)

/-- The child of an event context gets an encapsulated stream. -/
def setEncapsulated (context : RpnEventContext) (handle : Nat) : State where
  streams := s.streams.modify context.parentStream fun stream =>
    { stream with children := stream.children.modify context.childNode fun child =>
        { child with encapsulatedStreamHandle := some handle } }
  events := s.events
  recorded := s.recorded
  protocols := s.protocols

/-- The event is closed and its context freed. -/
def closeEvent (context : RpnEventContext) : State where
  streams := s.streams
  events := s.events.filter (· ≠ context)
  recorded := s.recorded
  protocols := s.protocols

/-- The status that the notification gives to the stream; it reads the attributes where a section
with a standard header has them. -/
def notifiedStatus (buffer : Bytes) (offset extracted parent : Nat) : Nat :=
  extractedStatus (standardAttributes buffer offset) extracted parent

/-- Initialize the section stream of a guided section when its protocol is installed. -/
def notifyGuidedExtraction (context : RpnEventContext) : State :=
  match s.streams[context.parentStream]? with
  | none => s
  | some parent =>
      match parent.children[context.childNode]? with
      | none => s
      | some child =>
          match child.encapsulationGuid with
          | none => s
          | some guid =>
              if verifyGuidedSectionGuid s guid then
                let extracted := plat.extractSection guid
                  (sectionBytes parent.streamBuffer child.offsetInStream)
                let status := notifiedStatus parent.streamBuffer child.offsetInStream extracted.2
                  parent.authenticationStatus
                closeEvent (setEncapsulated (openSectionStreamEx s extracted.1 status) context
                  s.streams.length) context
              else s

/-- An extraction protocol is installed, and the events registered for it are signalled. -/
def installProtocol (guid : Guid) : State :=
  (s.events.filter (·.guid = guid)).foldl (notifyGuidedExtraction plat)
    { s with protocols := guid :: s.protocols }

/-- A GUID is recorded in the configuration table. -/
def recordGuid (guid : Guid) : State :=
  { s with recorded := guid :: s.recorded }

end Notify

end SectionExtraction
end Udk
