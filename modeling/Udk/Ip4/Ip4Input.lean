import Udk.NetLib.NetBytes

/-!
# IPv4 input

`Ip4PreProcessPacket` and `Ip4Reassemble`.  The entries of the assemble table are in the
order of their buckets, the fragments of an entry in that of their list.  No result stands
for a failed `ASSERT` and for a `NetbufTrim` that leaves the blocks of its buffer.
-/

namespace Udk
namespace Ip4

open NetLib

instance neZeroNibble : NeZero (16 : Nat) :=
  ⟨by decide⟩

/-- `IP4_HEAD`, in host byte order. -/
structure Ip4Head where
  headLen : Fin 16
  ver : Fin 16
  totalLen : UInt16
  id : UInt16
  fragment : UInt16
  protocol : UInt8
  checksum : UInt16
  src : UInt32
  dst : UInt32
deriving DecidableEq

/-- `IP4_CLIP_INFO`. -/
structure ClipInfo where
  linkFlag : UInt32
  castType : Int
  start : Int
  end_ : Int
  length : Int
deriving DecidableEq

/-- A packet: `Packet->Ip.Ip4`, its `IP4_CLIP_INFO`, and its bytes. -/
structure Packet where
  ip4 : Ip4Head
  info : ClipInfo
  data : List UInt8
deriving DecidableEq

def ip4HeadDfMask : UInt16 := 0x4000
def ip4HeadMfMask : UInt16 := 0x2000
def ip4HeadOffsetMask : UInt16 := 0x1fff
def ip4MinHeadLen : Nat := 20
def ip4MaxPacketSize : Int := 65535

/-- `IP4_LAST_FRAGMENT`. -/
def lastFragment (fragment : UInt16) : Bool :=
  fragment &&& ip4HeadMfMask == 0

section PreProcess

/-- A packet that was received, with its header, and what the checks find for it:
`NetblockChecksum` of the header, `Ip4GetHostCast` and `Ip4OptionIsValid`. -/
structure Frame where
  head : Ip4Head
  data : List UInt8
  linkFlag : UInt32
  headChecksum : UInt16
  castType : Int
  optionLen : Nat
  optionValid : Bool
deriving DecidableEq

/-- What becomes of a packet in front of the reassembly. -/
inductive PreProcessed where
  | invalid
  | whole (packet : Packet)
  | fragment (packet : Packet)
deriving DecidableEq

/-- The trailer that a frame may have behind the packet is trimmed off. -/
def trimTrailer (frame : Frame) : Option (List UInt8) :=
  if frame.head.totalLen.toNat < frame.data.length then
    trimBytes frame.data (frame.data.length - frame.head.totalLen.toNat) false
  else some frame.data

/-- The packet information that `Ip4PreProcessPacket` sets up. -/
def clipInfoOf (frame : Frame) : ClipInfo :=
  let start : Int := ((frame.head.fragment &&& ip4HeadOffsetMask).toNat <<< 3 : Nat)
  let length : Int := frame.head.totalLen.toNat - (frame.head.headLen.val * 4 : Nat)
  { linkFlag := frame.linkFlag
    castType := frame.castType
    start := start
    end_ := start + length
    length := length }

/-- The checks of a packet that is a fragment. -/
def checkFragment (packet : Packet) : PreProcessed :=
  if packet.ip4.fragment &&& ip4HeadDfMask ≠ 0 then .invalid
  else if packet.ip4.fragment &&& ip4HeadMfMask ≠ 0 ∧ packet.info.length % 8 ≠ 0 then .invalid
  else .fragment packet

/-- `Ip4PreProcessPacket` in front of the reassembly. -/
def checkPacket (frame : Frame) : PreProcessed :=
  let headLen := frame.head.headLen.val * 4
  let totalLen := frame.head.totalLen.toNat
  if frame.data.length < ip4MinHeadLen then .invalid
  else
    match trimTrailer frame with
    | none => .invalid
    | some data =>
      if frame.head.ver ≠ 4 ∨ headLen < ip4MinHeadLen ∨ totalLen < headLen ∨
          totalLen ≠ data.length then .invalid
      else if frame.head.checksum ≠ 0 ∧ ~~~frame.headChecksum ≠ 0 then .invalid
      else
        let info := clipInfoOf frame
        if info.castType = 0 ∨ info.end_ > ip4MaxPacketSize then .invalid
        else if frame.optionLen > 0 ∧ frame.optionValid = false then .invalid
        else
          match trimBytes data headLen true with
          | none => .invalid
          | some data =>
            let packet := ⟨frame.head, info, data⟩
            if frame.head.fragment &&& ip4HeadMfMask ≠ 0 ∨ info.start ≠ 0 then
              checkFragment packet
            else .whole packet

end PreProcess

section Reassemble

/-- `IP4_ASSEMBLE_ENTRY`; `Head` and `Info` by what they point to. -/
structure AssembleEntry where
  dst : UInt32
  src : UInt32
  id : UInt16
  protocol : UInt8
  totalLen : Int
  curLen : Int
  fragments : List Packet
  head : Option Ip4Head
  info : Option ClipInfo
deriving DecidableEq

/-- `IP4_ASSEMBLE_TABLE`. -/
abbrev AssembleTable := Nat → List AssembleEntry

/-- `IP4_ASSEMBLE_HASH`. -/
def ip4AssembleHash (head : Ip4Head) : Nat :=
  ((head.dst + head.src + (head.id.toUInt32 <<< 16) + head.protocol.toUInt32) % 31).toNat

/-- The allocations of one call succeed: that of a new entry, and those of
`NetbufFromBufList`. -/
structure Allocations where
  entry : Bool
  wrap : Bool
deriving DecidableEq

/-- `Ip4CreateAssembleEntry`. -/
def ip4CreateAssembleEntry (head : Ip4Head) : AssembleEntry where
  dst := head.dst
  src := head.src
  id := head.id
  protocol := head.protocol
  totalLen := 0
  curLen := 0
  fragments := []
  head := none
  info := none

/-- The entry is that of the packet. -/
def AssembleEntry.isFor (head : Ip4Head) (entry : AssembleEntry) : Bool :=
  entry.dst == head.dst && entry.src == head.src && entry.id == head.id &&
    entry.protocol == head.protocol

/-- The first part of `Ip4TrimPacket`: the packet starts at `start`. -/
def trimFront (packet : Packet) (start : Int) : Option Packet :=
  if packet.info.start < start then
    let len := start - packet.info.start
    (trimBytes packet.data (toUint32 len) true).map fun data =>
      { packet with
        info := { packet.info with start := start, length := packet.info.length - len }
        data := data }
  else some packet

/-- The second part of `Ip4TrimPacket`: the packet ends at `end_`. -/
def trimBack (packet : Packet) (end_ : Int) : Option Packet :=
  if end_ < packet.info.end_ then
    let len := end_ - packet.info.end_
    (trimBytes packet.data (toUint32 len) false).map fun data =>
      { packet with
        info := { packet.info with end_ := end_, length := packet.info.length - len }
        data := data }
  else some packet

/-- `Ip4TrimPacket`. -/
def ip4TrimPacket (packet : Packet) (start end_ : Int) : Option Packet :=
  if packet.info.start + packet.info.length = packet.info.end_ ∧
      packet.info.start < end_ ∧ start < packet.info.end_ then
    (trimFront packet start).bind fun packet => trimBack packet end_
  else none

/-- The check against the previous fragment: the packet that is left; it may be freed. -/
def trimAgainstPrev (packet : Packet) (prev : Option Packet) : Option (Option Packet) :=
  match prev with
  | none => some (some packet)
  | some node =>
    if packet.info.start < node.info.end_ then
      if packet.info.end_ ≤ node.info.end_ then some none
      else (ip4TrimPacket packet node.info.end_ packet.info.end_).map some
    else some (some packet)

/-- What the loop over the fragments behind the insert point leaves: the packet unless it
is dropped, these fragments, and `CurLen`. -/
structure Scan where
  packet : Option Packet
  rest : List Packet
  curLen : Int
deriving DecidableEq

/-- The loop over the fragments behind the insert point. -/
def scanBehind (packet : Packet) : List Packet → Int → Option Scan
  | [], curLen => some ⟨some packet, [], curLen⟩
  | node :: rest, curLen =>
    if node.info.end_ ≤ packet.info.end_ then
      scanBehind packet rest (curLen - node.info.length)
    else if node.info.start < packet.info.end_ then
      if packet.info.start = node.info.start then some ⟨none, node :: rest, curLen⟩
      else
        (ip4TrimPacket packet packet.info.start node.info.start).map fun packet =>
          ⟨some packet, node :: rest, curLen⟩
    else some ⟨some packet, node :: rest, curLen⟩

/-- The update of the entry for a packet that has been inserted. -/
def enterPacket (entry : AssembleEntry) (packet : Packet) (fragments : List Packet)
    (curLen : Int) : Option AssembleEntry :=
  let entry := { entry with fragments := fragments, curLen := curLen + packet.info.length }
  let totalLen :=
    if lastFragment packet.ip4.fragment = true ∧ entry.totalLen = 0 then packet.info.end_
    else entry.totalLen
  if packet.info.start = 0 then
    if entry.head.isSome then none
    else
      some { entry with
        head := some packet.ip4, info := some packet.info, totalLen := totalLen }
  else some { entry with totalLen := totalLen }

/-- What a call leaves of the entry. -/
inductive Outcome where
  /-- `NULL` is returned, and the entry stays. -/
  | kept (entry : AssembleEntry)
  /-- The entry is removed; it is freed unless a packet is returned. -/
  | removed (packet : Option Packet)
deriving DecidableEq

/-- The packet is delivered if all the fragments have been received. -/
def deliverPacket (entry : AssembleEntry) (wrap : Bool) : Option Outcome :=
  if entry.totalLen ≠ 0 ∧ entry.curLen ≥ entry.totalLen then
    match entry.fragments.getLast? with
    | none => none
    | some last =>
      if last.info.end_ ≠ entry.totalLen then some (.removed none)
      else if wrap = false then some (.removed none)
      else if entry.fragments.all fun fragment => fragment.data.isEmpty then
        -- `ASSERT (ExtNum > 0)` in `NetbufFromExt`
        none
      else
        match entry.head, entry.info with
        | some head, some info =>
          some (.removed (some ⟨head, info, entry.fragments.flatMap Packet.data⟩))
        | _, _ => none
  else some (.kept entry)

/-- `Ip4Reassemble` from the search of the insert point on. -/
def assembleInto (entry : AssembleEntry) (packet : Packet) (wrap : Bool) : Option Outcome :=
  let before := entry.fragments.takeWhile fun node => !decide (packet.info.start < node.info.start)
  let after := entry.fragments.dropWhile fun node => !decide (packet.info.start < node.info.start)
  match trimAgainstPrev packet before.getLast? with
  | none => none
  | some none => some (.kept entry)
  | some (some packet) =>
    match scanBehind packet after entry.curLen with
    | none => none
    | some ⟨none, rest, curLen⟩ =>
      some (.kept { entry with fragments := before ++ rest, curLen := curLen })
    | some ⟨some packet, rest, curLen⟩ =>
      (enterPacket entry packet (before ++ packet :: rest) curLen).bind fun entry =>
        deliverPacket entry wrap

/-- The bucket with the entry, or without it, and the packet that is returned. -/
def Outcome.inBucket (before after : List AssembleEntry) :
    Outcome → Option Packet × List AssembleEntry
  | .kept entry => (none, before ++ entry :: after)
  | .removed packet => (packet, before ++ after)

/-- `Ip4Reassemble` in the bucket of the packet. -/
def reassembleInBucket (bucket : List AssembleEntry) (packet : Packet) (alloc : Allocations) :
    Option (Option Packet × List AssembleEntry) :=
  let before := bucket.takeWhile fun entry => !entry.isFor packet.ip4
  match bucket.dropWhile fun entry => !entry.isFor packet.ip4 with
  | entry :: after =>
    (assembleInto entry packet alloc.wrap).map fun outcome => outcome.inBucket before after
  | [] =>
    if alloc.entry = false then some (none, bucket)
    else
      (assembleInto (ip4CreateAssembleEntry packet.ip4) packet alloc.wrap).map fun outcome =>
        outcome.inBucket [] bucket

/-- `Ip4Reassemble`. -/
def ip4Reassemble (table : AssembleTable) (packet : Packet) (alloc : Allocations) :
    Option (Option Packet × AssembleTable) :=
  let index := ip4AssembleHash packet.ip4
  (reassembleInBucket (table index) packet alloc).map fun result =>
    (result.1, Function.update table index result.2)

/-- `Ip4PreProcessPacket`: the packet unless it is not complete or malformed. -/
def ip4PreProcessPacket (table : AssembleTable) (frame : Frame) (alloc : Allocations) :
    Option (Option Packet × AssembleTable) :=
  match checkPacket frame with
  | .invalid => some (none, table)
  | .whole packet => some (some packet, table)
  | .fragment packet => ip4Reassemble table packet alloc

end Reassemble

end Ip4
end Udk
