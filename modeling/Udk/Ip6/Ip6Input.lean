import Udk.NetLib.NetBytes

/-!
# IPv6 reassembly

`Ip6Reassemble`, with the buffers it frees.  A buffer is named by its address; the ones
that have been freed are kept in a list, so that a buffer freed twice is there twice.  No
result stands for a failed `ASSERT`, a null pointer that is read, and a `NetbufTrim` that
leaves the blocks of its buffer.
-/

namespace Udk
namespace Ip6

open NetLib

/-- `EFI_IPv6_ADDRESS`, as its four words in memory. -/
structure Ipv6Address where
  word0 : UInt32
  word1 : UInt32
  word2 : UInt32
  word3 : UInt32
deriving DecidableEq

/-- `EFI_IP6_HEADER`, as far as the reassembly reads it. -/
structure Ip6Head where
  nextHeader : UInt8
  sourceAddress : Ipv6Address
  destinationAddress : Ipv6Address
deriving DecidableEq

/-- `IP6_CLIP_INFO`, as far as the reassembly reads it. -/
structure ClipInfo where
  start : Int
  end_ : Int
  length : Int
  id : UInt32
  headLen : Nat
  nextHeader : UInt8
  lastFrag : Bool
  formerNextHeader : Nat
deriving DecidableEq

/-- A fragment: its `NET_BUF`, `Packet->Ip.Ip6`, its `IP6_CLIP_INFO` and its bytes, headers
included. -/
structure Packet where
  buffer : Nat
  ip6 : Ip6Head
  info : ClipInfo
  data : List UInt8
deriving DecidableEq

/-- `sizeof (EFI_IP6_HEADER)`. -/
def sizeOfIp6Header : Nat := 40

/-- `sizeof (IP6_FRAGMENT_HEADER)`. -/
def sizeOfIp6FragmentHeader : Nat := 8

/-- `IP6_FRAGMENT`. -/
def ip6Fragment : UInt8 := 44

/-- The offset of `NextHeader` in `EFI_IP6_HEADER`. -/
def nextHeaderOffset : Nat := 6

/-- `IP6_ASSEMBLE_ENTRY`. -/
structure AssembleEntry where
  dst : Ipv6Address
  src : Ipv6Address
  id : UInt32
  totalLen : Nat
  curLen : Nat
  fragments : List Packet
  /-- The fragment whose header `Head` points to, and `Info` to its information. -/
  head : Option Nat
  /-- The bytes of `Packet`, the copy of the first fragment. -/
  packet : Option (List UInt8)
deriving DecidableEq

/-- `IP6_ASSEMBLE_TABLE`. -/
abbrev AssembleTable := Nat → List AssembleEntry

/-- `IP6_ASSEMBLE_HASH`. -/
def ip6AssembleHash (head : Ip6Head) (id : UInt32) : Nat :=
  ((head.destinationAddress.word0 + head.sourceAddress.word0 + id) % 127).toNat

/-- The allocations of one call that succeed. -/
structure Allocations where
  /-- `Ip6CreateAssembleEntry`. -/
  entry : Bool
  /-- `NetbufDuplicate`. -/
  duplicate : Bool
  /-- `NetbufGetFragment`. -/
  unfragment : Bool
  /-- `NetbufFromBufList`. -/
  wrap : Bool
deriving DecidableEq

/-- The packet that is returned; its `ExtFree` frees the entry. -/
structure NewPacket where
  ip6 : Ip6Head
  info : ClipInfo
  data : List UInt8
  arg : AssembleEntry
deriving DecidableEq

/-- What a call leaves: the packet it returns, the entry unless it is removed from the
table, and the buffers that have been freed, the last one first. -/
structure Outcome where
  packet : Option NewPacket
  entry : Option AssembleEntry
  freed : List Nat
deriving DecidableEq

/-- `Ip6CreateAssembleEntry`. -/
def ip6CreateAssembleEntry (packet : Packet) : AssembleEntry where
  dst := packet.ip6.destinationAddress
  src := packet.ip6.sourceAddress
  id := packet.info.id
  totalLen := 0
  curLen := 0
  fragments := []
  head := none
  packet := none

/-- The entry is that of the packet. -/
def AssembleEntry.isFor (packet : Packet) (entry : AssembleEntry) : Bool :=
  entry.id == packet.info.id && entry.src == packet.ip6.sourceAddress &&
    entry.dst == packet.ip6.destinationAddress

/-- The fragments that `Ip6FreeAssembleEntry` frees. -/
def ip6FreeAssembleEntry (entry : AssembleEntry) (freed : List Nat) : List Nat :=
  (entry.fragments.map Packet.buffer).reverse ++ freed

/-- The label `Error`. -/
def errorExit (entry : Option AssembleEntry) (packet : Packet) (freed : List Nat) : Outcome :=
  ⟨none, entry, packet.buffer :: freed⟩

section Trim

/-- The value of an `INT32`. -/
def int32 (x : Int) : Int :=
  Int.bmod x (2 ^ 32)

/-- The first part of `Ip6TrimPacket`. -/
def trimFront (packet : Packet) (start : Int) : Option Packet :=
  if packet.info.start < start then
    let len := start - packet.info.start
    (trimBytes packet.data (toUint32 len) true).map fun data =>
      { packet with
        info := { packet.info with
          start := int32 start, length := int32 (packet.info.length - len) }
        data := data }
  else some packet

/-- The second part of `Ip6TrimPacket`. -/
def trimBack (packet : Packet) (end_ : Int) : Option Packet :=
  if end_ < packet.info.end_ then
    let len := end_ - packet.info.end_
    (trimBytes packet.data (toUint32 len) false).map fun data =>
      { packet with
        info := { packet.info with
          end_ := int32 end_, length := int32 (packet.info.length - len) }
        data := data }
  else some packet

/-- `Ip6TrimPacket`. -/
def ip6TrimPacket (packet : Packet) (start end_ : Int) : Option Packet :=
  if packet.info.start + packet.info.length = packet.info.end_ ∧
      packet.info.start < end_ ∧ start < packet.info.end_ then
    (trimFront packet start).bind fun packet => trimBack packet end_
  else none

end Trim

section Insert

/-- `CurLen + Length`. -/
def addLen (curLen : Nat) (length : Int) : Nat :=
  (curLen + toUint32 length) % 2 ^ 32

/-- `CurLen - Length`. -/
def subLen (curLen : Nat) (length : Int) : Nat :=
  (curLen + 2 ^ 32 - toUint32 length) % 2 ^ 32

/-- The check against the previous fragment, the last one of those in front: they may be
changed; the packet goes to `Error` when there is no list. -/
def trimPrev (packet : Packet) (before : List Packet) : Option (Option (List Packet)) :=
  match before.getLast? with
  | none => some (some before)
  | some node =>
    if packet.info.start < node.info.end_ then
      if packet.info.end_ ≤ node.info.end_ then some none
      else
        (ip6TrimPacket node node.info.start packet.info.start).map fun node =>
          some (before.dropLast ++ [node])
    else some (some before)

/-- What the loop over the fragments behind the insert point leaves. -/
structure Scan where
  packet : Option Packet
  rest : List Packet
  curLen : Nat
  freed : List Nat
deriving DecidableEq

/-- The loop over the fragments behind the insert point. -/
def scanBehind (packet : Packet) : List Packet → Nat → List Nat → Option Scan
  | [], curLen, freed => some ⟨some packet, [], curLen, freed⟩
  | node :: rest, curLen, freed =>
    if node.info.end_ ≤ packet.info.end_ then
      scanBehind packet rest (subLen curLen node.info.length) (node.buffer :: freed)
    else if node.info.start < packet.info.end_ then
      if packet.info.start = node.info.start then some ⟨none, node :: rest, curLen, freed⟩
      else
        (ip6TrimPacket packet packet.info.start node.info.start).map fun packet =>
          ⟨some packet, node :: rest, curLen, freed⟩
    else some ⟨some packet, node :: rest, curLen, freed⟩

end Insert

section First

/-- The next header in front of the fragment header is set to that behind it; none where
it is not in the packet. -/
def setNextHeader (packet : Packet) : Option (Option Packet) :=
  if (packet.info.headLen + 2 ^ 16 - sizeOfIp6Header) % 2 ^ 16 = 0 then
    if packet.ip6.nextHeader = ip6Fragment then
      some (some { packet with
        ip6 := { packet.ip6 with nextHeader := packet.info.nextHeader }
        data := packet.data.set nextHeaderOffset packet.info.nextHeader })
    else none
  else
    let offset := (packet.info.formerNextHeader + sizeOfIp6Header) % 2 ^ 32
    if offset < packet.data.length then
      some (some { packet with data := packet.data.set offset packet.info.nextHeader })
    else some none

/-- A first fragment that has been inserted: the packet and the entry after it; no packet
when it goes to `Error`. -/
def enterFirst (entry : AssembleEntry) (packet : Packet) (duplicate : Bool) :
    Option (Option Packet × AssembleEntry) :=
  if entry.head.isSome ∨ entry.packet.isSome then some (none, entry)
  else if duplicate = false then some (none, entry)
  else if packet.data = [] then
    -- `ASSERT (Len > 0)` in `NetbufAllocSpace`
    none
  else
    let entry := { entry with packet := some packet.data }
    (setNextHeader packet).map fun result =>
      match result with
      | none => (none, entry)
      | some packet => (some packet, { entry with head := some packet.buffer })

end First

section Deliver

/-- The unfragmentable part and the fragment header are trimmed off the fragments. -/
def trimHeaders (headLen : Nat) (fragments : List Packet) : Option (List (List UInt8)) :=
  fragments.mapM fun fragment =>
    trimBytes fragment.data (headLen + sizeOfIp6FragmentHeader) true

/-- `NetbufGetFragment (Fragment, 0, HeadLen, 0)` for the first fragment of the list. -/
def unfragmentable (headLen : Nat) (fragment : Packet) (alloc : Bool) : Option (List UInt8) :=
  if headLen = 0 ∨ headLen > fragment.data.length ∨ alloc = false then none
  else some (fragment.data.take headLen)

/-- The whole packet is delivered if all the fragments have been received. -/
def deliverPacket (entry : AssembleEntry) (packet : Packet) (alloc : Allocations)
    (freed : List Nat) : Option Outcome :=
  if entry.totalLen ≠ 0 ∧ entry.curLen ≥ entry.totalLen then
    match entry.fragments.getLast?, entry.fragments.head? with
    | some last, some fragment =>
      if last.info.end_ ≠ entry.totalLen then
        some (errorExit none packet (ip6FreeAssembleEntry entry freed))
      else
        match entry.fragments.find? fun node => decide (some node.buffer = entry.head) with
        | none => none
        | some first =>
          (unfragmentable first.info.headLen fragment alloc.unfragment).bind fun unfragment =>
            (trimHeaders first.info.headLen entry.fragments).map fun parts =>
              if alloc.wrap = false then
                errorExit none packet (ip6FreeAssembleEntry entry freed)
              else
                ⟨some ⟨first.ip6, first.info, unfragment ++ parts.flatten, entry⟩, none, freed⟩
    | _, _ => none
  else some ⟨none, some entry, freed⟩

end Deliver

section Reassemble

/-- `Ip6Reassemble` behind the insertion of the packet: `before` and `rest` are the
fragments around it. -/
def enterPacket (entry : AssembleEntry) (before : List Packet) (packet : Packet)
    (rest : List Packet) (curLen : Nat) (alloc : Allocations) (freed : List Nat) :
    Option Outcome :=
  let entry := { entry with
    fragments := before ++ packet :: rest, curLen := addLen curLen packet.info.length }
  let withTotalLen (entry : AssembleEntry) : AssembleEntry :=
    if packet.info.lastFrag = true ∧ entry.totalLen = 0 then
      { entry with totalLen := toUint32 packet.info.end_ }
    else entry
  if packet.info.start = 0 then
    (enterFirst entry packet alloc.duplicate).bind fun result =>
      match result with
      | (none, entry) =>
        -- the packet is freed, and stays on the list
        some (errorExit (some entry) packet freed)
      | (some packet, entry) =>
        deliverPacket (withTotalLen { entry with fragments := before ++ packet :: rest }) packet
          alloc freed
  else deliverPacket (withTotalLen entry) packet alloc freed

/-- `Ip6Reassemble` from the search of the insert point on. -/
def assembleInto (entry : AssembleEntry) (packet : Packet) (alloc : Allocations)
    (freed : List Nat) : Option Outcome :=
  let before := entry.fragments.takeWhile fun node => !decide (packet.info.start < node.info.start)
  let after := entry.fragments.dropWhile fun node => !decide (packet.info.start < node.info.start)
  match trimPrev packet before with
  | none => none
  | some none => some (errorExit (some entry) packet freed)
  | some (some before) =>
    match scanBehind packet after entry.curLen freed with
    | none => none
    | some ⟨none, rest, curLen, freed⟩ =>
      some (errorExit (some { entry with fragments := before ++ rest, curLen := curLen })
        packet freed)
    | some ⟨some packet, rest, curLen, freed⟩ =>
      enterPacket entry before packet rest curLen alloc freed

/-- `Ip6Reassemble` in the bucket of the packet. -/
def reassembleInBucket (bucket : List AssembleEntry) (packet : Packet) (alloc : Allocations)
    (freed : List Nat) : Option (Option NewPacket × List AssembleEntry × List Nat) :=
  let before := bucket.takeWhile fun entry => !entry.isFor packet
  match bucket.dropWhile fun entry => !entry.isFor packet with
  | entry :: after =>
    (assembleInto entry packet alloc freed).map fun outcome =>
      (outcome.packet, before ++ (outcome.entry.toList ++ after), outcome.freed)
  | [] =>
    if alloc.entry = false then some (none, bucket, packet.buffer :: freed)
    else
      (assembleInto (ip6CreateAssembleEntry packet) packet alloc freed).map fun outcome =>
        (outcome.packet, outcome.entry.toList ++ bucket, outcome.freed)

/-- `Ip6Reassemble`. -/
def ip6Reassemble (table : AssembleTable) (packet : Packet) (alloc : Allocations)
    (freed : List Nat) : Option (Option NewPacket × AssembleTable × List Nat) :=
  let index := ip6AssembleHash packet.ip6 packet.info.id
  (reassembleInBucket (table index) packet alloc freed).map fun result =>
    (result.1, Function.update table index result.2.1, result.2.2)

end Reassemble

end Ip6
end Udk
