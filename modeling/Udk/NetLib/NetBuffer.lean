import Udk.ByteMemory

/-!
# NetBuffer.c

A net buffer is an array of block operations on memory that it may share with others.  A
call has no result when an assertion fails, when an index leaves the block array, or when a
loop never stops.  The addresses that the pool hands out are arguments.
-/

namespace Udk
namespace NetLib

/-- `NET_BLOCK_OP`. -/
structure BlockOp where
  blockHead : Nat
  blockTail : Nat
  head : Nat
  tail : Nat
  size : Nat
  deriving DecidableEq

/-- `NET_VECTOR`: whether there is an external function to free it, and its length. -/
structure NetVector where
  free : Bool
  len : Nat
  deriving DecidableEq

/-- `NET_BUF`. -/
structure NetBuf where
  vector : NetVector
  totalSize : Nat
  blockOp : List BlockOp
  deriving DecidableEq

/-- `NET_FRAGMENT`. -/
structure NetFragment where
  bulk : Nat
  len : Nat
  deriving DecidableEq

/-- Addition of two `UINT32`. -/
def add32 (a b : Nat) : Nat :=
  (a + b) % 2 ^ 32

/-- Subtraction of two `UINT32`. -/
def sub32 (a b : Nat) : Nat :=
  (a + (2 ^ 32 - b)) % 2 ^ 32

/-- `NET_HEADSPACE`. -/
def headSpace (op : BlockOp) : Nat :=
  op.head - op.blockHead

/-- `NET_TAILSPACE`. -/
def tailSpace (op : BlockOp) : Nat :=
  op.blockTail - op.tail

/-- A block operation that covers a whole block, as `NetbufSetBlockOp` leaves it. -/
def netbufSetBlockOp (bulk len : Nat) : BlockOp where
  blockHead := bulk
  blockTail := bulk + len
  head := bulk
  tail := bulk + len
  size := len

/-- The first block with some head room and `len` bytes behind it. -/
def reservedBlock (bulk headSpace len : Nat) : BlockOp :=
  { netbufSetBlockOp bulk (headSpace + len) with head := bulk + headSpace, size := len }

/-- `NetbufAllocStruct` with the calls of `NetbufSetBlock` or `NetbufSetBlockOp` that follow
it; a block operation that is not set stays zero. -/
def netbufAllocStruct (vector : NetVector) (totalSize blockOpNum : Nat) (ops : List BlockOp) :
    Option NetBuf :=
  if 1 ≤ blockOpNum ∧ ops.length ≤ blockOpNum then
    some
      { vector
        totalSize
        blockOp := ops ++ List.replicate (blockOpNum - ops.length) ⟨0, 0, 0, 0, 0⟩ }
  else none

/-- `NetbufAlloc`. -/
def netbufAlloc (len bulk : Nat) : Option NetBuf :=
  if 0 < len then
    some
      { vector := ⟨false, len⟩
        totalSize := 0
        blockOp := [⟨bulk, bulk + len, bulk, bulk, 0⟩] }
  else none

/-- `NetbufClone`. -/
def netbufClone (nbuf : NetBuf) : NetBuf where
  vector := nbuf.vector
  totalSize := nbuf.totalSize
  blockOp := nbuf.blockOp

/-- The loop of `NetbufGetByte`. -/
def getByteLoop (offset : Nat) : List BlockOp → Nat → Nat → Option (Nat × Nat)
  | [], _, _ => none
  | op :: ops, loop, len =>
      if add32 len op.size ≤ offset then
        getByteLoop offset ops (loop + 1) (add32 len op.size)
      else some (loop, op.head + sub32 offset len)

/-- `NetbufGetByte`: the index of the block and the address of the byte, or NULL. -/
def netbufGetByte (nbuf : NetBuf) (offset : Nat) : Option (Nat × Nat) :=
  if nbuf.totalSize ≤ offset then none else getByteLoop offset nbuf.blockOp 0 0

/-- `NetbufReserve`. -/
def netbufReserve (nbuf : NetBuf) (len : Nat) : Option NetBuf :=
  match nbuf.blockOp with
  | [op] =>
      if nbuf.totalSize = 0 ∧ nbuf.vector.free = false ∧ len ≤ nbuf.vector.len ∧
          op.tail + len ≤ op.blockTail then
        some { nbuf with blockOp := [{ op with head := op.head + len, tail := op.tail + len }] }
      else none
  | _ => none

/-- The block that `NetbufAllocSpace` takes the space from. -/
def allocIndex (nbuf : NetBuf) (len : Nat) (fromHead : Bool) : Option Nat :=
  if nbuf.totalSize = 0 then some 0
  else if fromHead then do
    let index := ((netbufGetByte nbuf 0).map Prod.fst).getD 0
    let op ← nbuf.blockOp[index]?
    some (if headSpace op < len ∧ 0 < index then index - 1 else index)
  else do
    let index := ((netbufGetByte nbuf (nbuf.totalSize - 1)).map Prod.fst).getD 0
    let op ← nbuf.blockOp[index]?
    some (if tailSpace op < len ∧ index < nbuf.blockOp.length - 1 then index + 1 else index)

/-- The head or the tail of a block moved outwards. -/
def allocBlock (op : BlockOp) (len : Nat) (fromHead : Bool) : BlockOp :=
  if fromHead then { op with head := op.head - len, size := add32 op.size len }
  else { op with tail := op.tail + len, size := add32 op.size len }

/-- The room of a block at one end. -/
def room (op : BlockOp) (fromHead : Bool) : Nat :=
  if fromHead then headSpace op else tailSpace op

/-- `NetbufAllocSpace`: the buffer, and the address of the space or NULL. -/
def netbufAllocSpace (nbuf : NetBuf) (len : Nat) (fromHead : Bool) :
    Option (NetBuf × Option Nat) :=
  if 0 < len then do
    let index ← allocIndex nbuf len fromHead
    let op ← nbuf.blockOp[index]?
    if room op fromHead < len then some (nbuf, none)
    else
      some
        ({ nbuf with
            totalSize := add32 nbuf.totalSize len
            blockOp := nbuf.blockOp.set index (allocBlock op len fromHead) },
          some (if fromHead then op.head - len else op.tail))
  else none

/-- `NetblockTrim`. -/
def netblockTrim (op : BlockOp) (len : Nat) (fromHead : Bool) : Option BlockOp :=
  if len ≤ op.size then
    some
      (if fromHead then { op with size := op.size - len, head := op.head + len }
      else { op with size := op.size - len, tail := op.tail - len })
  else none

/-- The loop of `NetbufTrim`, over the blocks in the order in which it comes to them. -/
def trimLoop (fromHead : Bool) : List BlockOp → Nat → Nat → Option (List BlockOp × Nat)
  | [], _, _ => none
  | op :: ops, len, trimmed =>
      if op.size = 0 then do
        let (ops, trimmed) ← trimLoop fromHead ops len trimmed
        some (op :: ops, trimmed)
      else if len > op.size then do
        let op' ← netblockTrim op op.size fromHead
        let (ops, trimmed) ← trimLoop fromHead ops (len - op.size) (add32 trimmed op.size)
        some (op' :: ops, trimmed)
      else do
        let op' ← netblockTrim op len fromHead
        some (op' :: ops, add32 trimmed len)

/-- `NetbufTrim`: the buffer and the number of the bytes trimmed. -/
def netbufTrim (nbuf : NetBuf) (len : Nat) (fromHead : Bool) : Option (NetBuf × Nat) :=
  let len := if len > nbuf.totalSize then nbuf.totalSize else len
  let nbuf := { nbuf with totalSize := nbuf.totalSize - len }
  if fromHead then do
    let (ops, trimmed) ← trimLoop true nbuf.blockOp len 0
    some ({ nbuf with blockOp := ops }, trimmed)
  else do
    let (ops, trimmed) ← trimLoop false nbuf.blockOp.reverse len 0
    some ({ nbuf with blockOp := ops.reverse }, trimmed)

/-- The first loop of `NetbufCopy`: the blocks from the one with the byte at the offset on,
and the offset of that block. -/
def copySkip (offset : Nat) : List BlockOp → Nat → List BlockOp × Nat
  | [], cur => ([], cur)
  | op :: ops, cur =>
      if op.size = 0 then copySkip offset ops cur
      else if offset < add32 cur op.size then (op :: ops, cur)
      else copySkip offset ops (add32 cur op.size)

/-- The second loop of `NetbufCopy`. -/
def copyLoop : Memory → Nat → Nat → Nat → List BlockOp → Memory × Nat
  | mem, _, _, copied, [] => (mem, copied)
  | mem, dest, len, copied, op :: ops =>
      if len > op.size then
        copyLoop (moveBytes mem dest op.head op.size) (dest + op.size) (len - op.size)
          (add32 copied op.size) ops
      else (moveBytes mem dest op.head len, add32 copied len)

/-- `NetbufCopy`: the memory and the number of the bytes copied. -/
def netbufCopy (mem : Memory) (nbuf : NetBuf) (offset len dest : Nat) : Option (Memory × Nat) :=
  if dest = 0 then none
  else if len = 0 ∨ nbuf.totalSize ≤ offset then some (mem, 0)
  else
    let len := if nbuf.totalSize - offset < len then nbuf.totalSize - offset else len
    match copySkip offset nbuf.blockOp 0 with
    | ([], _) => none
    | (op :: ops, cur) =>
        let skip := sub32 offset cur
        let left := sub32 op.size skip
        if len ≤ left then some (moveBytes mem dest (op.head + skip) len, len)
        else
          some (copyLoop (moveBytes mem dest (op.head + skip) left) (dest + left) (len - left)
            left ops)

/-- `NetbufDuplicate`; the buffer to duplicate to is given, or allocated at `bulk`. -/
def netbufDuplicate (mem : Memory) (nbuf : NetBuf) (duplicate : Option NetBuf)
    (headSpace bulk : Nat) : Option (Memory × NetBuf) := do
  let duplicate ← duplicate.orElse fun _ => netbufAlloc (add32 nbuf.totalSize headSpace) bulk
  let duplicate ← netbufReserve duplicate headSpace
  let (duplicate, dst) ← netbufAllocSpace duplicate nbuf.totalSize false
  let dst ← dst
  let (mem, _) ← netbufCopy mem nbuf 0 nbuf.totalSize dst
  some (mem, duplicate)

/-- The first loop of `NetbufGetFragment`: the index of the block with the byte at the
offset, and the offset of that block. -/
def findFirst (offset : Nat) : List BlockOp → Nat → Nat → Nat × Nat
  | [], index, cur => (index, cur)
  | op :: ops, index, cur =>
      if offset < add32 cur op.size then (index, cur)
      else findFirst offset ops (index + 1) (add32 cur op.size)

/-- The second loop of `NetbufGetFragment`: the index of the block where the data ends, and
the length of the data in it; both stay zero when there is no such block. -/
def findLast (stop : Nat) : List BlockOp → Nat → Nat → Nat × Nat
  | [], _, _ => (0, 0)
  | op :: ops, index, cur =>
      if stop ≤ add32 cur op.size then (index, sub32 stop cur)
      else findLast stop ops (index + 1) (add32 cur op.size)

/-- The blocks that `NetbufGetFragment` takes from the buffer: the indices of the first and
the last one, and the block operations for them. -/
def fragmentBlocks (nbuf : NetBuf) (offset len : Nat) : Option (Nat × Nat × List BlockOp) := do
  let (first, cur) := findFirst offset nbuf.blockOp 0 0
  let firstOp ← nbuf.blockOp[first]?
  let firstSkip := sub32 offset cur
  let firstLen := sub32 firstOp.size firstSkip
  let (last, lastLen) :=
    if len > firstLen then
      findLast (add32 offset len) (nbuf.blockOp.drop (first + 1)) (first + 1)
        (add32 cur firstOp.size)
    else (first, len)
  let firstLen := if len > firstLen then firstLen else len
  let lastOp ← nbuf.blockOp[last]?
  let middle := (nbuf.blockOp.take last).drop (first + 1)
  some (first, last, netbufSetBlockOp (firstOp.head + firstSkip) firstLen ::
    middle.map (fun op => netbufSetBlockOp op.head op.size) ++
    if first = last then [] else [netbufSetBlockOp lastOp.head lastLen])

/-- `NetbufGetFragment`: the new buffer or NULL. -/
def netbufGetFragment (nbuf : NetBuf) (offset len headSpace bulk : Nat) :
    Option (Option NetBuf) :=
  if len = 0 ∨ nbuf.totalSize < add32 offset len then some none
  else do
    let (first, last, ops) ← fragmentBlocks nbuf offset len
    if first ≤ last then
      let blockOpNum := add32 (last - first) 1
      let child ←
        if headSpace = 0 then netbufAllocStruct nbuf.vector len blockOpNum ops
        else
          netbufAllocStruct ⟨true, headSpace⟩ len (add32 blockOpNum 1)
            (reservedBlock bulk headSpace 0 :: ops)
      some (some child)
    else none

/-- What the header loop of `NetbufFromExt` leaves: the memory, the number of the bytes
copied, the number of the blocks to allocate, and the fragments that remain.  A fragment
that is copied in part remains with its rest; the caller's table is restored afterwards. -/
structure HeaderCopy where
  mem : Memory
  copied : Nat
  blockNum : Nat
  rest : List NetFragment

/-- The loop of `NetbufFromExt` that copies the header. -/
def headerLoop : Memory → Nat → Nat → Nat → Nat → List NetFragment → HeaderCopy
  | mem, _, _, copied, blockNum, [] => ⟨mem, copied, blockNum, []⟩
  | mem, header, len, copied, blockNum, fragment :: fragments =>
      if fragment.len ≤ len then
        let mem := moveBytes mem header fragment.bulk fragment.len
        let copied := add32 copied fragment.len
        let blockNum := sub32 blockNum 1
        if len - fragment.len = 0 then ⟨mem, copied, blockNum, fragments⟩
        else headerLoop mem (header + fragment.len) (len - fragment.len) copied blockNum fragments
      else
        ⟨moveBytes mem header fragment.bulk len, add32 copied len, blockNum,
          ⟨fragment.bulk + len, fragment.len - len⟩ :: fragments⟩

/-- The length of the header that `NetbufFromExt` pulls into one block. -/
def pulledLen (fragments : List NetFragment) (headLen : Nat) : Nat :=
  match fragments with
  | [] => 0
  | first :: more => if headLen ≤ first.len ∨ more = [] then 0 else headLen

/-- `FirstBlockLen`: the length of the block that `NetbufFromExt` allocates, or zero. -/
def firstBlockLen (headSpace headLen : Nat) : Nat :=
  if headSpace ≠ 0 ∨ headLen ≠ 0 then add32 headLen headSpace else 0

/-- The header copied to the block that `NetbufFromExt` allocates. -/
def pullHeader (mem : Memory) (fragments : List NetFragment) (headSpace headLen bulk : Nat) :
    HeaderCopy :=
  let blockNum :=
    if headSpace ≠ 0 ∨ headLen ≠ 0 then add32 fragments.length 1 else fragments.length
  if headLen ≠ 0 then headerLoop mem (bulk + headSpace) headLen 0 blockNum fragments
  else ⟨mem, 0, blockNum, fragments⟩

/-- The blocks that `NetbufFromExt` sets: the one with the header, and the fragments that
remain. -/
def extBlocks (headSpace headLen bulk : Nat) (header : HeaderCopy) : List BlockOp :=
  (if firstBlockLen headSpace headLen ≠ 0 then [reservedBlock bulk headSpace header.copied]
    else []) ++ header.rest.map fun fragment => netbufSetBlockOp fragment.bulk fragment.len

/-- `NetbufFromExt`; no result either when the header is copied past the end of its block. -/
def netbufFromExt (mem : Memory) (fragments : List NetFragment) (headSpace headLen : Nat)
    (extFree : Bool) (bulk : Nat) : Option (Memory × NetBuf) :=
  if fragments = [] ∨ extFree = false then none
  else
    let headLen := pulledLen fragments headLen
    let header := pullHeader mem fragments headSpace headLen bulk
    let totalLen := header.rest.foldl (fun total fragment => add32 total fragment.len) header.copied
    if header.copied ≠ 0 ∧ firstBlockLen headSpace headLen < headSpace + header.copied then none
    else
      (netbufAllocStruct ⟨extFree, add32 totalLen headSpace⟩ totalLen header.blockNum
        (extBlocks headSpace headLen bulk header)).map fun nbuf => (header.mem, nbuf)

/-- The blocks that are not empty, as fragments. -/
def fragmentsOf (nbuf : NetBuf) : List NetFragment :=
  (nbuf.blockOp.filter fun op => op.size ≠ 0).map fun op => ⟨op.head, op.size⟩

/-- `NetbufBuildExt`; none for `EFI_BUFFER_TOO_SMALL`. -/
def netbufBuildExt (nbuf : NetBuf) (extNum : Nat) : Option (List NetFragment) :=
  if (fragmentsOf nbuf).length ≤ extNum then some (fragmentsOf nbuf) else none

/-- `NetbufFromBufList`; no result either when the table of the fragments is too small. -/
def netbufFromBufList (mem : Memory) (bufList : List NetBuf) (headSpace headerLen : Nat)
    (extFree : Bool) (bulk : Nat) : Option (Memory × NetBuf) :=
  let fragmentNum := bufList.foldl (fun num nbuf => add32 num nbuf.blockOp.length) 0
  let fragments := bufList.flatMap fragmentsOf
  if fragments.length ≤ fragmentNum then
    netbufFromExt mem fragments headSpace headerLen extFree bulk
  else none

end NetLib
end Udk
