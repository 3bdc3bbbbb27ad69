import Udk.NetLib.NetBufferCopy
import Udk.NetLib.NetBufferSpace

/-!
# Net buffer queues

A queue of net buffers is the byte string of its buffers, one behind the other, as long as
the 32-bit counters of the queue do not wrap.
-/

namespace Udk
namespace NetLib

open List

/-- `NET_BUF_QUEUE`. -/
structure NetBufQueue where
  bufList : List NetBuf
  bufSize : Nat
  bufNum : Nat
  deriving DecidableEq

/-- `NetbufQueInit`. -/
def netbufQueInit : NetBufQueue where
  bufList := []
  bufSize := 0
  bufNum := 0

/-- `NetbufQueAppend`. -/
def netbufQueAppend (que : NetBufQueue) (nbuf : NetBuf) : NetBufQueue where
  bufList := que.bufList ++ [nbuf]
  bufSize := add32 que.bufSize nbuf.totalSize
  bufNum := add32 que.bufNum 1

/-- `NetbufQueRemove`: the queue and the buffer, if there is one. -/
def netbufQueRemove (que : NetBufQueue) : Option (NetBufQueue × Option NetBuf) :=
  if que.bufNum = 0 then some (que, none)
  else
    match que.bufList with
    | [] => none
    | first :: rest =>
      some (⟨rest, sub32 que.bufSize first.totalSize, sub32 que.bufNum 1⟩, some first)

/-- The first loop of `NetbufQueCopy`: the buffers from the one with the byte at the offset
on, and the offset of that buffer. -/
def queCopySkip (offset : Nat) : List NetBuf → Nat → List NetBuf × Nat
  | [], cur => ([], cur)
  | nbuf :: bufs, cur =>
    if offset < add32 cur nbuf.totalSize then (nbuf :: bufs, cur)
    else queCopySkip offset bufs (add32 cur nbuf.totalSize)

/-- The second loop of `NetbufQueCopy`. -/
def queCopyLoop : Memory → Nat → Nat → Nat → List NetBuf → Option (Memory × Nat)
  | mem, _, _, copied, [] => some (mem, copied)
  | mem, dest, len, copied, nbuf :: bufs =>
    if len = 0 then some (mem, copied)
    else if len > nbuf.totalSize then do
      let (mem, _) ← netbufCopy mem nbuf 0 nbuf.totalSize dest
      queCopyLoop mem (dest + nbuf.totalSize) (len - nbuf.totalSize)
        (add32 copied nbuf.totalSize) bufs
    else do
      let (mem, _) ← netbufCopy mem nbuf 0 len dest
      some (mem, add32 copied len)

/-- `NetbufQueCopy`: the memory and the number of the bytes copied. -/
def netbufQueCopy (mem : Memory) (que : NetBufQueue) (offset len dest : Nat) :
    Option (Memory × Nat) :=
  if dest = 0 then none
  else if len = 0 ∨ que.bufSize ≤ offset then some (mem, 0)
  else
    let len := if que.bufSize - offset < len then que.bufSize - offset else len
    match queCopySkip offset que.bufList 0 with
    | ([], _) => none
    | (nbuf :: bufs, cur) =>
      let skip := sub32 offset cur
      let left := sub32 nbuf.totalSize skip
      if len < left then netbufCopy mem nbuf skip len dest
      else do
        let (mem, _) ← netbufCopy mem nbuf skip left dest
        queCopyLoop mem (dest + left) (len - left) left bufs

/-- What the loop of `NetbufQueTrim` leaves: the buffers of the queue, the number of the
bytes trimmed, and the buffers freed. -/
structure QueTrim where
  bufList : List NetBuf
  trimmed : Nat
  freed : List NetBuf

/-- The loop of `NetbufQueTrim`. -/
def queTrimLoop : List NetBuf → Nat → Nat → Option QueTrim
  | [], _, trimmed => some ⟨[], trimmed, []⟩
  | nbuf :: bufs, len, trimmed =>
    if len ≥ nbuf.totalSize then
      let trimmed := add32 trimmed nbuf.totalSize
      if len - nbuf.totalSize = 0 then some ⟨bufs, trimmed, [nbuf]⟩
      else
        (queTrimLoop bufs (len - nbuf.totalSize) trimmed).map fun t =>
          { t with freed := nbuf :: t.freed }
    else
      (netbufTrim nbuf len true).map fun (nbuf, n) => ⟨nbuf :: bufs, add32 trimmed n, []⟩

/-- `NetbufQueTrim`: the queue, the number of the bytes trimmed, and the buffers freed. -/
def netbufQueTrim (que : NetBufQueue) (len : Nat) :
    Option (NetBufQueue × Nat × List NetBuf) :=
  if len = 0 then some (que, 0, [])
  else
    let len := if len > que.bufSize then que.bufSize else len
    (queTrimLoop que.bufList len 0).map fun t =>
      (⟨t.bufList, que.bufSize - len, sub32 que.bufNum t.freed.length⟩, t.trimmed, t.freed)

/-- `NetbufQueFlush`: the queue and the buffers freed. -/
def netbufQueFlush (que : NetBufQueue) : NetBufQueue × List NetBuf :=
  (⟨[], 0, 0⟩, que.bufList)

/-- The size of some buffers. -/
def queSize (bufs : List NetBuf) : Nat :=
  (bufs.map NetBuf.totalSize).sum

/-- The bytes of some buffers. -/
def queBytes (mem : Memory) (bufs : List NetBuf) : List UInt8 :=
  bufs.flatMap (NetBuf.bytes mem)

/-- The blocks of some buffers. -/
def queBlocks (bufs : List NetBuf) : List BlockOp :=
  bufs.flatMap NetBuf.blockOp

/-- The counters of a queue can take in a buffer. -/
def RoomFor (que : NetBufQueue) (nbuf : NetBuf) : Prop :=
  queSize que.bufList + nbuf.totalSize < 2 ^ 32 ∧ que.bufList.length + 1 < 2 ^ 32

/-- The queues that calls lead to. -/
inductive QueueReached : NetBufQueue → Prop
  | init : QueueReached netbufQueInit
  | append
      {que : NetBufQueue} {nbuf : NetBuf}
      (h : QueueReached que)
      (hok : NetBufOk nbuf)
      (hmeets : RoomFor que nbuf) :
      QueueReached (netbufQueAppend que nbuf)
  | remove
      {que que' : NetBufQueue} {first : Option NetBuf}
      (h : QueueReached que)
      (hcall : netbufQueRemove que = some (que', first)) :
      QueueReached que'
  | trim
      {que que' : NetBufQueue} {len trimmed : Nat} {freed : List NetBuf}
      (h : QueueReached que)
      (hcall : netbufQueTrim que len = some (que', trimmed, freed)) :
      QueueReached que'
  | flush
      {que : NetBufQueue}
      (h : QueueReached que) :
      QueueReached (netbufQueFlush que).1

/-- The counters of a queue tell the sizes and the number of its buffers. -/
structure QueueOk (que : NetBufQueue) : Prop where
  bufs : ∀ nbuf ∈ que.bufList, NetBufOk nbuf
  size : que.bufSize = queSize que.bufList
  num : que.bufNum = que.bufList.length
  size_lt : que.bufSize < 2 ^ 32
  num_lt : que.bufNum < 2 ^ 32

/-- The first `n` bytes of some buffers are gone: the buffers that lie in them are freed,
and of the first one that is kept its part of them is cut off. -/
structure Consumed (bufs : List NetBuf) (n : Nat) (bufs' freed : List NetBuf) : Prop where
  bytes : ∀ mem, queBytes mem bufs' = (queBytes mem bufs).drop n
  size : queSize bufs' + n = queSize bufs
  freed : ∃ kept, bufs = freed ++ kept ∧ queSize freed ≤ n ∧
    (queSize freed = n ∧ bufs' = kept ∨
      ∃ nbuf nbuf' rest, kept = nbuf :: rest ∧ bufs' = nbuf' :: rest ∧
        queSize freed < n ∧ n < queSize freed + nbuf.totalSize)

section Lists

variable {mem : Memory} {nbuf : NetBuf} {bufs bufs' : List NetBuf}

@[simp] theorem queSize_nil : queSize [] = 0 := rfl

@[simp] theorem queSize_cons : queSize (nbuf :: bufs) = nbuf.totalSize + queSize bufs := by
  rw [queSize, map_cons, sum_cons, queSize]

@[simp] theorem queSize_append : queSize (bufs ++ bufs') = queSize bufs + queSize bufs' := by
  rw [queSize, map_append, sum_append, queSize, queSize]

@[simp] theorem queBytes_cons :
    queBytes mem (nbuf :: bufs) = nbuf.bytes mem ++ queBytes mem bufs := rfl

@[simp] theorem queBytes_append :
    queBytes mem (bufs ++ bufs') = queBytes mem bufs ++ queBytes mem bufs' :=
  flatMap_append

theorem length_queBytes
    {size : Nat}
    (hok : ∀ nbuf ∈ bufs, NetBufOk nbuf)
    (hsize : size = queSize bufs) :
    (queBytes mem bufs).length = size := by
  induction bufs generalizing size with
  | nil => exact hsize.symm
  | cons nbuf bufs ih =>
      rw [hsize, queBytes_cons, length_append, queSize_cons,
        (hok nbuf mem_cons_self).length_bytes,
        ih (fun n hn => hok n (mem_cons_of_mem nbuf hn)) rfl]

theorem queBytes_eq_blocks : queBytes mem bufs = blockBytes mem (queBlocks bufs) := by
  induction bufs with
  | nil => rfl
  | cons nbuf bufs ih =>
      rw [queBytes_cons, ih]
      exact blockBytes_append.symm

end Lists

section Trim

variable {nbuf nbuf' : NetBuf} {bufs bufs' freed : List NetBuf} {que : NetBufQueue}
  {len n trimmed : Nat}

theorem Consumed.free
    (hok : NetBufOk nbuf)
    (h : Consumed bufs n bufs' freed) :
    Consumed (nbuf :: bufs) (nbuf.totalSize + n) bufs' (nbuf :: freed) where
  bytes mem := by
    have hlength : (nbuf.bytes mem).length = nbuf.totalSize := hok.length_bytes
    rw [h.bytes, queBytes_cons, ← hlength, drop_length_add_append]
  size := by
    have hsize := h.size
    rw [queSize_cons]
    omega
  freed := by
    obtain ⟨kept, hbufs, hle, hkept⟩ := h.freed
    refine ⟨kept, by rw [hbufs, cons_append], by rw [queSize_cons]; omega, ?_⟩
    rw [queSize_cons]
    rcases hkept with ⟨hsize, hkept⟩ | ⟨first, first', rest, hkept, hcut, hlow, hhigh⟩
    · exact Or.inl ⟨by omega, hkept⟩
    · exact Or.inr ⟨first, first', rest, hkept, hcut, by omega, by omega⟩

theorem consumed_none : Consumed bufs 0 bufs [] where
  bytes _ := rfl
  size := rfl
  freed := ⟨bufs, rfl, le_rfl, Or.inl ⟨rfl, rfl⟩⟩

theorem consumed_cut
    (hok : NetBufOk nbuf)
    (hok' : NetBufOk nbuf')
    (hpos : 0 < n)
    (hlt : n < nbuf.totalSize)
    (hbytes : ∀ mem, trimBytes (nbuf.bytes mem) n true = some (nbuf'.bytes mem)) :
    Consumed (nbuf :: bufs) n (nbuf' :: bufs) [] := by
  have hdrop : ∀ mem, nbuf'.bytes mem = (nbuf.bytes mem).drop n := by
    intro mem
    have hlength : (nbuf.bytes mem).length = nbuf.totalSize := hok.length_bytes
    have htrim := hbytes mem
    rw [trimBytes_eq, hlength, Nat.min_eq_left (by omega)] at htrim
    · exact (Option.some.inj htrim).symm
    · exact ne_nil_of_length_pos (by omega)
  have hsize : nbuf'.totalSize = nbuf.totalSize - n := by
    have h := congrArg List.length (hdrop fun _ => 0)
    rwa [hok'.length_bytes, length_drop, hok.length_bytes] at h
  constructor
  case bytes =>
    intro mem
    have hlength : (nbuf.bytes mem).length = nbuf.totalSize := hok.length_bytes
    rw [queBytes_cons, queBytes_cons, hdrop, drop_append_of_le_length (by omega)]
  case size =>
    rw [queSize_cons, queSize_cons]
    omega
  case freed =>
    exact ⟨nbuf :: bufs, rfl, Nat.zero_le n,
      Or.inr ⟨nbuf, nbuf', bufs, rfl, rfl, hpos, by rw [queSize_nil]; omega⟩⟩

/-- The loop consumes what it is to trim. -/
theorem queTrimLoop_spec
    (hok : ∀ nbuf ∈ bufs, NetBufOk nbuf)
    (hle : len ≤ queSize bufs)
    (hpos : len = 0 → queSize bufs = 0)
    (hlt : trimmed + queSize bufs < 2 ^ 32) :
    ∃ t, queTrimLoop bufs len trimmed = some t ∧ t.trimmed = trimmed + len ∧
      Consumed bufs len t.bufList t.freed ∧ ∀ nbuf ∈ t.bufList, NetBufOk nbuf := by
  induction bufs generalizing len trimmed with
  | nil =>
      rw [queSize_nil, Nat.le_zero] at hle
      subst hle
      exact ⟨_, rfl, rfl, consumed_none, hok⟩
  | cons nbuf bufs ih =>
      rw [queSize_cons] at hle hpos hlt
      have hnbuf := hok nbuf mem_cons_self
      have hbufs : ∀ n ∈ bufs, NetBufOk n := fun n hn => hok n (mem_cons_of_mem nbuf hn)
      rw [queTrimLoop]
      by_cases hwhole : len ≥ nbuf.totalSize
      · have hadd : add32 trimmed nbuf.totalSize = trimmed + nbuf.totalSize := add32_eq (by omega)
        simp only [if_pos hwhole, hadd]
        by_cases hdone : len - nbuf.totalSize = 0
        · have hlen : len = nbuf.totalSize + 0 := by omega
          rw [if_pos hdone]
          refine ⟨_, rfl, ?_, ?_, hbufs⟩
          · show trimmed + nbuf.totalSize = trimmed + len
            omega
          · rw [hlen]
            exact consumed_none.free hnbuf
        · obtain ⟨t, hloop, htrimmed, hconsumed, hall⟩ := ih hbufs
            (by omega : len - nbuf.totalSize ≤ queSize bufs) (by omega)
            (by omega : trimmed + nbuf.totalSize + queSize bufs < 2 ^ 32)
          have hfree := hconsumed.free hnbuf
          rw [Nat.add_sub_cancel' hwhole] at hfree
          rw [if_neg hdone, hloop]
          refine ⟨_, rfl, ?_, hfree, hall⟩
          show t.trimmed = trimmed + len
          omega
      · obtain ⟨nbuf', htrim, hok', hbytes⟩ := netbufTrim_spec len true hnbuf (by omega)
        rw [Nat.min_eq_left (by omega)] at htrim
        rw [if_neg hwhole, htrim]
        refine ⟨_, rfl, add32_eq (by omega),
          consumed_cut hnbuf hok' (by omega) (by omega) hbytes, ?_⟩
        exact forall_mem_cons.mpr ⟨hok', hbufs⟩

theorem Consumed.length
    (h : Consumed bufs n bufs' freed) :
    bufs.length = freed.length + bufs'.length := by
  obtain ⟨kept, rfl, -, ⟨-, rfl⟩ | ⟨nbuf, nbuf', rest, rfl, rfl, -, -⟩⟩ := h.freed
  · exact length_append
  · rw [length_append, length_cons, length_cons]

theorem netbufQueTrim_spec
    (len : Nat)
    (hok : QueueOk que) :
    ∃ que' freed, netbufQueTrim que len = some (que', min len que.bufSize, freed) ∧
      QueueOk que' ∧ Consumed que.bufList (min len que.bufSize) que'.bufList freed := by
  have hsize := hok.size
  have hnum := hok.num
  have hsizeLt := hok.size_lt
  have hnumLt := hok.num_lt
  by_cases hnone : len = 0
  · refine ⟨que, [], ?_, hok, ?_⟩
    · rw [netbufQueTrim, if_pos hnone, hnone, Nat.zero_min]
    · rw [hnone, Nat.zero_min]
      exact consumed_none
  · have hmin : (if len > que.bufSize then que.bufSize else len) = min len que.bufSize := by
      split <;> omega
    have hle : min len que.bufSize ≤ que.bufSize := Nat.min_le_right len que.bufSize
    obtain ⟨t, hloop, htrimmed, hconsumed, hall⟩ := queTrimLoop_spec hok.bufs
      (by omega : min len que.bufSize ≤ queSize que.bufList) (by omega)
      (by omega : 0 + queSize que.bufList < 2 ^ 32)
    have hlength := hconsumed.length
    have hrest := hconsumed.size
    have hsub : sub32 que.bufNum t.freed.length = que.bufNum - t.freed.length :=
      sub32_eq (by omega) hnumLt
    rw [Nat.zero_add] at htrimmed
    refine ⟨⟨t.bufList, que.bufSize - min len que.bufSize, que.bufNum - t.freed.length⟩,
      t.freed, ?_, ⟨hall, ?_, ?_, ?_, ?_⟩, hconsumed⟩
    case refine_1 =>
      rw [netbufQueTrim, if_neg hnone, hmin, ← hsub]
      simp only [hloop, Option.map_some, htrimmed]
    case refine_2 => show que.bufSize - _ = queSize t.bufList; omega
    case refine_3 => show que.bufNum - _ = t.bufList.length; omega
    case refine_4 => show que.bufSize - _ < 2 ^ 32; omega
    case refine_5 => show que.bufNum - _ < 2 ^ 32; omega

end Trim

section Copy

variable {mem mem' : Memory} {bufs : List NetBuf} {que : NetBufQueue}
  {offset cur len dest copied : Nat}

theorem queCopySkip_spec
    (hlow : cur ≤ offset)
    (hhigh : offset < cur + queSize bufs)
    (hlt : cur + queSize bufs < 2 ^ 32) :
    ∃ before nbuf after, bufs = before ++ nbuf :: after ∧
      cur + queSize before ≤ offset ∧ offset < cur + queSize before + nbuf.totalSize ∧
      queCopySkip offset bufs cur = (nbuf :: after, cur + queSize before) := by
  obtain ⟨before, nbuf, after, rfl, hstart, hstop, hloop⟩ :=
    search_reaches NetBuf.totalSize (fun bufs _ cur => queCopySkip offset bufs cur) 0 cur
      (fun nbuf bufs _ cur hle => by
        show queCopySkip offset (nbuf :: bufs) cur = _
        rw [queCopySkip, add32_eq (by omega), if_neg (Nat.not_lt_of_le hle)]) hlow hhigh
  change cur + queSize before ≤ offset at hstart
  change offset < cur + queSize before + nbuf.totalSize at hstop
  rw [queSize_append, queSize_cons] at hlt
  refine ⟨before, nbuf, after, rfl, hstart, hstop, hloop.trans ?_⟩
  show queCopySkip offset (nbuf :: after) (cur + queSize before) = _
  rw [queCopySkip, add32_eq (by omega), if_pos hstop]

theorem queBytes_kept
    {data : List UInt8}
    (hapart : BlocksApart (queBlocks bufs) dest len)
    (hle : data.length ≤ len)
    (hwritten : Written mem mem' dest data) :
    queBytes mem' bufs = queBytes mem bufs := by
  rw [queBytes_eq_blocks, queBytes_eq_blocks]
  exact hapart.bytes_eq fun addr hout => hwritten.frame addr (by omega)

/-- The second loop writes what is left to copy. -/
theorem queCopyLoop_spec
    (mem : Memory)
    (hok : ∀ nbuf ∈ bufs, NetBufOk nbuf)
    (hdest : dest ≠ 0)
    (hle : len ≤ queSize bufs)
    (hapart : BlocksApart (queBlocks bufs) dest len)
    (hlt : copied + len < 2 ^ 32) :
    ∃ mem', queCopyLoop mem dest len copied bufs = some (mem', copied + len) ∧
      Written mem mem' dest ((queBytes mem bufs).take len) := by
  induction bufs generalizing mem dest len copied with
  | nil =>
      rw [queSize_nil, Nat.le_zero] at hle
      rw [hle]
      exact ⟨mem, rfl, Written.nil⟩
  | cons nbuf bufs ih =>
      rw [queSize_cons] at hle
      have hnbuf := hok nbuf mem_cons_self
      have hlength : (nbuf.bytes mem).length = nbuf.totalSize := hnbuf.length_bytes
      have hfirst : BlocksApart nbuf.blockOp dest len :=
        fun op hop => hapart op (mem_append_left _ hop)
      have hbufs : BlocksApart (queBlocks bufs) dest len :=
        fun op hop => hapart op (mem_append_right _ hop)
      rw [queCopyLoop, queBytes_cons]
      by_cases hzero : len = 0
      · rw [if_pos hzero, hzero]
        exact ⟨mem, rfl, Written.nil⟩
      rw [if_neg hzero]
      by_cases hmore : len > nbuf.totalSize
      · obtain ⟨mem₁, hcopy, hwritten⟩ := netbufCopy_spec mem 0 nbuf.totalSize hnbuf hdest
          (fun op hop => (hfirst op hop).shrink (by omega) (a := 0))
        rw [drop_zero, take_of_length_le (by omega)] at hwritten
        obtain ⟨mem₂, hloop, hrest⟩ := ih mem₁
          (fun n hn => hok n (mem_cons_of_mem nbuf hn)) (by omega : dest + nbuf.totalSize ≠ 0)
          (by omega : len - nbuf.totalSize ≤ queSize bufs) (hbufs.shrink (by omega))
          (by omega : copied + nbuf.totalSize + (len - nbuf.totalSize) < 2 ^ 32)
        rw [queBytes_kept hbufs (by omega) hwritten, ← hlength] at hrest
        have hwhole := hwritten.append hrest
        have hsum : copied + nbuf.totalSize + (len - nbuf.totalSize) = copied + len := by omega
        rw [if_pos hmore, hcopy, add32_eq (by omega), ← hsum]
        refine ⟨mem₂, hloop, ?_⟩
        rw [take_append, take_of_length_le (by omega)]
        exact hwhole
      · obtain ⟨mem₁, hcopy, hwritten⟩ := netbufCopy_spec mem 0 len hnbuf hdest
          (fun op hop => (hfirst op hop).shrink (by omega) (a := 0))
        rw [if_neg hmore, hcopy, add32_eq hlt]
        refine ⟨mem₁, rfl, ?_⟩
        rw [take_append_of_le_length (by omega)]
        exact hwritten

/-- `NetbufQueCopy` writes the substring, clipped at the end of the queue. -/
theorem netbufQueCopy_spec
    (mem : Memory)
    (offset len : Nat)
    (hok : QueueOk que)
    (hdest : dest ≠ 0)
    (hapart : BlocksApart (queBlocks que.bufList) dest (min len (que.bufSize - offset))) :
    ∃ mem', netbufQueCopy mem que offset len dest =
        some (mem', min len (que.bufSize - offset)) ∧
      Written mem mem' dest (((queBytes mem que.bufList).drop offset).take len) := by
  have hsize := hok.size
  have h32 := hok.size_lt
  have hlength : (queBytes mem que.bufList).length = que.bufSize :=
    length_queBytes hok.bufs hsize
  by_cases hnone : len = 0 ∨ que.bufSize ≤ offset
  · refine ⟨mem, ?_, ?_⟩
    · have hzero : min len (que.bufSize - offset) = 0 := by omega
      rw [netbufQueCopy, if_neg hdest, if_pos hnone, hzero]
    · have hnil : ((queBytes mem que.bufList).drop offset).take len = [] := by
        refine eq_nil_of_length_eq_zero ?_
        rw [length_take, length_drop, hlength]
        omega
      rw [hnil]
      exact Written.nil
  · have hmin : (if que.bufSize - offset < len then que.bufSize - offset else len) =
        min len (que.bufSize - offset) := by
      split <;> omega
    have hclip : ((queBytes mem que.bufList).drop offset).take len =
        ((queBytes mem que.bufList).drop offset).take (min len (que.bufSize - offset)) := by
      rw [← hlength, ← length_drop, take_eq_take_min]
    have hbound : offset + min len (que.bufSize - offset) ≤ que.bufSize := by omega
    have hcount : 0 < min len (que.bufSize - offset) := by omega
    rw [hclip, netbufQueCopy, if_neg hdest, if_neg hnone, hmin]
    generalize min len (que.bufSize - offset) = count at *
    obtain ⟨before, nbuf, after, heq, hstart, hstop, hskip⟩ :=
      queCopySkip_spec (Nat.zero_le offset) (by omega : offset < 0 + queSize que.bufList) (by omega)
    rw [Nat.zero_add] at hstart hstop hskip
    have hall := hok.bufs
    rw [heq] at hall hapart
    obtain ⟨hbefore, hrest⟩ := forall_mem_append.mp hall
    obtain ⟨hnbuf, hafter⟩ := forall_mem_cons.mp hrest
    rw [heq, queSize_append, queSize_cons] at hsize
    have hnbufLength : (nbuf.bytes mem).length = nbuf.totalSize := hnbuf.length_bytes
    -- the string from the offset on: the rest of this buffer, and the buffers behind it
    have hbytes : (queBytes mem que.bufList).drop offset =
        (nbuf.bytes mem).drop (offset - queSize before) ++ queBytes mem after := by
      have hsplit : offset =
          (queBytes mem before).length + (offset - queSize before) := by
        rw [length_queBytes hbefore rfl]
        omega
      rw [heq, queBytes_append, queBytes_cons]
      conv_lhs => rw [hsplit]
      rw [drop_length_add_append, drop_append_of_le_length (by omega)]
    have hskipLen : sub32 offset (queSize before) = offset - queSize before :=
      sub32_eq hstart (by omega)
    have hleftLen : sub32 nbuf.totalSize (offset - queSize before) =
        nbuf.totalSize - (offset - queSize before) := sub32_eq (by omega) (by omega)
    simp only [hskip, hskipLen, hleftLen]
    rw [hbytes]
    have hleft : ((nbuf.bytes mem).drop (offset - queSize before)).length =
        nbuf.totalSize - (offset - queSize before) := by
      rw [length_drop, hnbufLength]
    have hfirst : BlocksApart nbuf.blockOp dest count := fun op hop =>
      hapart op (mem_flatMap.mpr ⟨nbuf, mem_append_right _ mem_cons_self, hop⟩)
    have hblocks : BlocksApart (queBlocks after) dest count := by
      intro op hop
      obtain ⟨n, hn, hop⟩ := mem_flatMap.mp hop
      exact hapart op (mem_flatMap.mpr
        ⟨n, mem_append_right _ (mem_cons_of_mem nbuf hn), hop⟩)
    generalize hskipped : offset - queSize before = skip at *
    generalize hn : nbuf.totalSize - skip = n at *
    by_cases hwithin : count < n
    · obtain ⟨mem₁, hcopy, hwritten⟩ := netbufCopy_spec mem skip count hnbuf hdest
        (fun op hop => (hfirst op hop).shrink (by omega) (a := 0))
      have hcopied : min count (nbuf.totalSize - skip) = count := by omega
      rw [if_pos hwithin, hcopy, hcopied]
      refine ⟨mem₁, rfl, ?_⟩
      rw [take_append_of_le_length (by omega)]
      exact hwritten
    · obtain ⟨mem₁, hcopy, hwritten⟩ := netbufCopy_spec mem skip n hnbuf hdest
        (fun op hop => (hfirst op hop).shrink (by omega) (a := 0))
      rw [take_of_length_le (by omega)] at hwritten
      obtain ⟨mem₂, hloop, hrest⟩ := queCopyLoop_spec mem₁ hafter (by omega : dest + n ≠ 0)
        (by omega : count - n ≤ queSize after) (hblocks.shrink (by omega))
        (by omega : n + (count - n) < 2 ^ 32)
      rw [queBytes_kept hblocks (by omega) hwritten, ← hleft] at hrest
      have hwhole := hwritten.append hrest
      have hsum : n + (count - n) = count := by omega
      rw [hsum] at hloop
      rw [if_neg hwithin, hcopy]
      refine ⟨mem₂, hloop, ?_⟩
      rw [take_append, take_of_length_le (by omega)]
      exact hwhole

end Copy

section Run

variable {que que' : NetBufQueue} {nbuf : NetBuf} {first : Option NetBuf}

theorem QueueOk.append
    (hok : QueueOk que)
    (hnbuf : NetBufOk nbuf)
    (hroom : RoomFor que nbuf) :
    QueueOk (netbufQueAppend que nbuf) := by
  obtain ⟨hroomSize, hroomNum⟩ := hroom
  have hsize : add32 que.bufSize nbuf.totalSize = queSize que.bufList + nbuf.totalSize := by
    rw [hok.size]
    exact add32_eq hroomSize
  have hnum : add32 que.bufNum 1 = que.bufList.length + 1 := by
    rw [hok.num]
    exact add32_eq hroomNum
  rw [netbufQueAppend, hsize, hnum]
  constructor
  case bufs => exact forall_mem_append.mpr ⟨hok.bufs, forall_mem_singleton.mpr hnbuf⟩
  case size =>
    show queSize que.bufList + nbuf.totalSize = queSize (que.bufList ++ [nbuf])
    rw [queSize_append, queSize_cons, queSize_nil, Nat.add_zero]
  case num => rw [length_append, length_singleton]
  case size_lt => exact hroomSize
  case num_lt => exact hroomNum

theorem netbufQueRemove_spec
    (hok : QueueOk que) :
    que.bufList = [] ∧ netbufQueRemove que = some (que, none) ∨
      ∃ first que', que.bufList = first :: que'.bufList ∧
        netbufQueRemove que = some (que', some first) ∧ QueueOk que' := by
  obtain ⟨bufs, size, num⟩ := que
  have hsize := hok.size
  have hnum := hok.num
  have hsizeLt := hok.size_lt
  have hnumLt := hok.num_lt
  cases bufs with
  | nil =>
      exact Or.inl ⟨rfl, if_pos hnum⟩
  | cons first rest =>
      rw [queSize_cons] at hsize
      rw [length_cons] at hnum
      simp only at hsize hnum hsizeLt hnumLt
      refine Or.inr ⟨first, ⟨rest, sub32 size first.totalSize, sub32 num 1⟩, rfl, ?_, ?_⟩
      · exact if_neg (by simp only; omega)
      · rw [sub32_eq (by omega) hsizeLt, sub32_eq (by omega) hnumLt]
        exact ⟨fun n hn => hok.bufs n (mem_cons_of_mem first hn),
          by show size - first.totalSize = queSize rest; omega,
          by show num - 1 = rest.length; omega,
          by show size - first.totalSize < 2 ^ 32; omega, by show num - 1 < 2 ^ 32; omega⟩

theorem queueOk_empty : QueueOk netbufQueInit :=
  ⟨forall_mem_nil _, rfl, rfl, by decide, by decide⟩

theorem QueueReached.queueOk
    (h : QueueReached que) :
    QueueOk que := by
  induction h with
  | init | flush h _ => exact queueOk_empty
  | append h hnbuf hroom ih => exact ih.append hnbuf hroom
  | remove h hcall ih =>
      rcases netbufQueRemove_spec ih with ⟨-, hcall'⟩ | ⟨_, _, -, hcall', hok⟩
      · rw [hcall] at hcall'
        cases hcall'
        exact ih
      · rw [hcall] at hcall'
        cases hcall'
        exact hok
  | trim h hcall ih =>
      obtain ⟨_, _, hcall', hok, -⟩ := netbufQueTrim_spec _ ih
      rw [hcall] at hcall'
      cases hcall'
      exact hok

end Run

/-- What the functions do to the string of a queue. -/
structure ByteStream (que : NetBufQueue) : Prop where
  size : que.bufSize = queSize que.bufList ∧ ∀ mem, (queBytes mem que.bufList).length = que.bufSize
  num : que.bufNum = que.bufList.length
  copy : ∀ mem offset len dest, dest ≠ 0 →
    BlocksApart (queBlocks que.bufList) dest (min len (que.bufSize - offset)) →
      ∃ mem', netbufQueCopy mem que offset len dest =
          some (mem', min len (que.bufSize - offset)) ∧
        Written mem mem' dest (((queBytes mem que.bufList).drop offset).take len)
  trim : ∀ len, ∃ que' freed,
    netbufQueTrim que len = some (que', min len que.bufSize, freed) ∧
      Consumed que.bufList (min len que.bufSize) que'.bufList freed

/-- In every run in which each buffer finds room in the 32-bit counters, a queue is the
byte string of its buffers. -/
theorem netBufferQueues_areByteStreams
    {que : NetBufQueue}
    (h : QueueReached que) :
    ByteStream que := by
  have hok := h.queueOk
  constructor
  case size => exact ⟨hok.size, fun mem => length_queBytes hok.bufs hok.size⟩
  case num => exact hok.num
  case copy =>
    intro mem offset len dest hdest hapart
    exact netbufQueCopy_spec mem offset len hok hdest hapart
  case trim =>
    intro len
    obtain ⟨que', freed, hcall, -, hconsumed⟩ := netbufQueTrim_spec len hok
    exact ⟨que', freed, hcall, hconsumed⟩

/-- A buffer with one block of some size. -/
def oneBlock (size : Nat) : NetBuf where
  vector := ⟨false, size⟩
  totalSize := size
  blockOp := [⟨4096, 4096 + size, 4096, 4096 + size, size⟩]

theorem oneBlock_ok
    {size : Nat}
    (hlt : size < 2 ^ 32) :
    NetBufOk (oneBlock size) where
  totalSize_eq := (Nat.add_zero size).symm
  totalSize_lt := hlt
  blocks op hop := by
    cases mem_singleton.mp hop
    exact ⟨le_rfl, rfl, le_rfl⟩
  nonempty := cons_ne_nil _ _
  count := show 1 < 2 ^ 32 by decide

theorem netBufferQueues_areByteStreams_sample :
    ByteStream ⟨[oneBlock 4, oneBlock 0, oneBlock 6], 10, 3⟩ := by
  have hfour : QueueReached ⟨[oneBlock 4], 4, 1⟩ :=
    QueueReached.init.append (oneBlock_ok (by decide)) ⟨by decide, by decide⟩
  have hnone : QueueReached ⟨[oneBlock 4, oneBlock 0], 4, 2⟩ :=
    hfour.append (oneBlock_ok (by decide)) ⟨by decide, by decide⟩
  exact netBufferQueues_areByteStreams
    (hnone.append (oneBlock_ok (by decide)) ⟨by decide, by decide⟩)

theorem largeQueue_wraps :
    NetBufOk (oneBlock (2 ^ 31)) ∧
    ∃ que, que = netbufQueAppend (netbufQueAppend netbufQueInit (oneBlock (2 ^ 31)))
        (oneBlock (2 ^ 31)) ∧
      que.bufSize = 0 ∧ queSize que.bufList = 2 ^ 32 ∧ ¬ ByteStream que := by
  refine ⟨oneBlock_ok (by decide), _, rfl, by decide, by decide, fun h => ?_⟩
  exact absurd h.size.1 (by decide)

end NetLib
end Udk
