import Udk.NetLib.NetBufferBuild

/-!
# Runs of the net buffer functions

Whatever buffers the functions build out of each other, each of them is well formed and
each call does to its string what it should, as long as no buffer without bytes is trimmed
and no 32-bit sum wraps.
-/

namespace Udk
namespace NetLib

open List

/-- The memory and the buffers that calls can lead to.  In between, anyone may write to the
memory. -/
inductive Reached : Memory → List NetBuf → Prop
  | start
      (mem : Memory) :
      Reached mem []
  | write
      {mem : Memory} {bufs : List NetBuf}
      (mem' : Memory)
      (h : Reached mem bufs) :
      Reached mem' bufs
  | alloc
      {mem : Memory} {bufs : List NetBuf} {len bulk : Nat} {nbuf : NetBuf}
      (h : Reached mem bufs)
      (hmeets : 0 < len)
      (hcall : netbufAlloc len bulk = some nbuf) :
      Reached mem (bufs ++ [nbuf])
  | reserve
      {mem : Memory} {before after : List NetBuf} {len : Nat} {nbuf nbuf' : NetBuf}
      (h : Reached mem (before ++ nbuf :: after))
      (hmeets : ReserveMeets nbuf len)
      (hcall : netbufReserve nbuf len = some nbuf') :
      Reached mem (before ++ nbuf' :: after)
  | allocSpace
      {mem : Memory} {before after : List NetBuf} {len : Nat} {fromHead : Bool}
      {nbuf nbuf' : NetBuf} {space : Option Nat}
      (h : Reached mem (before ++ nbuf :: after))
      (hpos : 0 < len)
      (hmeets : nbuf.totalSize + len < 2 ^ 32 ∨ NoRoom nbuf len fromHead)
      (hcall : netbufAllocSpace nbuf len fromHead = some (nbuf', space)) :
      Reached mem (before ++ nbuf' :: after)
  | trim
      {mem : Memory} {before after : List NetBuf} {len trimmed : Nat} {fromHead : Bool}
      {nbuf nbuf' : NetBuf}
      (h : Reached mem (before ++ nbuf :: after))
      (hmeets : nbuf.totalSize ≠ 0)
      (hcall : netbufTrim nbuf len fromHead = some (nbuf', trimmed)) :
      Reached mem (before ++ nbuf' :: after)
  | clone
      {mem : Memory} {bufs : List NetBuf} {nbuf : NetBuf}
      (h : Reached mem bufs)
      (hmem : nbuf ∈ bufs) :
      Reached mem (bufs ++ [netbufClone nbuf])
  | duplicate
      {mem mem' : Memory} {bufs : List NetBuf} {headSpace bulk : Nat} {nbuf nbuf' : NetBuf}
      (h : Reached mem bufs)
      (hmem : nbuf ∈ bufs)
      (hmeets : DuplicateMeets nbuf none headSpace bulk)
      (hcall : netbufDuplicate mem nbuf none headSpace bulk = some (mem', nbuf')) :
      Reached mem' (bufs ++ [nbuf'])
  | duplicateTo
      {mem mem' : Memory} {before after : List NetBuf} {headSpace bulk : Nat}
      {nbuf duplicate nbuf' : NetBuf}
      (h : Reached mem (before ++ duplicate :: after))
      (hmem : nbuf ∈ before ++ duplicate :: after)
      (hmeets : DuplicateMeets nbuf (some duplicate) headSpace bulk)
      (hcall : netbufDuplicate mem nbuf (some duplicate) headSpace bulk = some (mem', nbuf')) :
      Reached mem' (before ++ nbuf' :: after)
  | getFragment
      {mem : Memory} {bufs : List NetBuf} {offset len headSpace bulk : Nat} {nbuf child : NetBuf}
      (h : Reached mem bufs)
      (hmem : nbuf ∈ bufs)
      (hmeets : GetFragmentMeets nbuf offset len headSpace)
      (hcall : netbufGetFragment nbuf offset len headSpace bulk = some (some child)) :
      Reached mem (bufs ++ [child])
  | fromExt
      {mem mem' : Memory} {bufs : List NetBuf} {fragments : List NetFragment}
      {headSpace headLen bulk : Nat} {extFree : Bool} {nbuf : NetBuf}
      (h : Reached mem bufs)
      (hmeets : FromExtMeets fragments headSpace headLen extFree)
      (hfresh : FragmentsApart fragments bulk (pulledLen fragments headLen + headSpace))
      (hcall : netbufFromExt mem fragments headSpace headLen extFree bulk = some (mem', nbuf)) :
      Reached mem' (bufs ++ [nbuf])
  | fromBufList
      {mem mem' : Memory} {bufs bufList : List NetBuf} {headSpace headerLen bulk : Nat}
      {extFree : Bool} {nbuf : NetBuf}
      (h : Reached mem bufs)
      (hmem : ∀ n ∈ bufList, n ∈ bufs)
      (hblocks : blockSum bufList < 2 ^ 32)
      (hmeets : FromExtMeets (bufList.flatMap fragmentsOf) headSpace headerLen extFree)
      (hfresh : FragmentsApart (bufList.flatMap fragmentsOf) bulk
        (pulledLen (bufList.flatMap fragmentsOf) headerLen + headSpace))
      (hcall : netbufFromBufList mem bufList headSpace headerLen extFree bulk =
        some (mem', nbuf)) :
      Reached mem' (bufs ++ [nbuf])

variable {mem mem' : Memory} {bufs before after : List NetBuf} {nbuf nbuf' : NetBuf}

theorem all_append
    (hall : ∀ n ∈ bufs, NetBufOk n)
    (hok : NetBufOk nbuf) :
    ∀ n ∈ bufs ++ [nbuf], NetBufOk n := by
  intro n hn
  rcases mem_append.mp hn with hn | hn
  · exact hall n hn
  · rw [mem_singleton.mp hn]
    exact hok

theorem all_replace
    (hall : ∀ n ∈ before ++ nbuf :: after, NetBufOk n)
    (hok : NetBufOk nbuf → NetBufOk nbuf') :
    ∀ n ∈ before ++ nbuf' :: after, NetBufOk n := by
  intro n hn
  rcases mem_append.mp hn with hn | hn
  · exact hall n (mem_append_left _ hn)
  · rcases mem_cons.mp hn with rfl | hn
    · exact hok (hall nbuf (mem_append_right _ mem_cons_self))
    · exact hall n (mem_append_right _ (mem_cons_of_mem nbuf hn))

/-- Every buffer that calls lead to is well formed. -/
theorem Reached.netBufOk
    (h : Reached mem bufs) :
    ∀ nbuf ∈ bufs, NetBufOk nbuf := by
  induction h with
  | start _ => exact fun nbuf hnbuf => absurd hnbuf not_mem_nil
  | write _ h ih => exact ih
  | alloc h hmeets hcall ih =>
      obtain ⟨nbuf', hcall', hok, -⟩ := netbufAlloc_spec _ hmeets
      rw [hcall] at hcall'
      cases hcall'
      exact all_append ih hok
  | reserve h hmeets hcall ih =>
      refine all_replace ih fun hok => ?_
      obtain ⟨op, nbuf', -, hcall', hok', -⟩ := netbufReserve_spec hok hmeets
      rw [hcall] at hcall'
      cases hcall'
      exact hok'
  | allocSpace h hpos hmeets hcall ih =>
      refine all_replace ih fun hok => ?_
      obtain ⟨nbuf', space, hcall', hok', -⟩ := netbufAllocSpace_spec hok hpos hmeets
      rw [hcall] at hcall'
      cases hcall'
      exact hok'
  | trim h hmeets hcall ih =>
      refine all_replace ih fun hok => ?_
      obtain ⟨nbuf', hcall', hok', -⟩ := netbufTrim_spec _ _ hok hmeets
      rw [hcall] at hcall'
      cases hcall'
      exact hok'
  | clone h hmem ih => exact all_append ih (ih _ hmem)
  | duplicate h hmem hmeets hcall ih =>
      obtain ⟨duplicate', hok', -, hcall'⟩ :=
        netbufDuplicate_eq (ih _ hmem) (fun d hd => by cases hd) hmeets
      rw [hcall'] at hcall
      obtain ⟨result, -, hresult⟩ := Option.map_eq_some_iff.mp hcall
      cases hresult
      exact all_append ih hok'
  | duplicateTo h hmem hmeets hcall ih =>
      refine all_replace ih fun hok => ?_
      obtain ⟨duplicate', hok', -, hcall'⟩ :=
        netbufDuplicate_eq (ih _ hmem) (fun d hd => Option.some.inj hd ▸ hok) hmeets
      rw [hcall'] at hcall
      obtain ⟨result, -, hresult⟩ := Option.map_eq_some_iff.mp hcall
      cases hresult
      exact hok'
  | getFragment h hmem hmeets hcall ih =>
      rcases netbufGetFragment_spec _ (ih _ hmem) hmeets with
        ⟨-, hcall'⟩ | ⟨-, child', hcall', hok, -⟩
      · rw [hcall] at hcall'
        cases hcall'
      · rw [hcall] at hcall'
        cases hcall'
        exact all_append ih hok
  | fromExt h hmeets hfresh hcall ih =>
      obtain ⟨mem₂, nbuf', hcall', hok, -⟩ := netbufFromExt_spec _ hmeets hfresh
      rw [hcall] at hcall'
      cases hcall'
      exact all_append ih hok
  | fromBufList h _ hblocks hmeets hfresh hcall ih =>
      obtain ⟨mem₂, nbuf', hcall', hok, -⟩ := netbufFromBufList_spec _ hblocks hmeets hfresh
      rw [hcall] at hcall'
      cases hcall'
      exact all_append ih hok

/-- What the functions do to the strings of the buffers. -/
structure ByteStrings (mem : Memory) (bufs : List NetBuf) : Prop where
  blocks : ∀ nbuf ∈ bufs, nbuf.totalSize = (nbuf.blockOp.map BlockOp.size).sum ∧
    ∀ op ∈ nbuf.blockOp, op.blockHead ≤ op.head ∧ op.head ≤ op.tail ∧
      op.tail ≤ op.blockTail ∧ op.tail - op.head = op.size
  getByte : ∀ nbuf ∈ bufs, ∀ offset,
    (nbuf.totalSize ≤ offset ∧ netbufGetByte nbuf offset = none) ∨
      (offset < nbuf.totalSize ∧ ∃ index addr, netbufGetByte nbuf offset = some (index, addr) ∧
        (nbuf.bytes mem)[offset]? = some (mem addr))
  copy : ∀ nbuf ∈ bufs, ∀ offset len dest, dest ≠ 0 →
    BlocksApart nbuf.blockOp dest (min len (nbuf.totalSize - offset)) →
      ∃ mem', netbufCopy mem nbuf offset len dest =
          some (mem', min len (nbuf.totalSize - offset)) ∧
        Written mem mem' dest (((nbuf.bytes mem).drop offset).take len)
  getFragment : ∀ nbuf ∈ bufs, ∀ offset len headSpace bulk,
    GetFragmentMeets nbuf offset len headSpace →
      ((len = 0 ∨ nbuf.totalSize < offset + len) ∧
        netbufGetFragment nbuf offset len headSpace bulk = some none) ∨
      ((len ≠ 0 ∧ offset + len ≤ nbuf.totalSize) ∧
        ∃ child, netbufGetFragment nbuf offset len headSpace bulk = some (some child) ∧
          child.bytes mem = ((nbuf.bytes mem).drop offset).take len)
  fromExt : ∀ fragments headSpace headLen extFree bulk,
    FromExtMeets fragments headSpace headLen extFree →
      FragmentsApart fragments bulk (pulledLen fragments headLen + headSpace) →
        ∃ mem' nbuf, netbufFromExt mem fragments headSpace headLen extFree bulk =
            some (mem', nbuf) ∧
          nbuf.bytes mem' = fragmentBytes mem fragments ∧
          ∀ addr, addr < bulk ∨ bulk + (pulledLen fragments headLen + headSpace) ≤ addr →
            mem' addr = mem addr
  fromBufList : ∀ bufList headSpace headerLen extFree bulk, (∀ n ∈ bufList, n ∈ bufs) →
    blockSum bufList < 2 ^ 32 →
      FromExtMeets (bufList.flatMap fragmentsOf) headSpace headerLen extFree →
        FragmentsApart (bufList.flatMap fragmentsOf) bulk
          (pulledLen (bufList.flatMap fragmentsOf) headerLen + headSpace) →
          ∃ mem' nbuf, netbufFromBufList mem bufList headSpace headerLen extFree bulk =
              some (mem', nbuf) ∧
            nbuf.bytes mem' = bufList.flatMap (NetBuf.bytes mem)
  allocSpace : ∀ nbuf ∈ bufs, ∀ len fromHead, 0 < len →
    (nbuf.totalSize + len < 2 ^ 32 ∨ NoRoom nbuf len fromHead) →
      ∃ nbuf' space, netbufAllocSpace nbuf len fromHead = some (nbuf', space) ∧
        ((space = none ∧ nbuf' = nbuf ∧ NoRoom nbuf len fromHead) ∨
          ∃ addr, space = some addr ∧ nbuf'.totalSize = nbuf.totalSize + len ∧
            nbuf'.bytes mem = join fromHead (peek mem addr len) (nbuf.bytes mem))
  trim : ∀ nbuf ∈ bufs, ∀ len fromHead, nbuf.totalSize ≠ 0 →
    ∃ nbuf', netbufTrim nbuf len fromHead = some (nbuf', min len nbuf.totalSize) ∧
      nbuf'.bytes mem = cut fromHead (nbuf.bytes mem) (min len nbuf.totalSize)
  reserve : ∀ nbuf ∈ bufs, ∀ len, ReserveMeets nbuf len →
    ∃ nbuf', netbufReserve nbuf len = some nbuf' ∧ nbuf'.bytes mem = []
  duplicate : ∀ nbuf ∈ bufs, ∀ duplicate headSpace bulk, (∀ d, duplicate = some d → d ∈ bufs) →
    DuplicateMeets nbuf duplicate headSpace bulk →
      BlocksApart nbuf.blockOp (duplicateDest duplicate headSpace bulk) nbuf.totalSize →
        ∃ mem' nbuf', netbufDuplicate mem nbuf duplicate headSpace bulk = some (mem', nbuf') ∧
          nbuf'.bytes mem' = nbuf.bytes mem

/-- In every run whose calls meet their conditions the buffers are well formed, and each
call that meets its condition does to their strings what it should. -/
theorem netBuffers_areByteStrings
    (h : Reached mem bufs) :
    ByteStrings mem bufs := by
  have hall := h.netBufOk
  constructor
  case blocks =>
    intro nbuf hnbuf
    refine ⟨(hall nbuf hnbuf).totalSize_eq, fun op hop => ?_⟩
    have hblock := (hall nbuf hnbuf).blocks op hop
    have htail := hblock.tail_eq
    exact ⟨hblock.head, by omega, hblock.tail, by omega⟩
  case getByte =>
    intro nbuf hnbuf offset
    by_cases hin : offset < nbuf.totalSize
    · obtain ⟨before, op, after, heq, hlow, hhigh, hcall⟩ :=
        netbufGetByte_spec (hall nbuf hnbuf) hin
      refine Or.inr ⟨hin, _, _, hcall, ?_⟩
      have hlen : sizeSum before = (blockBytes mem before).length := length_blockBytes.symm
      rw [NetBuf.bytes, heq, blockBytes_append, blockBytes_cons,
        getElem?_append_right (by omega), ← hlen,
        getElem?_append_left (by rw [op.length_bytes]; omega), BlockOp.bytes,
        getElem?_peek (by omega)]
    · exact Or.inl ⟨Nat.le_of_not_lt hin, if_pos (Nat.le_of_not_lt hin)⟩
  case copy =>
    intro nbuf hnbuf offset len dest hdest hapart
    exact netbufCopy_spec mem offset len (hall nbuf hnbuf) hdest hapart
  case getFragment =>
    intro nbuf hnbuf offset len headSpace bulk hmeets
    rcases netbufGetFragment_spec bulk (hall nbuf hnbuf) hmeets with
      hrefused | ⟨hin, child, hcall, -, hbytes⟩
    · exact Or.inl hrefused
    · exact Or.inr ⟨hin, child, hcall, hbytes mem⟩
  case fromExt =>
    intro fragments headSpace headLen extFree bulk hmeets hfresh
    obtain ⟨mem', nbuf, hcall, -, hbytes, hframe⟩ := netbufFromExt_spec mem hmeets hfresh
    exact ⟨mem', nbuf, hcall, hbytes, hframe⟩
  case fromBufList =>
    intro bufList headSpace headerLen extFree bulk _ hblocks hmeets hfresh
    obtain ⟨mem', nbuf, hcall, -, hbytes, -⟩ :=
      netbufFromBufList_spec mem hblocks hmeets hfresh
    exact ⟨mem', nbuf, hcall, hbytes⟩
  case allocSpace =>
    intro nbuf hnbuf len fromHead hpos hfit
    obtain ⟨nbuf', space, hcall, -, hcases⟩ :=
      netbufAllocSpace_spec (hall nbuf hnbuf) hpos hfit
    refine ⟨nbuf', space, hcall, ?_⟩
    rcases hcases with hrefused | ⟨addr, hspace, htotal, hbytes⟩
    · exact Or.inl hrefused
    · exact Or.inr ⟨addr, hspace, htotal, hbytes mem⟩
  case trim =>
    intro nbuf hnbuf len fromHead hne
    obtain ⟨nbuf', hcall, -, hbytes⟩ := netbufTrim_spec len fromHead (hall nbuf hnbuf) hne
    refine ⟨nbuf', hcall, ?_⟩
    have hlength : (nbuf.bytes mem).length = nbuf.totalSize := (hall nbuf hnbuf).length_bytes
    have htrim := hbytes mem
    rw [trimBytes_eq, hlength] at htrim
    · exact (Option.some.inj htrim).symm
    · exact ne_nil_of_length_pos (by omega)
  case reserve =>
    intro nbuf hnbuf len hmeets
    obtain ⟨op, nbuf', -, hcall, hok, hempty, -⟩ := netbufReserve_spec (hall nbuf hnbuf) hmeets
    refine ⟨nbuf', hcall, eq_nil_of_length_eq_zero ?_⟩
    rw [hok.length_bytes, hempty]
  case duplicate =>
    intro nbuf hnbuf duplicate headSpace bulk hgiven hmeets hapart
    obtain ⟨mem', nbuf', hcall, -, hbytes, -⟩ := netbufDuplicate_spec mem (hall nbuf hnbuf)
      (fun d hd => hall d (hgiven d hd)) hmeets hapart
    exact ⟨mem', nbuf', hcall, hbytes⟩

/-- A buffer of 64 bytes gets four bytes of data, of which the first one is trimmed. -/
theorem netBuffers_areByteStrings_sample :
    ByteStrings (fun _ => 0) [⟨⟨false, 64⟩, 3, [⟨4096, 4160, 4097, 4100, 3⟩]⟩] := by
  have hnew : Reached (fun _ => 0) ([] ++ [⟨⟨false, 64⟩, 0, [⟨4096, 4160, 4096, 4096, 0⟩]⟩]) :=
    Reached.alloc (Reached.start fun _ => 0) (by decide : 0 < 64) rfl
  have hspace : Reached (fun _ => 0)
      ([] ++ [⟨⟨false, 64⟩, 4, [⟨4096, 4160, 4096, 4100, 4⟩]⟩]) :=
    Reached.allocSpace hnew (by decide : 0 < 4) (Or.inl (by decide))
      (rfl : netbufAllocSpace _ 4 false = some (_, some 4096))
  have htrim : Reached (fun _ => 0)
      ([] ++ [⟨⟨false, 64⟩, 3, [⟨4096, 4160, 4097, 4100, 3⟩]⟩]) :=
    Reached.trim hspace (by decide) (rfl : netbufTrim _ 1 true = some (_, 1))
  exact netBuffers_areByteStrings htrim

/-- The new buffer has no bytes, and `NetbufTrim` runs off its blocks; and a fragment whose
end wraps to a position in the buffer is not refused, and claims more bytes than it has. -/
theorem netBuffers_break :
    (∃ nbuf, netbufAlloc 64 4096 = some nbuf ∧ netbufTrim nbuf 1 true = none) ∧
    ∃ nbuf child,
      (netbufAlloc 64 4096).bind (fun nbuf => netbufAllocSpace nbuf 4 false) =
        some (nbuf, some 4096) ∧
      netbufGetFragment nbuf 2 (2 ^ 32 - 1) 0 0 = some (some child) ∧
      child.totalSize ≠ (child.blockOp.map BlockOp.size).sum := by
  refine ⟨⟨_, rfl, rfl⟩, _, _, rfl, rfl, ?_⟩
  decide

end NetLib
end Udk
