import Udk.NetLib.NetBufferBytes

/-!
# Fragments of a net buffer

`NetbufGetFragment` builds a buffer on the memory of another one, with the blocks from the
one with the first byte to the one with the last byte.
-/

namespace Udk
namespace NetLib

open List

variable {mem : Memory} {nbuf : NetBuf} {op : BlockOp} {ops before after : List BlockOp}
  {vector : NetVector} {len offset cur stop total num : Nat}

section NewBuffer

theorem netbufAllocStruct_spec
    (hcount : num = ops.length)
    (hne : ops ≠ []) :
    netbufAllocStruct vector total num ops = some ⟨vector, total, ops⟩ := by
  have hpos := length_pos_of_ne_nil hne
  rw [netbufAllocStruct, if_pos ⟨by omega, by omega⟩, hcount, Nat.sub_self, replicate_zero,
    append_nil]

theorem blockOk_set
    (bulk len : Nat) :
    BlockOk (netbufSetBlockOp bulk len) :=
  ⟨Nat.le_refl bulk, rfl, Nat.le_refl (bulk + len)⟩

theorem blockOk_reserved
    (bulk headSpace len : Nat) :
    BlockOk (reservedBlock bulk headSpace len) := by
  refine ⟨Nat.le_add_right bulk headSpace, ?_, Nat.le_refl _⟩
  show bulk + (headSpace + len) = bulk + headSpace + len
  exact (Nat.add_assoc bulk headSpace len).symm

theorem blockBytes_set :
    blockBytes mem (ops.map fun op => netbufSetBlockOp op.head op.size) = blockBytes mem ops := by
  induction ops with
  | nil => rfl
  | cons op ops ih => rw [map_cons, blockBytes_cons, blockBytes_cons, ih]; rfl

theorem sizeSum_set :
    sizeSum (ops.map fun op => netbufSetBlockOp op.head op.size) = sizeSum ops := by
  induction ops with
  | nil => rfl
  | cons op ops ih => rw [map_cons, sizeSum_cons, sizeSum_cons, ih]; rfl

end NewBuffer

section Search

theorem findFirst_spec
    (index : Nat)
    (hlow : cur ≤ offset)
    (hhigh : offset < cur + sizeSum ops)
    (hlt : cur + sizeSum ops < 2 ^ 32) :
    ∃ before op after, ops = before ++ op :: after ∧
      cur + sizeSum before ≤ offset ∧ offset < cur + sizeSum before + op.size ∧
      findFirst offset ops index cur = (index + before.length, cur + sizeSum before) := by
  obtain ⟨before, op, after, heq, hstart, hstop, hfits, hloop⟩ :=
    search_block (findFirst offset) index (fun op ops index cur hle => by
      rw [findFirst, add32_eq (by omega), if_neg (Nat.not_lt_of_le hle)]) hlow hhigh hlt
  refine ⟨before, op, after, heq, hstart, hstop, ?_⟩
  rw [hloop, findFirst, add32_eq hfits, if_pos hstop]

theorem findLast_spec
    (index : Nat)
    (hlow : cur < stop)
    (hhigh : stop ≤ cur + sizeSum ops)
    (hlt : cur + sizeSum ops < 2 ^ 32) :
    ∃ before op after, ops = before ++ op :: after ∧
      cur + sizeSum before < stop ∧ stop ≤ cur + sizeSum before + op.size ∧
      findLast stop ops index cur = (index + before.length, stop - (cur + sizeSum before)) := by
  -- the last byte in front of the end lies in the block that is found
  have hlast : stop - 1 < cur + sizeSum ops := by omega
  obtain ⟨before, op, after, heq, hstart, hstop, hfits, hloop⟩ :=
    search_block (findLast stop) index (fun op ops index cur (hle : _ ≤ stop - 1) => by
      rw [findLast, add32_eq (by omega), if_neg (by omega)]) (by omega) hlast hlt
  refine ⟨before, op, after, heq, by omega, by omega, ?_⟩
  rw [hloop, findLast, add32_eq hfits, if_pos (by omega), sub32_eq (by omega) (by omega)]

end Search

section GetFragment

variable {next : BlockOp}

theorem getElem?_behind
    {middle : List BlockOp} :
    (before ++ op :: (middle ++ next :: after))[before.length + 1 + middle.length]? =
      some next := by
  rw [getElem?_append_right (by omega),
    show before.length + 1 + middle.length - before.length = middle.length + 1 by omega,
    getElem?_cons_succ, getElem?_append_right (Nat.le_refl _), Nat.sub_self]
  rfl

theorem take_drop_middle
    {middle : List BlockOp} :
    ((before ++ op :: (middle ++ next :: after)).take (before.length + 1 + middle.length)).drop
      (before.length + 1) = middle := by
  have hshape : before ++ op :: (middle ++ next :: after) =
      (before ++ [op]) ++ (middle ++ next :: after) := by
    rw [append_assoc, singleton_append]
  have hlength : (before ++ [op]).length = before.length + 1 := by
    rw [length_append, length_singleton]
  rw [hshape, ← hlength, take_length_add_append, drop_left, take_left]

/-- The blocks that are taken hold the substring. -/
theorem fragmentBlocks_spec
    (hok : NetBufOk nbuf)
    (hpos : len ≠ 0)
    (hle : offset + len ≤ nbuf.totalSize) :
    ∃ first last ops, fragmentBlocks nbuf offset len = some (first, last, ops) ∧
      first ≤ last ∧ last < nbuf.blockOp.length ∧ ops.length = last - first + 1 ∧
      (∀ op ∈ ops, BlockOk op) ∧ sizeSum ops = len ∧
      ∀ mem, blockBytes mem ops = ((nbuf.bytes mem).drop offset).take len := by
  have htotal := hok.totalSize_eq
  have h32 := hok.totalSize_lt
  obtain ⟨before, op, after, heq, hstart, hstop, hfirst⟩ :=
    findFirst_spec 0 (Nat.zero_le offset) (by omega : offset < 0 + sizeSum nbuf.blockOp)
      (by omega)
  rw [Nat.zero_add] at hstart hstop hfirst
  rw [Nat.zero_add] at hfirst
  have hsum : nbuf.totalSize = sizeSum before + (op.size + sizeSum after) := by
    rw [htotal, heq, sizeSum_append, sizeSum_cons]
  have hskip : sub32 offset (sizeSum before) = offset - sizeSum before :=
    sub32_eq hstart (by omega)
  have hleft : sub32 op.size (offset - sizeSum before) = op.size - (offset - sizeSum before) :=
    sub32_eq (by omega) (by omega)
  have hfound : nbuf.blockOp[before.length]? = some op := by
    rw [heq, getElem?_append_right (Nat.le_refl _), Nat.sub_self]
    rfl
  have hbytes : ∀ mem, (nbuf.bytes mem).drop offset =
      peek mem (op.head + (offset - sizeSum before)) (op.size - (offset - sizeSum before)) ++
        blockBytes mem after := by
    intro mem
    rw [NetBuf.bytes, heq]
    exact drop_blockBytes hstart (Nat.le_of_lt hstop)
  have hlength : nbuf.blockOp.length = before.length + (after.length + 1) := by
    rw [heq, length_append, length_cons]
  rw [fragmentBlocks, hfirst]
  simp only [hfound, Option.bind_eq_bind, Option.bind_some, hskip, hleft]
  by_cases hwithin : len ≤ op.size - (offset - sizeSum before)
  · -- all of the substring lies in the first block
    rw [if_neg (by omega), if_neg (by omega), hfound]
    refine ⟨before.length, before.length, _, rfl, Nat.le_refl _, by omega, ?_, ?_, ?_, ?_⟩
    all_goals
      simp only [if_true, drop_take, Nat.sub_eq_zero_of_le (Nat.le_succ before.length),
        take_zero, map_nil, append_nil]
    case refine_1 => rw [length_singleton]; omega
    case refine_2 =>
      intro o ho
      rw [mem_singleton.mp ho]
      exact blockOk_set _ _
    case refine_3 => rw [sizeSum_cons, sizeSum_nil]; rfl
    case refine_4 =>
      intro mem
      rw [hbytes, take_append_of_le_length (by rw [length_peek]; exact hwithin),
        take_peek hwithin, blockBytes_cons, blockBytes_nil, append_nil]
      rfl
  · -- the substring ends in one of the blocks behind the first one
    have hdrop : nbuf.blockOp.drop (before.length + 1) = after := by
      have hshape : before ++ op :: after = (before ++ [op]) ++ after := by
        rw [append_assoc, singleton_append]
      have hsucc : (before ++ [op]).length = before.length + 1 := by
        rw [length_append, length_singleton]
      rw [heq, hshape, ← hsucc, drop_left]
    have hnext : add32 (sizeSum before) op.size = sizeSum before + op.size :=
      add32_eq (by omega)
    obtain ⟨middle, next, rest, hafter, hlow, hhigh, hlast⟩ :=
      findLast_spec (before.length + 1)
        (by omega : sizeSum before + op.size < offset + len)
        (by omega : offset + len ≤ sizeSum before + op.size + sizeSum after) (by omega)
    have hnextFound : nbuf.blockOp[before.length + 1 + middle.length]? = some next := by
      rw [heq, hafter, getElem?_behind]
    have hmiddle : (nbuf.blockOp.take (before.length + 1 + middle.length)).drop
        (before.length + 1) = middle := by
      rw [heq, hafter, take_drop_middle]
    have hrest : after.length = middle.length + (rest.length + 1) := by
      rw [hafter, length_append, length_cons]
    rw [if_pos (by omega), if_pos (by omega), add32_eq (by omega), hdrop, hnext, hlast,
      hnextFound]
    refine ⟨before.length, before.length + 1 + middle.length, _, rfl, by omega, by omega, ?_, ?_,
      ?_, ?_⟩
    all_goals
      simp only [hmiddle, if_neg (by omega : ¬ before.length = before.length + 1 + middle.length)]
    case refine_1 =>
      rw [length_append, length_cons, length_map, length_singleton]
      omega
    case refine_2 =>
      intro o ho
      rcases mem_append.mp ho with ho | ho
      · rcases mem_cons.mp ho with rfl | ho
        · exact blockOk_set _ _
        · obtain ⟨o', -, rfl⟩ := mem_map.mp ho
          exact blockOk_set _ _
      · rw [mem_singleton.mp ho]
        exact blockOk_set _ _
    case refine_3 =>
      rw [sizeSum_append, sizeSum_cons, sizeSum_set, sizeSum_cons, sizeSum_nil]
      show op.size - (offset - sizeSum before) + sizeSum middle +
        (offset + len - (sizeSum before + op.size + sizeSum middle) + 0) = len
      omega
    case refine_4 =>
      intro mem
      have hcut : offset + len - (sizeSum before + op.size + sizeSum middle) ≤ next.size := by
        omega
      rw [hbytes, hafter, blockBytes_append, blockBytes_append, blockBytes_cons, blockBytes_cons,
        blockBytes_set, blockBytes_cons, blockBytes_nil, append_nil, ← append_assoc,
        take_append, take_of_length_le (by
          rw [length_append, length_peek, length_blockBytes]; omega),
        length_append, length_peek, length_blockBytes,
        take_append_of_le_length (by rw [next.length_bytes]; omega)]
      have hcount : len - (op.size - (offset - sizeSum before) + sizeSum middle) =
          offset + len - (sizeSum before + op.size + sizeSum middle) := by omega
      have hnextBytes : (next.bytes mem).take
          (offset + len - (sizeSum before + op.size + sizeSum middle)) =
          peek mem next.head (offset + len - (sizeSum before + op.size + sizeSum middle)) :=
        take_peek hcut
      rw [hcount, hnextBytes]
      rfl

/-- The end of the range does not wrap to a position in the buffer, and the head room finds
a block. -/
def GetFragmentMeets (nbuf : NetBuf) (offset len headSpace : Nat) : Prop :=
  (len = 0 ∨ offset + len < 2 ^ 32 ∨ nbuf.totalSize < add32 offset len) ∧
    (headSpace = 0 ∨ nbuf.blockOp.length + 1 < 2 ^ 32)

/-- `NetbufGetFragment` yields the substring, or refuses a range that is not in the buffer. -/
theorem netbufGetFragment_spec
    {headSpace : Nat}
    (bulk : Nat)
    (hok : NetBufOk nbuf)
    (hmeets : GetFragmentMeets nbuf offset len headSpace) :
    ((len = 0 ∨ nbuf.totalSize < offset + len) ∧
      netbufGetFragment nbuf offset len headSpace bulk = some none) ∨
    ((len ≠ 0 ∧ offset + len ≤ nbuf.totalSize) ∧
      ∃ child, netbufGetFragment nbuf offset len headSpace bulk = some (some child) ∧
        NetBufOk child ∧ ∀ mem, child.bytes mem = ((nbuf.bytes mem).drop offset).take len) := by
  obtain ⟨hwrap, hroom⟩ := hmeets
  have h32 := hok.totalSize_lt
  by_cases hrefused : len = 0 ∨ nbuf.totalSize < offset + len
  · refine Or.inl ⟨hrefused, ?_⟩
    have hguard : len = 0 ∨ nbuf.totalSize < add32 offset len := by
      rcases hwrap with hzero | hlt | hguard
      · exact Or.inl hzero
      · rw [add32_eq hlt]
        exact hrefused
      · exact Or.inr hguard
    rw [netbufGetFragment, if_pos hguard]
  · have hin : len ≠ 0 ∧ offset + len ≤ nbuf.totalSize := by omega
    refine Or.inr ⟨hin, ?_⟩
    obtain ⟨first, last, ops, hblocks, hle, hlast, hlength, hops, hsize, hbytes⟩ :=
      fragmentBlocks_spec hok hin.1 hin.2
    have hcount := hok.count
    have hne : ops ≠ [] := ne_nil_of_length_pos (by omega)
    have hnum : add32 (last - first) 1 = last - first + 1 := add32_eq (by omega)
    rw [netbufGetFragment, add32_eq (by omega), if_neg (by omega), hblocks]
    simp only [Option.bind_eq_bind, Option.bind_some, if_pos hle]
    by_cases hspace : headSpace = 0
    · rw [if_pos hspace, netbufAllocStruct_spec (hnum.trans hlength.symm) hne]
      refine ⟨_, rfl, ⟨hsize.symm, by show len < 2 ^ 32; omega, hops, hne, ?_⟩, hbytes⟩
      show ops.length < 2 ^ 32
      omega
    · have hspaceNum : add32 (add32 (last - first) 1) 1 = (reservedBlock bulk headSpace 0 ::
          ops).length := by
        rw [hnum, add32_eq (by omega), length_cons, hlength]
      rw [if_neg hspace, netbufAllocStruct_spec hspaceNum (cons_ne_nil _ _)]
      refine ⟨_, rfl, ⟨?_, by show len < 2 ^ 32; omega, ?_, cons_ne_nil _ _, ?_⟩, ?_⟩
      case refine_1 =>
        show len = sizeSum (reservedBlock bulk headSpace 0 :: ops)
        rw [sizeSum_cons, hsize]
        exact (Nat.zero_add len).symm
      case refine_2 =>
        intro o ho
        rcases mem_cons.mp ho with rfl | ho
        · exact blockOk_reserved bulk headSpace 0
        · exact hops o ho
      case refine_3 =>
        show ops.length + 1 < 2 ^ 32
        omega
      case refine_4 => exact hbytes

end GetFragment

end NetLib
end Udk
