import Udk.NetLib.NetBuffer
import Udk.NetLib.NetBytes

/-!
# Net buffers as byte strings

The bytes of a net buffer are those of its blocks, one block behind the other.  A buffer is
well formed when its total size is that of its blocks and each block has its data in its
memory.
-/

namespace Udk
namespace NetLib

open List

/-- The bytes from `Head` on. -/
def BlockOp.bytes (mem : Memory) (op : BlockOp) : List UInt8 :=
  peek mem op.head op.size

/-- The bytes of some blocks. -/
def blockBytes (mem : Memory) (ops : List BlockOp) : List UInt8 :=
  ops.flatMap (BlockOp.bytes mem)

/-- The bytes of a net buffer. -/
def NetBuf.bytes (mem : Memory) (nbuf : NetBuf) : List UInt8 :=
  blockBytes mem nbuf.blockOp

/-- The number of the bytes in some blocks. -/
def sizeSum (ops : List BlockOp) : Nat :=
  (ops.map BlockOp.size).sum

/-- A block with its data in its memory. -/
structure BlockOk (op : BlockOp) : Prop where
  head : op.blockHead ≤ op.head
  tail_eq : op.tail = op.head + op.size
  tail : op.tail ≤ op.blockTail

/-- A well-formed net buffer. -/
structure NetBufOk (nbuf : NetBuf) : Prop where
  totalSize_eq : nbuf.totalSize = sizeSum nbuf.blockOp
  totalSize_lt : nbuf.totalSize < 2 ^ 32
  blocks : ∀ op ∈ nbuf.blockOp, BlockOk op
  nonempty : nbuf.blockOp ≠ []
  count : nbuf.blockOp.length < 2 ^ 32

variable {mem mem' : Memory} {nbuf nbuf' : NetBuf} {op op' : BlockOp} {ops ops' : List BlockOp}
  {before after rest : List BlockOp}
  {a b offset len cur index trimmed addr : Nat} {fromHead : Bool}

section Arithmetic

theorem add32_eq
    (hlt : a + b < 2 ^ 32) :
    add32 a b = a + b :=
  Nat.mod_eq_of_lt hlt

theorem sub32_eq
    (hle : b ≤ a)
    (hlt : a < 2 ^ 32) :
    sub32 a b = a - b := by
  rw [sub32]
  omega

end Arithmetic

section Sizes

@[simp] theorem sizeSum_nil : sizeSum [] = 0 := rfl

@[simp] theorem sizeSum_cons : sizeSum (op :: ops) = op.size + sizeSum ops := by
  rw [sizeSum, map_cons, sum_cons, sizeSum]

@[simp] theorem sizeSum_append : sizeSum (ops ++ ops') = sizeSum ops + sizeSum ops' := by
  rw [sizeSum, map_append, sum_append, sizeSum, sizeSum]

@[simp] theorem sizeSum_reverse : sizeSum ops.reverse = sizeSum ops := by
  rw [sizeSum, map_reverse, sum_reverse, sizeSum]

theorem size_le_sizeSum
    (hmem : op ∈ ops) :
    op.size ≤ sizeSum ops := by
  obtain ⟨before, after, rfl⟩ := append_of_mem hmem
  rw [sizeSum_append, sizeSum_cons]
  omega

theorem sizeSum_eq_zero
    (hempty : ∀ op ∈ ops, op.size = 0) :
    sizeSum ops = 0 := by
  induction ops with
  | nil => rfl
  | cons op ops ih =>
      rw [sizeSum_cons, hempty op mem_cons_self,
        ih fun o ho => hempty o (mem_cons_of_mem op ho)]

end Sizes

section Bytes

@[simp] theorem BlockOp.length_bytes : (op.bytes mem).length = op.size :=
  length_peek

@[simp] theorem blockBytes_nil : blockBytes mem [] = [] := rfl

@[simp] theorem blockBytes_cons :
    blockBytes mem (op :: ops) = op.bytes mem ++ blockBytes mem ops := rfl

@[simp] theorem blockBytes_append :
    blockBytes mem (ops ++ ops') = blockBytes mem ops ++ blockBytes mem ops' :=
  flatMap_append

@[simp] theorem length_blockBytes : (blockBytes mem ops).length = sizeSum ops := by
  induction ops with
  | nil => rfl
  | cons op ops ih => rw [blockBytes_cons, length_append, ih, op.length_bytes, sizeSum_cons]

theorem blockBytes_eq_flatten : blockBytes mem ops = (ops.map (BlockOp.bytes mem)).flatten := rfl

theorem NetBufOk.length_bytes
    (hok : NetBufOk nbuf) :
    (nbuf.bytes mem).length = nbuf.totalSize := by
  rw [NetBuf.bytes, length_blockBytes, hok.totalSize_eq]

theorem blockBytes_congr
    (hsame : ∀ op ∈ ops, op.bytes mem' = op.bytes mem) :
    blockBytes mem' ops = blockBytes mem ops := by
  induction ops with
  | nil => rfl
  | cons op ops ih =>
      rw [blockBytes_cons, blockBytes_cons, hsame op mem_cons_self,
        ih fun o ho => hsame o (mem_cons_of_mem op ho)]

theorem blockBytes_empty
    (hempty : ∀ op ∈ ops, op.size = 0) :
    blockBytes mem ops = [] := by
  refine eq_nil_of_length_eq_zero ?_
  rw [length_blockBytes, sizeSum_eq_zero hempty]

theorem drop_blockBytes
    (hlow : sizeSum before ≤ offset)
    (hhigh : offset ≤ sizeSum before + op.size) :
    (blockBytes mem (before ++ op :: after)).drop offset =
      peek mem (op.head + (offset - sizeSum before)) (op.size - (offset - sizeSum before)) ++
        blockBytes mem after := by
  have hlength : ((before.map (BlockOp.bytes mem)).flatten).length = sizeSum before :=
    length_blockBytes
  rw [blockBytes_eq_flatten, map_append, map_cons,
    drop_flatten (by rw [hlength]; exact hlow) (by rw [hlength, op.length_bytes]; exact hhigh),
    hlength, BlockOp.bytes, drop_peek (by omega)]
  rfl

end Bytes

section GetByte

/-- A search over the blocks in front of an offset comes to the block that holds it. -/
theorem search_block
    {β : Type*}
    (search : List BlockOp → Nat → Nat → β) (index : Nat)
    (hpass : ∀ op ops index cur, cur + op.size ≤ offset →
      search (op :: ops) index cur = search ops (index + 1) (cur + op.size))
    (hlow : cur ≤ offset)
    (hhigh : offset < cur + sizeSum ops)
    (hlt : cur + sizeSum ops < 2 ^ 32) :
    ∃ before op after, ops = before ++ op :: after ∧
      cur + sizeSum before ≤ offset ∧ offset < cur + sizeSum before + op.size ∧
      cur + sizeSum before + op.size < 2 ^ 32 ∧
      search ops index cur = search (op :: after) (index + before.length) (cur + sizeSum before) := by
  obtain ⟨before, op, after, rfl, hstart, hstop, hsearch⟩ :=
    search_reaches BlockOp.size search index cur hpass hlow hhigh
  rw [sizeSum_append, sizeSum_cons] at hlt
  exact ⟨before, op, after, rfl, hstart, hstop, by omega, hsearch⟩

/-- The search ends at the block with the byte. -/
theorem getByteLoop_spec
    (index : Nat)
    (hlow : cur ≤ offset)
    (hhigh : offset < cur + sizeSum ops)
    (hlt : cur + sizeSum ops < 2 ^ 32) :
    ∃ before op after, ops = before ++ op :: after ∧
      cur + sizeSum before ≤ offset ∧ offset < cur + sizeSum before + op.size ∧
      getByteLoop offset ops index cur =
        some (index + before.length, op.head + (offset - (cur + sizeSum before))) := by
  obtain ⟨before, op, after, heq, hstart, hstop, hfits, hloop⟩ :=
    search_block (getByteLoop offset) index (fun op ops index cur hle => by
      rw [getByteLoop, add32_eq (by omega), if_pos hle]) hlow hhigh hlt
  refine ⟨before, op, after, heq, hstart, hstop, ?_⟩
  rw [hloop, getByteLoop, add32_eq hfits, if_neg (Nat.not_le_of_lt hstop),
    sub32_eq hstart (by omega)]

theorem netbufGetByte_spec
    (hok : NetBufOk nbuf)
    (hlt : offset < nbuf.totalSize) :
    ∃ before op after, nbuf.blockOp = before ++ op :: after ∧
      sizeSum before ≤ offset ∧ offset < sizeSum before + op.size ∧
      netbufGetByte nbuf offset = some (before.length, op.head + (offset - sizeSum before)) := by
  have htotal := hok.totalSize_eq
  have h32 := hok.totalSize_lt
  obtain ⟨before, op, after, heq, hstart, hstop, hloop⟩ :=
    getByteLoop_spec 0 (Nat.zero_le offset) (by omega : offset < 0 + sizeSum nbuf.blockOp)
      (by omega)
  rw [Nat.zero_add] at hstart hstop
  refine ⟨before, op, after, heq, hstart, hstop, ?_⟩
  rw [netbufGetByte, if_neg (by omega), hloop, Nat.zero_add, Nat.zero_add]

end GetByte

end NetLib
end Udk
