import Udk.NetLib.NetBufferBytes

/-!
# Copies of a net buffer

`NetbufCopy` writes a substring of the buffer to its destination, block by block.
-/

namespace Udk
namespace NetLib

open List

variable {mem mem' : Memory} {nbuf nbuf' : NetBuf} {op : BlockOp} {ops before after : List BlockOp}
  {len offset cur dest copied : Nat}

/-- The blocks have no data in a range of addresses. -/
def BlocksApart (ops : List BlockOp) (addr len : Nat) : Prop :=
  ∀ op ∈ ops, Apart op.head op.size addr len

theorem BlocksApart.bytes_eq
    (hapart : BlocksApart ops dest len)
    (hframe : ∀ addr, addr < dest ∨ dest + len ≤ addr → mem' addr = mem addr) :
    blockBytes mem' ops = blockBytes mem ops :=
  blockBytes_congr fun op hop => peek_congr fun k hk => hframe _ (hapart op hop k hk)

theorem BlocksApart.shrink
    {a b : Nat}
    (hapart : BlocksApart ops dest len)
    (hle : a + b ≤ len) :
    BlocksApart ops (dest + a) b :=
  fun op hop => (hapart op hop).shrink hle

theorem copySkip_spec
    (hlow : cur ≤ offset)
    (hhigh : offset < cur + sizeSum ops)
    (hlt : cur + sizeSum ops < 2 ^ 32) :
    ∃ before op after, ops = before ++ op :: after ∧
      cur + sizeSum before ≤ offset ∧ offset < cur + sizeSum before + op.size ∧
      copySkip offset ops cur = (op :: after, cur + sizeSum before) := by
  obtain ⟨before, op, after, heq, hstart, hstop, hfits, hloop⟩ :=
    search_block (fun ops _ cur => copySkip offset ops cur) 0 (fun op ops _ cur hle => by
      show copySkip offset (op :: ops) cur = _
      rw [copySkip, add32_eq (by omega), if_neg (Nat.not_lt_of_le hle)]
      split
      case isTrue hempty => rw [hempty, Nat.add_zero]
      case isFalse => rfl) hlow hhigh hlt
  refine ⟨before, op, after, heq, hstart, hstop, hloop.trans ?_⟩
  rw [copySkip, if_neg (by omega), add32_eq hfits, if_pos hstop]

/-- The second loop writes what is left to copy. -/
theorem copyLoop_spec
    (mem : Memory)
    (hle : len ≤ sizeSum ops)
    (hapart : BlocksApart ops dest len)
    (hlt : copied + len < 2 ^ 32) :
    Written mem (copyLoop mem dest len copied ops).1 dest ((blockBytes mem ops).take len) ∧
      (copyLoop mem dest len copied ops).2 = copied + len := by
  induction ops generalizing mem dest len copied with
  | nil =>
      rw [sizeSum_nil, Nat.le_zero] at hle
      rw [hle]
      exact ⟨Written.nil, rfl⟩
  | cons op ops ih =>
      rw [sizeSum_cons] at hle
      have hops : BlocksApart ops dest len := fun o ho => hapart o (mem_cons_of_mem op ho)
      rw [copyLoop]
      by_cases hmore : len > op.size
      · rw [if_pos hmore, add32_eq (by omega)]
        have hfirst : Written mem (moveBytes mem dest op.head op.size) dest (op.bytes mem) :=
          written_moveBytes
        obtain ⟨hrest, hcount⟩ :=
          ih (moveBytes mem dest op.head op.size) (by omega : len - op.size ≤ sizeSum ops)
            (hops.shrink (by omega) : BlocksApart ops (dest + op.size) (len - op.size))
            (by omega : copied + op.size + (len - op.size) < 2 ^ 32)
        have hkept : blockBytes (moveBytes mem dest op.head op.size) ops = blockBytes mem ops := by
          refine hops.bytes_eq fun addr hout => hfirst.frame addr ?_
          rw [op.length_bytes]
          omega
        constructor
        case left =>
          rw [hkept] at hrest
          have hwhole := hfirst.append (by rw [op.length_bytes]; exact hrest)
          rw [blockBytes_cons, take_append, op.length_bytes,
            take_of_length_le (by rw [op.length_bytes]; omega)]
          exact hwhole
        case right => rw [hcount]; omega
      · rw [if_neg hmore, add32_eq hlt]
        constructor
        case left =>
          rw [blockBytes_cons, take_append_of_le_length (by rw [op.length_bytes]; omega),
            BlockOp.bytes, take_peek (by omega)]
          exact written_moveBytes
        case right => rfl

/-- `NetbufCopy` writes the substring, clipped at the end of the buffer. -/
theorem netbufCopy_spec
    (mem : Memory)
    (offset len : Nat)
    (hok : NetBufOk nbuf)
    (hdest : dest ≠ 0)
    (hapart : BlocksApart nbuf.blockOp dest (min len (nbuf.totalSize - offset))) :
    ∃ mem', netbufCopy mem nbuf offset len dest =
        some (mem', min len (nbuf.totalSize - offset)) ∧
      Written mem mem' dest (((nbuf.bytes mem).drop offset).take len) := by
  have htotal := hok.totalSize_eq
  have h32 := hok.totalSize_lt
  have hlength : (nbuf.bytes mem).length = nbuf.totalSize := hok.length_bytes
  by_cases hnone : len = 0 ∨ nbuf.totalSize ≤ offset
  · refine ⟨mem, ?_, ?_⟩
    case refine_1 =>
      have hzero : min len (nbuf.totalSize - offset) = 0 := by omega
      rw [netbufCopy, if_neg hdest, if_pos hnone, hzero]
    case refine_2 =>
      have hnil : ((nbuf.bytes mem).drop offset).take len = [] := by
        refine eq_nil_of_length_eq_zero ?_
        rw [length_take, length_drop, hlength]
        omega
      rw [hnil]
      exact Written.nil
  · have hmin : (if nbuf.totalSize - offset < len then nbuf.totalSize - offset else len) =
        min len (nbuf.totalSize - offset) := by
      by_cases hlong : nbuf.totalSize - offset < len
      · rw [if_pos hlong, Nat.min_eq_right (by omega)]
      · rw [if_neg hlong, Nat.min_eq_left (by omega)]
    have hclip : ((nbuf.bytes mem).drop offset).take len =
        ((nbuf.bytes mem).drop offset).take (min len (nbuf.totalSize - offset)) := by
      rw [← hlength, ← length_drop, take_eq_take_min]
    have hbound : offset + min len (nbuf.totalSize - offset) ≤ nbuf.totalSize := by omega
    have hcount : 0 < min len (nbuf.totalSize - offset) := by omega
    rw [hclip]
    rw [netbufCopy, if_neg hdest, if_neg hnone, hmin]
    generalize min len (nbuf.totalSize - offset) = count at *
    obtain ⟨before, op, after, heq, hstart, hstop, hskip⟩ :=
      copySkip_spec (Nat.zero_le offset) (by omega : offset < 0 + sizeSum nbuf.blockOp)
        (by omega)
    rw [Nat.zero_add] at hstart hstop hskip
    rw [heq, sizeSum_append, sizeSum_cons] at htotal
    have hleft : sub32 op.size (sub32 offset (sizeSum before)) =
        op.size - (offset - sizeSum before) := by
      rw [sub32_eq hstart (by omega), sub32_eq (by omega) (by omega)]
    have hbytes : (nbuf.bytes mem).drop offset =
        peek mem (op.head + (offset - sizeSum before)) (op.size - (offset - sizeSum before)) ++
          blockBytes mem after := by
      rw [NetBuf.bytes, heq]
      exact drop_blockBytes hstart (Nat.le_of_lt hstop)
    simp only [hskip, hleft]
    rw [sub32_eq hstart (by omega), hbytes]
    generalize hn : op.size - (offset - sizeSum before) = n at *
    by_cases hwithin : count ≤ n
    · rw [if_pos hwithin]
      refine ⟨_, rfl, ?_⟩
      rw [take_append_of_le_length (by rw [length_peek]; exact hwithin), take_peek hwithin]
      exact written_moveBytes
    · rw [if_neg hwithin]
      have hafter : BlocksApart after dest count :=
        fun o ho => hapart o (by rw [heq]; exact mem_append_right _ (mem_cons_of_mem _ ho))
      have hfirst : Written mem
          (moveBytes mem dest (op.head + (offset - sizeSum before)) n) dest
          (peek mem (op.head + (offset - sizeSum before)) n) := written_moveBytes
      have hkept : blockBytes
          (moveBytes mem dest (op.head + (offset - sizeSum before)) n) after =
          blockBytes mem after := by
        refine hafter.bytes_eq fun addr hout => hfirst.frame addr ?_
        rw [length_peek]
        omega
      obtain ⟨hrest, hcopied⟩ :=
        copyLoop_spec (moveBytes mem dest (op.head + (offset - sizeSum before)) n)
          (by omega : count - n ≤ sizeSum after)
          (hafter.shrink (by omega) : BlocksApart after (dest + n) (count - n))
          (by omega : n + (count - n) < 2 ^ 32)
      refine ⟨(copyLoop (moveBytes mem dest (op.head + (offset - sizeSum before)) n) (dest + n)
        (count - n) n after).1, ?_, ?_⟩
      case refine_1 =>
        have hsum : n + (count - n) = count := by omega
        rw [hsum] at hcopied
        exact congrArg some (Prod.ext rfl hcopied)
      case refine_2 =>
        rw [hkept] at hrest
        rw [take_append, take_of_length_le (by rw [length_peek]; omega), length_peek]
        exact hfirst.append (by rw [length_peek]; exact hrest)

end NetLib
end Udk
