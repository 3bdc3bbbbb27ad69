import Udk.NetLib.NetBufferBytes

/-!
# Space at the ends of a net buffer

`NetbufTrim` takes bytes off one end of the string and `NetbufAllocSpace` adds some there,
whichever blocks they fall into.  A buffer without bytes has no block at which the loop of
`NetbufTrim` could stop.
-/

namespace Udk
namespace NetLib

open List

variable {mem : Memory} {nbuf : NetBuf} {op : BlockOp} {ops before after : List BlockOp}
  {len index trimmed : Nat} {fromHead : Bool} {data front back : List UInt8}

/-- Two strings, the first of them at the chosen end. -/
def join (fromHead : Bool) (front back : List UInt8) : List UInt8 :=
  if fromHead then front ++ back else back ++ front

/-- A string without some bytes at the chosen end. -/
def cut (fromHead : Bool) (data : List UInt8) (len : Nat) : List UInt8 :=
  if fromHead then data.drop len else data.take (data.length - len)

section Trim

theorem cut_join
    (hle : len ≤ front.length) :
    cut fromHead (join fromHead front back) len = join fromHead (cut fromHead front len) back := by
  cases fromHead with
  | true => exact drop_append_of_le_length hle
  | false =>
      have hlen : (back ++ front).length - len = back.length + (front.length - len) := by
        rw [length_append]
        omega
      show (back ++ front).take ((back ++ front).length - len) = _
      rw [hlen, take_length_add_append]
      rfl

theorem cut_join_all
    (hle : front.length ≤ len) :
    cut fromHead (join fromHead front back) len =
      join fromHead (cut fromHead front front.length) (cut fromHead back (len - front.length)) := by
  cases fromHead with
  | true =>
      show (front ++ back).drop len = front.drop front.length ++ back.drop (len - front.length)
      rw [drop_append, drop_of_length_le hle, drop_length]
  | false =>
      have hlen : (back ++ front).length - len = back.length - (len - front.length) := by
        rw [length_append]
        omega
      show (back ++ front).take ((back ++ front).length - len) =
        back.take (back.length - (len - front.length)) ++ front.take (front.length - front.length)
      rw [hlen, take_append_of_le_length (by omega), Nat.sub_self, take_zero,
        append_nil]

theorem cut_nil : cut fromHead [] len = [] := by
  cases fromHead with
  | true => exact drop_nil
  | false => exact take_nil

theorem trimBytes_eq
    (hne : data ≠ []) :
    trimBytes data len fromHead = some (cut fromHead data (min len data.length)) := by
  have hmin : (if len > data.length then data.length else len) = min len data.length := by
    by_cases hlong : len > data.length
    · rw [if_pos hlong, Nat.min_eq_right (by omega)]
    · rw [if_neg hlong, Nat.min_eq_left (by omega)]
  rw [trimBytes, if_neg hne, hmin]
  rfl

/-- The bytes of the blocks in the order in which `NetbufTrim` comes to them. -/
def visitBytes (fromHead : Bool) (mem : Memory) (ops : List BlockOp) : List UInt8 :=
  blockBytes mem (if fromHead then ops else ops.reverse)

theorem visitBytes_cons :
    visitBytes fromHead mem (op :: ops) =
      join fromHead (op.bytes mem) (visitBytes fromHead mem ops) := by
  cases fromHead with
  | true => rfl
  | false =>
      show blockBytes mem (op :: ops).reverse = blockBytes mem ops.reverse ++ op.bytes mem
      rw [reverse_cons, blockBytes_append, blockBytes_cons, blockBytes_nil, append_nil]

theorem netblockTrim_spec
    (fromHead : Bool)
    (hok : BlockOk op)
    (hle : len ≤ op.size) :
    ∃ op', netblockTrim op len fromHead = some op' ∧ BlockOk op' ∧ op'.size = op.size - len ∧
      ∀ mem, op'.bytes mem = cut fromHead (op.bytes mem) len := by
  have hhead := hok.head
  have htail := hok.tail_eq
  have hend := hok.tail
  rw [netblockTrim, if_pos hle]
  cases fromHead with
  | true =>
      refine ⟨_, rfl, ⟨?_, ?_, ?_⟩, rfl, fun mem => (drop_peek hle).symm⟩
      case refine_1 => show op.blockHead ≤ op.head + len; omega
      case refine_2 => show op.tail = op.head + len + (op.size - len); omega
      case refine_3 => exact hend
  | false =>
      refine ⟨_, rfl, ⟨hhead, ?_, ?_⟩, rfl, fun mem => ?_⟩
      case refine_1 => show op.tail - len = op.head + (op.size - len); omega
      case refine_2 => show op.tail - len ≤ op.blockTail; omega
      case refine_3 =>
        show peek mem op.head (op.size - len) =
          (op.bytes mem).take ((op.bytes mem).length - len)
        rw [op.length_bytes]
        exact (take_peek (Nat.sub_le op.size len)).symm

/-- The loop stops at a block with data, after the bytes to trim. -/
theorem trimLoop_spec
    (fromHead : Bool)
    (hblocks : ∀ op ∈ ops, BlockOk op)
    (hpos : 0 < sizeSum ops)
    (hle : len ≤ sizeSum ops)
    (hlt : trimmed + sizeSum ops < 2 ^ 32) :
    ∃ ops', trimLoop fromHead ops len trimmed = some (ops', trimmed + len) ∧
      (∀ op ∈ ops', BlockOk op) ∧ ops'.length = ops.length ∧ sizeSum ops' = sizeSum ops - len ∧
      ∀ mem, visitBytes fromHead mem ops' = cut fromHead (visitBytes fromHead mem ops) len := by
  induction ops generalizing len trimmed with
  | nil =>
      rw [sizeSum_nil] at hpos
      omega
  | cons op ops ih =>
      rw [sizeSum_cons] at hpos hle hlt
      have hop := hblocks op mem_cons_self
      have hops : ∀ o ∈ ops, BlockOk o := fun o ho => hblocks o (mem_cons_of_mem op ho)
      by_cases hempty : op.size = 0
      · obtain ⟨ops', hloop, hok, hlength, hsize, hbytes⟩ :=
          ih hops (by omega) (by omega : len ≤ sizeSum ops)
            (by omega : trimmed + sizeSum ops < 2 ^ 32)
        refine ⟨op :: ops', ?_, ?_, ?_, ?_, fun mem => ?_⟩
        case refine_1 =>
          rw [trimLoop, if_pos hempty, hloop]
          rfl
        case refine_2 =>
          intro o ho
          rcases mem_cons.mp ho with rfl | ho
          · exact hop
          · exact hok o ho
        case refine_3 => rw [length_cons, hlength, length_cons]
        case refine_4 => rw [sizeSum_cons, hsize, sizeSum_cons]; omega
        case refine_5 =>
          have hnil : op.bytes mem = [] := eq_nil_of_length_eq_zero (by
            rw [op.length_bytes, hempty])
          rw [visitBytes_cons, visitBytes_cons, hbytes, hnil,
            cut_join_all (by rw [length_nil]; omega), cut_nil]
          rfl
      · by_cases hmore : len > op.size
        · obtain ⟨op', htrim, hok', hsize', hbytes'⟩ :=
            netblockTrim_spec fromHead hop (Nat.le_refl op.size)
          have hadd : add32 trimmed op.size = trimmed + op.size := add32_eq (by omega)
          obtain ⟨ops', hloop, hok, hlength, hsize, hbytes⟩ :=
            ih hops (by omega) (by omega : len - op.size ≤ sizeSum ops)
              (by omega : trimmed + op.size + sizeSum ops < 2 ^ 32)
          refine ⟨op' :: ops', ?_, ?_, ?_, ?_, fun mem => ?_⟩
          case refine_1 =>
            have hsum : trimmed + op.size + (len - op.size) = trimmed + len := by omega
            rw [trimLoop, if_neg hempty, if_pos hmore, htrim, hadd, Option.bind_eq_bind,
              Option.bind_some, hloop, hsum]
            rfl
          case refine_2 =>
            intro o ho
            rcases mem_cons.mp ho with rfl | ho
            · exact hok'
            · exact hok o ho
          case refine_3 => rw [length_cons, hlength, length_cons]
          case refine_4 => rw [sizeSum_cons, hsize, hsize', sizeSum_cons]; omega
          case refine_5 =>
            rw [visitBytes_cons, visitBytes_cons, hbytes, hbytes',
              cut_join_all (by rw [op.length_bytes]; omega), op.length_bytes]
        · obtain ⟨op', htrim, hok', hsize', hbytes'⟩ :=
            netblockTrim_spec fromHead hop (by omega : len ≤ op.size)
          refine ⟨op' :: ops, ?_, ?_, rfl, ?_, fun mem => ?_⟩
          case refine_1 =>
            rw [trimLoop, if_neg hempty, if_neg hmore, htrim, add32_eq (by omega)]
            rfl
          case refine_2 =>
            intro o ho
            rcases mem_cons.mp ho with rfl | ho
            · exact hok'
            · exact hops o ho
          case refine_3 => rw [sizeSum_cons, hsize', sizeSum_cons]; omega
          case refine_4 =>
            rw [visitBytes_cons, visitBytes_cons, hbytes',
              cut_join (by rw [op.length_bytes]; omega)]

/-- `NetbufTrim` trims the string, where the string is not empty. -/
theorem netbufTrim_spec
    (len : Nat)
    (fromHead : Bool)
    (hok : NetBufOk nbuf)
    (hne : nbuf.totalSize ≠ 0) :
    ∃ nbuf', netbufTrim nbuf len fromHead = some (nbuf', min len nbuf.totalSize) ∧
      NetBufOk nbuf' ∧
      ∀ mem, trimBytes (nbuf.bytes mem) len fromHead = some (nbuf'.bytes mem) := by
  have htotal := hok.totalSize_eq
  have h32 := hok.totalSize_lt
  have hmin : (if len > nbuf.totalSize then nbuf.totalSize else len) = min len nbuf.totalSize := by
    by_cases hlong : len > nbuf.totalSize
    · rw [if_pos hlong, Nat.min_eq_right (by omega)]
    · rw [if_neg hlong, Nat.min_eq_left (by omega)]
  have hle : min len nbuf.totalSize ≤ nbuf.totalSize := Nat.min_le_right len nbuf.totalSize
  have htrim : ∀ mem, trimBytes (nbuf.bytes mem) len fromHead =
      some (cut fromHead (nbuf.bytes mem) (min len nbuf.totalSize)) := by
    intro mem
    have hlength : (nbuf.bytes mem).length = nbuf.totalSize := hok.length_bytes
    rw [trimBytes_eq, hlength]
    intro hnil
    rw [hnil, length_nil] at hlength
    exact hne hlength.symm
  cases fromHead with
  | true =>
      obtain ⟨ops', hloop, hblocks, hlength, hsize, hbytes⟩ :=
        trimLoop_spec true hok.blocks (by omega)
          (by omega : min len nbuf.totalSize ≤ sizeSum nbuf.blockOp)
          (by omega : 0 + sizeSum nbuf.blockOp < 2 ^ 32)
      refine ⟨{ nbuf with totalSize := nbuf.totalSize - min len nbuf.totalSize, blockOp := ops' },
        ?_, ⟨?_, ?_, hblocks, ?_, ?_⟩, fun mem => ?_⟩
      case refine_1 =>
        rw [netbufTrim, hmin]
        simp only [if_true]
        rw [hloop, Nat.zero_add]
        rfl
      case refine_2 => show nbuf.totalSize - min len nbuf.totalSize = sizeSum ops'; omega
      case refine_3 => show nbuf.totalSize - min len nbuf.totalSize < 2 ^ 32; omega
      case refine_4 =>
        refine ne_nil_of_length_pos ?_
        exact hlength.symm ▸ length_pos_of_ne_nil hok.nonempty
      case refine_5 => exact hlength.trans_lt hok.count
      case refine_6 => rw [htrim mem]; exact congrArg some (hbytes mem).symm
  | false =>
      have hrev : ∀ o ∈ nbuf.blockOp.reverse, BlockOk o :=
        fun o ho => hok.blocks o (mem_reverse.mp ho)
      obtain ⟨ops', hloop, hblocks, hlength, hsize, hbytes⟩ :=
        trimLoop_spec false hrev
          (by rw [sizeSum_reverse]; omega)
          (by rw [sizeSum_reverse]; omega : min len nbuf.totalSize ≤ sizeSum nbuf.blockOp.reverse)
          (by rw [sizeSum_reverse]; omega : 0 + sizeSum nbuf.blockOp.reverse < 2 ^ 32)
      rw [length_reverse] at hlength
      rw [sizeSum_reverse] at hsize
      refine ⟨{ nbuf with
          totalSize := nbuf.totalSize - min len nbuf.totalSize, blockOp := ops'.reverse },
        ?_, ⟨?_, ?_, ?_, ?_, ?_⟩, fun mem => ?_⟩
      case refine_1 =>
        rw [netbufTrim, hmin]
        simp only [Bool.false_eq_true, if_false]
        rw [hloop, Nat.zero_add]
        rfl
      case refine_2 =>
        show nbuf.totalSize - min len nbuf.totalSize = sizeSum ops'.reverse
        rw [sizeSum_reverse]
        omega
      case refine_3 => show nbuf.totalSize - min len nbuf.totalSize < 2 ^ 32; omega
      case refine_4 => exact fun o ho => hblocks o (mem_reverse.mp ho)
      case refine_5 =>
        refine ne_nil_of_length_pos ?_
        have := length_pos_of_ne_nil hok.nonempty
        show 0 < ops'.reverse.length
        rw [length_reverse]
        omega
      case refine_6 =>
        show ops'.reverse.length < 2 ^ 32
        rw [length_reverse]
        exact hlength.trans_lt hok.count
      case refine_7 =>
        have h := hbytes mem
        simp only [visitBytes, Bool.false_eq_true, if_false, reverse_reverse] at h
        rw [htrim mem]
        exact congrArg some h.symm

end Trim

section AllocSpace

/-- The block that the space is taken from has no room for it. -/
def NoRoom (nbuf : NetBuf) (len : Nat) (fromHead : Bool) : Prop :=
  ∃ index op, allocIndex nbuf len fromHead = some index ∧ nbuf.blockOp[index]? = some op ∧
    room op fromHead < len

theorem getElem?_middle : (before ++ op :: after)[before.length]? = some op := by
  rw [getElem?_append_right (Nat.le_refl _), Nat.sub_self]
  rfl

theorem allocIndex_head
    (hok : NetBufOk nbuf)
    (hne : nbuf.totalSize ≠ 0) :
    ∃ before op after, nbuf.blockOp = before ++ op :: after ∧
      allocIndex nbuf len true = some before.length ∧ ∀ o ∈ before, o.size = 0 := by
  obtain ⟨before, op, after, heq, hlow, hhigh, hget⟩ :=
    netbufGetByte_spec hok (Nat.pos_of_ne_zero hne)
  have hfront : ∀ o ∈ before, o.size = 0 := by
    intro o ho
    have := size_le_sizeSum ho
    omega
  have hindex : allocIndex nbuf len true =
      some (if headSpace op < len ∧ 0 < before.length then before.length - 1
        else before.length) := by
    rw [allocIndex, if_neg hne, if_pos rfl, hget]
    show (nbuf.blockOp[before.length]?.bind fun op => some _) = _
    rw [heq, getElem?_middle]
    rfl
  by_cases hstep : headSpace op < len ∧ 0 < before.length
  · rw [if_pos hstep] at hindex
    rcases eq_nil_or_concat' before with rfl | ⟨before', prev, rfl⟩
    · exact absurd hstep.2 (Nat.lt_irrefl 0)
    · refine ⟨before', prev, op :: after, ?_, ?_, ?_⟩
      case refine_1 => rw [heq, append_assoc, singleton_append]
      case refine_2 => rw [hindex, length_append]; rfl
      case refine_3 => exact fun o ho => hfront o (mem_append_left _ ho)
  · rw [if_neg hstep] at hindex
    exact ⟨before, op, after, heq, hindex, hfront⟩

theorem allocIndex_tail
    (hok : NetBufOk nbuf)
    (hne : nbuf.totalSize ≠ 0) :
    ∃ before op after, nbuf.blockOp = before ++ op :: after ∧
      allocIndex nbuf len false = some before.length ∧ ∀ o ∈ after, o.size = 0 := by
  have htotal := hok.totalSize_eq
  obtain ⟨before, op, after, heq, hlow, hhigh, hget⟩ :=
    netbufGetByte_spec hok (by omega : nbuf.totalSize - 1 < nbuf.totalSize)
  have hback : ∀ o ∈ after, o.size = 0 := by
    intro o ho
    have := size_le_sizeSum ho
    rw [heq, sizeSum_append, sizeSum_cons] at htotal
    omega
  have hindex : allocIndex nbuf len false =
      some (if tailSpace op < len ∧ before.length < nbuf.blockOp.length - 1 then
        before.length + 1 else before.length) := by
    rw [allocIndex, if_neg hne, if_neg Bool.false_ne_true, hget]
    show (nbuf.blockOp[before.length]?.bind fun op => some _) = _
    rw [heq, getElem?_middle]
    rfl
  by_cases hstep : tailSpace op < len ∧ before.length < nbuf.blockOp.length - 1
  · rw [if_pos hstep] at hindex
    cases after with
    | nil =>
        rw [heq, length_append, length_singleton] at hstep
        omega
    | cons next after =>
        refine ⟨before ++ [op], next, after, ?_, ?_, ?_⟩
        case refine_1 => rw [heq, append_assoc, singleton_append]
        case refine_2 => rw [hindex, length_append]; rfl
        case refine_3 => exact fun o ho => hback o (mem_cons_of_mem next ho)
  · rw [if_neg hstep] at hindex
    exact ⟨before, op, after, heq, hindex, hback⟩

theorem allocIndex_spec
    (len : Nat)
    (fromHead : Bool)
    (hok : NetBufOk nbuf) :
    ∃ before op after, nbuf.blockOp = before ++ op :: after ∧
      allocIndex nbuf len fromHead = some before.length ∧
      ∀ o ∈ (if fromHead = true then before else after), o.size = 0 := by
  by_cases hempty : nbuf.totalSize = 0
  · have htotal := hok.totalSize_eq
    have hsizes : ∀ op ∈ nbuf.blockOp, op.size = 0 := by
      intro op hop
      have := size_le_sizeSum hop
      omega
    cases hblocks : nbuf.blockOp with
    | nil => exact absurd hblocks hok.nonempty
    | cons op after =>
        rw [hblocks] at hsizes
        refine ⟨[], op, after, rfl, ?_, fun o ho => hsizes o ?_⟩
        case refine_1 => rw [allocIndex, if_pos hempty]; rfl
        case refine_2 =>
          cases fromHead with
          | true => exact absurd ho not_mem_nil
          | false => exact mem_cons_of_mem op ho
  · cases fromHead with
    | true => exact allocIndex_head hok hempty
    | false => exact allocIndex_tail hok hempty

theorem allocBlock_spec
    (fromHead : Bool)
    (hok : BlockOk op)
    (hroom : len ≤ room op fromHead)
    (hlt : op.size + len < 2 ^ 32) :
    BlockOk (allocBlock op len fromHead) ∧ (allocBlock op len fromHead).size = op.size + len ∧
      ∀ mem, (allocBlock op len fromHead).bytes mem =
        join fromHead (peek mem (if fromHead then op.head - len else op.tail) len)
          (op.bytes mem) := by
  have hhead := hok.head
  have htail := hok.tail_eq
  have hend := hok.tail
  have hadd : add32 op.size len = op.size + len := add32_eq hlt
  cases fromHead with
  | true =>
      have hspace : len ≤ op.head - op.blockHead := hroom
      refine ⟨⟨?_, ?_, hend⟩, hadd, fun mem => ?_⟩
      case refine_1 => show op.blockHead ≤ op.head - len; omega
      case refine_2 => show op.tail = op.head - len + add32 op.size len; omega
      case refine_3 =>
        show peek mem (op.head - len) (add32 op.size len) =
          peek mem (op.head - len) len ++ peek mem op.head op.size
        rw [hadd, Nat.add_comm, peek_add, Nat.sub_add_cancel (by omega)]
  | false =>
      have hspace : len ≤ op.blockTail - op.tail := hroom
      refine ⟨⟨hhead, ?_, ?_⟩, hadd, fun mem => ?_⟩
      case refine_1 => show op.tail + len = op.head + add32 op.size len; omega
      case refine_2 => show op.tail + len ≤ op.blockTail; omega
      case refine_3 =>
        show peek mem op.head (add32 op.size len) =
          peek mem op.head op.size ++ peek mem op.tail len
        rw [hadd, peek_add, htail]

/-- `NetbufAllocSpace` adds the space at the chosen end, or refuses for want of room. -/
theorem netbufAllocSpace_spec
    (hok : NetBufOk nbuf)
    (hpos : 0 < len)
    (hfit : nbuf.totalSize + len < 2 ^ 32 ∨ NoRoom nbuf len fromHead) :
    ∃ nbuf' space, netbufAllocSpace nbuf len fromHead = some (nbuf', space) ∧ NetBufOk nbuf' ∧
      ((space = none ∧ nbuf' = nbuf ∧ NoRoom nbuf len fromHead) ∨
        ∃ addr, space = some addr ∧ nbuf'.totalSize = nbuf.totalSize + len ∧
          ∀ mem, nbuf'.bytes mem = join fromHead (peek mem addr len) (nbuf.bytes mem)) := by
  obtain ⟨before, op, after, heq, hindex, hempty⟩ := allocIndex_spec len fromHead hok
  have hfound : nbuf.blockOp[before.length]? = some op := by
    rw [heq, getElem?_middle]
  have hop : BlockOk op := hok.blocks op (by rw [heq]; exact mem_append_right _ (by simp))
  have htotal := hok.totalSize_eq
  have hsize : op.size ≤ nbuf.totalSize := by
    rw [htotal, heq, sizeSum_append, sizeSum_cons]
    omega
  have hset : nbuf.blockOp.set before.length (allocBlock op len fromHead) =
      before ++ allocBlock op len fromHead :: after := by
    rw [heq, set_append_right _ _ (Nat.le_refl _), Nat.sub_self]
    rfl
  rw [netbufAllocSpace, if_pos hpos, hindex]
  simp only [Option.bind_eq_bind, Option.bind_some, hfound]
  by_cases hroom : room op fromHead < len
  · rw [if_pos hroom]
    exact ⟨nbuf, none, rfl, hok, Or.inl ⟨rfl, rfl, before.length, op, hindex, hfound, hroom⟩⟩
  · rw [if_neg hroom]
    have hlt : nbuf.totalSize + len < 2 ^ 32 := by
      rcases hfit with hlt | ⟨index, op', hindex', hfound', hroom'⟩
      · exact hlt
      · rw [hindex] at hindex'
        cases hindex'
        rw [hfound] at hfound'
        cases hfound'
        exact absurd hroom' hroom
    obtain ⟨hblock, hblockSize, hblockBytes⟩ :=
      allocBlock_spec fromHead hop (Nat.le_of_not_lt hroom) (by omega)
    refine ⟨_, _, rfl, ⟨?_, ?_, ?_, ?_, ?_⟩, Or.inr ⟨_, rfl, add32_eq hlt, fun mem => ?_⟩⟩
    case refine_1 =>
      show add32 nbuf.totalSize len = sizeSum (nbuf.blockOp.set _ _)
      rw [add32_eq hlt, hset, sizeSum_append, sizeSum_cons, hblockSize, htotal, heq,
        sizeSum_append, sizeSum_cons]
      omega
    case refine_2 => exact (add32_eq hlt).trans_lt hlt
    case refine_3 =>
      show ∀ o ∈ nbuf.blockOp.set _ _, BlockOk o
      rw [hset]
      intro o ho
      rcases mem_append.mp ho with ho | ho
      · exact hok.blocks o (by rw [heq]; exact mem_append_left _ ho)
      · rcases mem_cons.mp ho with rfl | ho
        · exact hblock
        · exact hok.blocks o (by rw [heq]; exact mem_append_right _ (mem_cons_of_mem _ ho))
    case refine_4 =>
      show nbuf.blockOp.set _ _ ≠ []
      rw [hset]
      exact append_ne_nil_of_right_ne_nil before (cons_ne_nil _ _)
    case refine_5 =>
      show (nbuf.blockOp.set _ _).length < 2 ^ 32
      rw [length_set]
      exact hok.count
    case refine_6 =>
      show blockBytes mem (nbuf.blockOp.set _ _) = join fromHead _ (blockBytes mem nbuf.blockOp)
      rw [hset, heq, blockBytes_append, blockBytes_cons, hblockBytes, blockBytes_append,
        blockBytes_cons]
      cases fromHead with
      | true =>
          have hnil : blockBytes mem before = [] := blockBytes_empty hempty
          rw [hnil]
          exact append_assoc _ _ _
      | false =>
          have hnil : blockBytes mem after = [] := blockBytes_empty hempty
          rw [hnil, append_nil, append_nil]
          exact (append_assoc _ _ _).symm

end AllocSpace

end NetLib
end Udk
