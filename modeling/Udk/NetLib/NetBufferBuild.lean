import Udk.NetLib.NetBufferCopy
import Udk.NetLib.NetBufferFragment
import Udk.NetLib.NetBufferSpace

/-!
# Net buffers from external blocks

`NetbufFromExt` copies the header into a block of its own and shares the rest of the
fragments, so that the new buffer is their concatenation.
-/

namespace Udk
namespace NetLib

open List

/-- The bytes of some fragments. -/
def fragmentBytes (mem : Memory) (fragments : List NetFragment) : List UInt8 :=
  fragments.flatMap fun fragment => peek mem fragment.bulk fragment.len

/-- The number of the bytes in some fragments. -/
def lenSum (fragments : List NetFragment) : Nat :=
  (fragments.map NetFragment.len).sum

/-- The fragments have no data in a range of addresses. -/
def FragmentsApart (fragments : List NetFragment) (addr len : Nat) : Prop :=
  ∀ fragment ∈ fragments, Apart fragment.bulk fragment.len addr len

variable {mem mem' : Memory} {nbuf : NetBuf} {fragment : NetFragment}
  {fragments : List NetFragment} {len dest header copied num total headSpace headLen bulk : Nat}
  {extFree : Bool}

section Fragments

@[simp] theorem fragmentBytes_cons :
    fragmentBytes mem (fragment :: fragments) =
      peek mem fragment.bulk fragment.len ++ fragmentBytes mem fragments := rfl

@[simp] theorem lenSum_cons :
    lenSum (fragment :: fragments) = fragment.len + lenSum fragments := by
  rw [lenSum, map_cons, sum_cons, lenSum]

@[simp] theorem length_fragmentBytes : (fragmentBytes mem fragments).length = lenSum fragments := by
  induction fragments with
  | nil => rfl
  | cons fragment fragments ih =>
      rw [fragmentBytes_cons, length_append, ih, length_peek, lenSum_cons]

theorem FragmentsApart.bytes_eq
    (hapart : FragmentsApart fragments dest len)
    (hframe : ∀ addr, addr < dest ∨ dest + len ≤ addr → mem' addr = mem addr) :
    fragmentBytes mem' fragments = fragmentBytes mem fragments := by
  induction fragments with
  | nil => rfl
  | cons fragment fragments ih =>
      have hfirst : peek mem' fragment.bulk fragment.len = peek mem fragment.bulk fragment.len :=
        peek_congr fun k hk => hframe _ (hapart fragment mem_cons_self k hk)
      rw [fragmentBytes_cons, fragmentBytes_cons, hfirst,
        ih fun f hf => hapart f (mem_cons_of_mem fragment hf)]

theorem FragmentsApart.shrink
    {a b : Nat}
    (hapart : FragmentsApart fragments dest len)
    (hle : a + b ≤ len) :
    FragmentsApart fragments (dest + a) b :=
  fun f hf => (hapart f hf).shrink hle

theorem blockBytes_fragments :
    blockBytes mem (fragments.map fun f => netbufSetBlockOp f.bulk f.len) =
      fragmentBytes mem fragments := by
  induction fragments with
  | nil => rfl
  | cons fragment fragments ih =>
      rw [map_cons, blockBytes_cons, fragmentBytes_cons, ih]
      rfl

theorem sizeSum_fragments :
    sizeSum (fragments.map fun f => netbufSetBlockOp f.bulk f.len) = lenSum fragments := by
  induction fragments with
  | nil => rfl
  | cons fragment fragments ih =>
      rw [map_cons, sizeSum_cons, lenSum_cons, ih]
      rfl

theorem foldl_len
    (hlt : total + lenSum fragments < 2 ^ 32) :
    fragments.foldl (fun total fragment => add32 total fragment.len) total =
      total + lenSum fragments := by
  induction fragments generalizing total with
  | nil => rfl
  | cons fragment fragments ih =>
      rw [lenSum_cons] at hlt ⊢
      rw [foldl_cons, add32_eq (by omega), ih (by omega), Nat.add_assoc]

end Fragments

section FromExt

variable {first : NetFragment} {more : List NetFragment}

/-- What the header loop leaves: the header is copied, the rest is still in the fragments. -/
structure HeaderPulled (mem : Memory) (fragments : List NetFragment) (header len copied num : Nat)
    (pulled : HeaderCopy) : Prop where
  written : Written mem pulled.mem header ((fragmentBytes mem fragments).take len)
  copied_eq : pulled.copied = copied + min len (lenSum fragments)
  rest_bytes : ∀ mem, fragmentBytes mem pulled.rest = (fragmentBytes mem fragments).drop len
  rest_sum : lenSum pulled.rest = lenSum fragments - len
  rest_length : pulled.rest.length ≤ fragments.length
  blockNum_eq : (pulled.blockNum + (fragments.length - pulled.rest.length)) % 2 ^ 32 = num
  blockNum_lt : pulled.blockNum < 2 ^ 32

theorem headerPulled_none
    (hnum : num < 2 ^ 32) :
    HeaderPulled mem fragments header 0 copied num ⟨mem, copied, num, fragments⟩ := by
  refine ⟨Written.nil, ?_, fun _ => rfl, rfl, Nat.le_refl _, ?_, hnum⟩
  case refine_1 => rw [Nat.zero_min]; rfl
  case refine_2 =>
    show (num + (fragments.length - fragments.length)) % 2 ^ 32 = num
    rw [Nat.sub_self, Nat.add_zero, Nat.mod_eq_of_lt hnum]

/-- A fragment that belongs to the header, in front of the others. -/
theorem HeaderPulled.cons
    {pulled : HeaderCopy}
    (hwhole : fragment.len ≤ len)
    (hapart : FragmentsApart fragments header len)
    (hnum : num < 2 ^ 32)
    (hmore : HeaderPulled (moveBytes mem header fragment.bulk fragment.len) fragments
      (header + fragment.len) (len - fragment.len) (copied + fragment.len) (sub32 num 1) pulled) :
    HeaderPulled mem (fragment :: fragments) header len copied num pulled := by
  have hpeek : (peek mem fragment.bulk fragment.len).length = fragment.len := length_peek
  have hfirst : Written mem (moveBytes mem header fragment.bulk fragment.len) header
      (peek mem fragment.bulk fragment.len) := written_moveBytes
  have hkept : fragmentBytes (moveBytes mem header fragment.bulk fragment.len) fragments =
      fragmentBytes mem fragments :=
    hapart.bytes_eq fun addr hout => hfirst.frame addr (by omega)
  have hwritten := hmore.written
  have hcopied := hmore.copied_eq
  have hlength := hmore.rest_length
  have hnumEq := hmore.blockNum_eq
  have hcount : (fragment :: fragments).length = fragments.length + 1 := rfl
  rw [hkept] at hwritten
  refine ⟨?_, ?_, ?_, ?_, ?_, ?_, hmore.blockNum_lt⟩
  case refine_1 =>
    have htake : (fragmentBytes mem (fragment :: fragments)).take len =
        peek mem fragment.bulk fragment.len ++
          (fragmentBytes mem fragments).take (len - fragment.len) := by
      rw [fragmentBytes_cons, take_append, take_of_length_le (by omega), hpeek]
    rw [htake]
    exact hfirst.append (by rw [hpeek]; exact hwritten)
  case refine_2 => rw [lenSum_cons]; omega
  case refine_3 =>
    intro mem
    have hlen : (peek mem fragment.bulk fragment.len).length = fragment.len := length_peek
    rw [hmore.rest_bytes, fragmentBytes_cons, drop_append,
      drop_of_length_le (hlen.trans_le hwhole), hlen, nil_append]
  case refine_4 => rw [hmore.rest_sum, lenSum_cons]; omega
  case refine_5 => omega
  case refine_6 =>
    rw [sub32] at hnumEq
    omega

theorem headerLoop_spec
    (mem : Memory)
    (hapart : FragmentsApart fragments header len)
    (hlt : copied + len < 2 ^ 32)
    (hnum : num < 2 ^ 32) :
    HeaderPulled mem fragments header len copied num
      (headerLoop mem header len copied num fragments) := by
  induction fragments generalizing mem header len copied num with
  | nil =>
      rw [headerLoop]
      refine ⟨?_, ?_, ?_, ?_, Nat.le_refl 0, Nat.mod_eq_of_lt hnum, hnum⟩
      case refine_1 => rw [show fragmentBytes mem [] = [] from rfl, take_nil]; exact Written.nil
      case refine_2 => rw [show lenSum [] = 0 from rfl, Nat.min_zero]; rfl
      case refine_3 => exact fun _ => drop_nil.symm
      case refine_4 => exact (Nat.zero_sub len).symm
  | cons fragment fragments ih =>
      have hrest : FragmentsApart fragments header len :=
        fun f hf => hapart f (mem_cons_of_mem fragment hf)
      have hsub : sub32 num 1 < 2 ^ 32 := Nat.mod_lt _ (Nat.two_pow_pos 32)
      rw [headerLoop]
      by_cases hwhole : fragment.len ≤ len
      · rw [if_pos hwhole, add32_eq (by omega)]
        by_cases hdone : len - fragment.len = 0
        · simp only [if_pos hdone]
          refine HeaderPulled.cons hwhole hrest hnum ?_
          rw [hdone]
          exact headerPulled_none hsub
        · simp only [if_neg hdone]
          exact HeaderPulled.cons hwhole hrest hnum
            (ih _ (hrest.shrink (by omega)) (by omega) hsub)
      · have hpeek : (peek mem fragment.bulk fragment.len).length = fragment.len := length_peek
        rw [if_neg hwhole, add32_eq hlt]
        refine ⟨?_, ?_, ?_, ?_, Nat.le_refl _, ?_, hnum⟩
        case refine_1 =>
          rw [fragmentBytes_cons, take_append_of_le_length (by omega), take_peek (by omega)]
          exact written_moveBytes
        case refine_2 => rw [lenSum_cons]; show copied + len = _; omega
        case refine_3 =>
          intro mem
          rw [fragmentBytes_cons, fragmentBytes_cons,
            drop_append_of_le_length (by rw [length_peek]; omega), drop_peek (by omega)]
        case refine_4 =>
          rw [lenSum_cons, lenSum_cons]
          show fragment.len - len + lenSum fragments = _
          omega
        case refine_5 =>
          simp only [length_cons, Nat.sub_self, Nat.add_zero]
          exact Nat.mod_eq_of_lt hnum

theorem headerLoop_apart
    {addr room : Nat}
    (hapart : FragmentsApart fragments addr room) :
    FragmentsApart (headerLoop mem header len copied num fragments).rest addr room := by
  induction fragments generalizing mem header len copied num with
  | nil => exact hapart
  | cons fragment fragments ih =>
      have hrest : FragmentsApart fragments addr room :=
        fun f hf => hapart f (mem_cons_of_mem fragment hf)
      rw [headerLoop]
      by_cases hwhole : fragment.len ≤ len
      · rw [if_pos hwhole]
        by_cases hdone : len - fragment.len = 0
        · simp only [if_pos hdone]
          exact hrest
        · simp only [if_neg hdone]
          exact ih hrest
      · rw [if_neg hwhole]
        intro f hf
        rcases mem_cons.mp hf with rfl | hf
        · exact (hapart fragment mem_cons_self).part
            (by show len + (fragment.len - len) ≤ fragment.len; omega)
        · exact hrest f hf

theorem headerLoop_shrinks
    (hlen : fragment.len < len) :
    (headerLoop mem header len copied num (fragment :: fragments)).rest.length ≤
      fragments.length := by
  have hrest : ∀ {mem : Memory} {header len copied num : Nat} (fragments : List NetFragment),
      (headerLoop mem header len copied num fragments).rest.length ≤ fragments.length := by
    intro mem header len copied num fragments
    induction fragments generalizing mem header len copied num with
    | nil => exact Nat.le_refl 0
    | cons fragment fragments ih =>
        rw [headerLoop]
        by_cases hwhole : fragment.len ≤ len
        · rw [if_pos hwhole]
          by_cases hdone : len - fragment.len = 0
          · simp only [if_pos hdone]
            exact Nat.le_succ _
          · simp only [if_neg hdone]
            exact ih.trans (Nat.le_succ _)
        · rw [if_neg hwhole]
          exact Nat.le_refl _
  rw [headerLoop, if_pos (Nat.le_of_lt hlen)]
  by_cases hdone : len - fragment.len = 0
  · simp only [if_pos hdone]
    exact Nat.le_refl _
  · simp only [if_neg hdone]
    exact hrest fragments

/-- The number of the blocks that `NetbufFromExt` adds in front. -/
def extraNum (headSpace headLen : Nat) : Nat :=
  if headSpace ≠ 0 ∨ headLen ≠ 0 then 1 else 0

theorem pullHeader_spec
    (mem : Memory)
    (hapart : FragmentsApart fragments bulk (headLen + headSpace))
    (hlt : headLen < 2 ^ 32)
    (hcount : fragments.length < 2 ^ 32) :
    HeaderPulled mem fragments (bulk + headSpace) headLen 0
        ((fragments.length + extraNum headSpace headLen) % 2 ^ 32)
        (pullHeader mem fragments headSpace headLen bulk) ∧
      FragmentsApart (pullHeader mem fragments headSpace headLen bulk).rest bulk
        (headLen + headSpace) := by
  have hnum : (if headSpace ≠ 0 ∨ headLen ≠ 0 then add32 fragments.length 1
      else fragments.length) = (fragments.length + extraNum headSpace headLen) % 2 ^ 32 := by
    rw [extraNum]
    by_cases h : headSpace ≠ 0 ∨ headLen ≠ 0
    · rw [if_pos h, if_pos h, add32]
    · rw [if_neg h, if_neg h, Nat.add_zero, Nat.mod_eq_of_lt hcount]
  have hnumLt : (fragments.length + extraNum headSpace headLen) % 2 ^ 32 < 2 ^ 32 :=
    Nat.mod_lt _ (Nat.two_pow_pos 32)
  rw [pullHeader, hnum]
  by_cases h : headLen ≠ 0
  · simp only [if_pos h]
    have hheader : FragmentsApart fragments (bulk + headSpace) headLen :=
      hapart.shrink (by omega)
    exact ⟨headerLoop_spec mem hheader (by omega) hnumLt, headerLoop_apart hapart⟩
  · simp only [if_neg h]
    rw [not_not.mp h] at hnumLt hapart ⊢
    exact ⟨headerPulled_none hnumLt, hapart⟩

/-- The number of the blocks to allocate is that of the blocks to set. -/
theorem pullHeader_blockNum
    (hpulled : HeaderPulled mem (first :: more) (bulk + headSpace) headLen 0
      (((first :: more).length + extraNum headSpace headLen) % 2 ^ 32)
      (pullHeader mem (first :: more) headSpace headLen bulk))
    (hfirst : headLen ≠ 0 → first.len < headLen)
    (hcount : (first :: more).length < 2 ^ 32)
    (hextra : headSpace ≠ 0 → headLen = 0 → (first :: more).length + 1 < 2 ^ 32) :
    (pullHeader mem (first :: more) headSpace headLen bulk).blockNum =
        extraNum headSpace headLen +
          (pullHeader mem (first :: more) headSpace headLen bulk).rest.length ∧
      0 < (pullHeader mem (first :: more) headSpace headLen bulk).blockNum ∧
      (pullHeader mem (first :: more) headSpace headLen bulk).blockNum < 2 ^ 32 := by
  have hlength := hpulled.rest_length
  have hnum := hpulled.blockNum_eq
  have hlt := hpulled.blockNum_lt
  rw [← and_assoc]
  refine ⟨?_, hlt⟩
  by_cases h : headLen ≠ 0
  · have hshrinks : (pullHeader mem (first :: more) headSpace headLen bulk).rest.length ≤
        more.length := by
      simp only [pullHeader, if_pos h]
      exact headerLoop_shrinks (hfirst h)
    have hone : extraNum headSpace headLen = 1 := if_pos (Or.inr h)
    rw [length_cons] at hcount hlength hnum
    omega
  · by_cases hspace : headSpace ≠ 0
    · have hone : extraNum headSpace headLen = 1 := if_pos (Or.inl hspace)
      have hroom := hextra hspace (not_not.mp h)
      omega
    · have hzero : extraNum headSpace headLen = 0 := if_neg (not_or.mpr ⟨hspace, h⟩)
      have hall : (pullHeader mem (first :: more) headSpace headLen bulk).rest =
          first :: more := by
        simp only [pullHeader, if_neg h]
      rw [hall] at hnum ⊢
      rw [length_cons] at *
      omega

/-- What `NetbufFromExt` asks of its arguments: some fragments, whose total size and number
of blocks are `UINT32`, a free function, and a first block whose length is a `UINT32`. -/
structure FromExtMeets (fragments : List NetFragment) (headSpace headLen : Nat)
    (extFree : Bool) : Prop where
  nonempty : fragments ≠ []
  free : extFree = true
  sum : lenSum fragments < 2 ^ 32
  count : fragments.length < 2 ^ 32
  firstBlock : pulledLen fragments headLen + headSpace < 2 ^ 32
  extra : headSpace ≠ 0 → pulledLen fragments headLen = 0 → fragments.length + 1 < 2 ^ 32

theorem pulledLen_lt
    (hpulled : pulledLen (first :: more) headLen ≠ 0) :
    first.len < pulledLen (first :: more) headLen := by
  rw [pulledLen] at hpulled ⊢
  by_cases hnone : headLen ≤ first.len ∨ more = []
  · rw [if_pos hnone] at hpulled
    exact absurd rfl hpulled
  · rw [if_neg hnone]
    omega

/-- The blocks hold the header, which has been copied, and the rest of the fragments. -/
theorem extBlocks_spec
    {header : HeaderCopy}
    (hpulled : HeaderPulled mem fragments (bulk + headSpace) headLen 0 num header)
    (hapart : FragmentsApart header.rest bulk (headLen + headSpace))
    (hfirst : headLen + headSpace < 2 ^ 32) :
    (∀ op ∈ extBlocks headSpace headLen bulk header, BlockOk op) ∧
      (extBlocks headSpace headLen bulk header).length =
        extraNum headSpace headLen + header.rest.length ∧
      sizeSum (extBlocks headSpace headLen bulk header) = lenSum fragments ∧
      blockBytes header.mem (extBlocks headSpace headLen bulk header) =
        fragmentBytes mem fragments := by
  obtain ⟨hwritten, hcopied, hbytes, hrestSum, -, -, -⟩ := hpulled
  have htaken : ((fragmentBytes mem fragments).take headLen).length = header.copied := by
    rw [length_take, length_fragmentBytes, hcopied, Nat.zero_add]
  have hcontent := hwritten.content
  rw [htaken] at hcontent
  have hrest : fragmentBytes header.mem header.rest = (fragmentBytes mem fragments).drop headLen := by
    rw [← hbytes mem]
    refine FragmentsApart.bytes_eq hapart fun addr hout => hwritten.frame addr ?_
    rw [htaken]
    omega
  have hblocks : ∀ op ∈ header.rest.map (fun f => netbufSetBlockOp f.bulk f.len), BlockOk op := by
    intro op hop
    obtain ⟨f, -, rfl⟩ := mem_map.mp hop
    exact blockOk_set _ _
  rw [extBlocks]
  by_cases h : headSpace ≠ 0 ∨ headLen ≠ 0
  · have hlen : firstBlockLen headSpace headLen ≠ 0 := by
      rw [firstBlockLen, if_pos h, add32_eq hfirst]
      omega
    have hone : extraNum headSpace headLen = 1 := if_pos h
    rw [if_pos hlen, hone, singleton_append]
    refine ⟨?_, ?_, ?_, ?_⟩
    case refine_1 =>
      intro op hop
      rcases mem_cons.mp hop with rfl | hop
      · exact blockOk_reserved bulk headSpace header.copied
      · exact hblocks op hop
    case refine_2 => rw [length_cons, length_map, Nat.add_comm]
    case refine_3 =>
      rw [sizeSum_cons, sizeSum_fragments, hrestSum]
      show header.copied + _ = _
      omega
    case refine_4 =>
      have hhead : (reservedBlock bulk headSpace header.copied).bytes header.mem =
          (fragmentBytes mem fragments).take headLen := hcontent
      rw [blockBytes_cons, blockBytes_fragments, hhead, hrest, take_append_drop]
  · have hlen : ¬ firstBlockLen headSpace headLen ≠ 0 := by
      rw [firstBlockLen, if_neg h]
      exact not_not.mpr rfl
    have hzero : extraNum headSpace headLen = 0 := if_neg h
    have hnone : headLen = 0 := by omega
    rw [if_neg hlen, hzero, nil_append]
    refine ⟨hblocks, ?_, ?_, ?_⟩
    case refine_1 => rw [length_map, Nat.zero_add]
    case refine_2 => rw [sizeSum_fragments, hrestSum, hnone, Nat.sub_zero]
    case refine_3 => rw [blockBytes_fragments, hrest, hnone, drop_zero]

/-- `NetbufFromExt` builds the concatenation of the fragments, and writes only to the block
that it has allocated. -/
theorem netbufFromExt_spec
    (mem : Memory)
    (hmeets : FromExtMeets fragments headSpace headLen extFree)
    (hapart : FragmentsApart fragments bulk (pulledLen fragments headLen + headSpace)) :
    ∃ mem' nbuf, netbufFromExt mem fragments headSpace headLen extFree bulk = some (mem', nbuf) ∧
      NetBufOk nbuf ∧ nbuf.bytes mem' = fragmentBytes mem fragments ∧
      ∀ addr, addr < bulk ∨ bulk + (pulledLen fragments headLen + headSpace) ≤ addr →
        mem' addr = mem addr := by
  obtain ⟨hne, hfree, hsum, hcount, hfirst, hextra⟩ := hmeets
  cases fragments with
  | nil => exact absurd rfl hne
  | cons first more =>
      have hguard : ¬ (first :: more = [] ∨ extFree = false) := by
        rw [hfree]
        exact not_or.mpr ⟨hne, Bool.false_ne_true.symm⟩
      have hlong : pulledLen (first :: more) headLen ≠ 0 →
          first.len < pulledLen (first :: more) headLen := pulledLen_lt
      rw [netbufFromExt, if_neg hguard]
      simp only
      generalize pulledLen (first :: more) headLen = pulled at *
      obtain ⟨hpulled, hrest⟩ := pullHeader_spec mem hapart (by omega) hcount
      obtain ⟨hblockNum, hblockPos, hblockLt⟩ := pullHeader_blockNum hpulled hlong hcount hextra
      obtain ⟨hblocks, hlength, hsize, hbytes⟩ := extBlocks_spec hpulled hrest hfirst
      generalize pullHeader mem (first :: more) headSpace pulled bulk = header at *
      generalize extBlocks headSpace pulled bulk header = ops at *
      have hcopied := hpulled.copied_eq
      have hrestSum := hpulled.rest_sum
      have htotal : header.rest.foldl (fun total fragment => add32 total fragment.len)
          header.copied = lenSum (first :: more) := by
        rw [foldl_len (by omega), hcopied, hrestSum]
        omega
      have hfits : ¬ (header.copied ≠ 0 ∧
          firstBlockLen headSpace pulled < headSpace + header.copied) := by
        rw [hcopied, firstBlockLen, add32_eq hfirst]
        by_cases h : headSpace ≠ 0 ∨ pulled ≠ 0
        · rw [if_pos h]
          omega
        · omega
      have hnonempty : ops ≠ [] := ne_nil_of_length_pos (by omega)
      rw [if_neg hfits, htotal, netbufAllocStruct_spec (hblockNum.trans hlength.symm) hnonempty]
      refine ⟨_, _, rfl, ⟨hsize.symm, hsum, hblocks, hnonempty, ?_⟩, hbytes, ?_⟩
      case refine_1 =>
        show ops.length < 2 ^ 32
        omega
      case refine_2 =>
        intro addr hout
        refine hpulled.written.frame addr ?_
        rw [length_take]
        omega

end FromExt

section BufList

variable {ops : List BlockOp} {bufList : List NetBuf} {extNum headerLen : Nat}

theorem fragmentBytes_blocks :
    fragmentBytes mem ((ops.filter fun op => op.size ≠ 0).map fun op => ⟨op.head, op.size⟩) =
      blockBytes mem ops := by
  induction ops with
  | nil => rfl
  | cons op ops ih =>
      rw [blockBytes_cons]
      by_cases hempty : op.size = 0
      · have hnil : op.bytes mem = [] := eq_nil_of_length_eq_zero (by
          rw [op.length_bytes, hempty])
        rw [filter_cons_of_neg (by simpa using hempty), ih, hnil, nil_append]
      · rw [filter_cons_of_pos (by simpa using hempty), map_cons, fragmentBytes_cons, ih]
        rfl

theorem fragmentBytes_fragmentsOf : fragmentBytes mem (fragmentsOf nbuf) = nbuf.bytes mem :=
  fragmentBytes_blocks

theorem fragmentBytes_bufList :
    fragmentBytes mem (bufList.flatMap fragmentsOf) = bufList.flatMap (NetBuf.bytes mem) := by
  induction bufList with
  | nil => rfl
  | cons nbuf bufList ih =>
      rw [flatMap_cons, flatMap_cons, ← ih, ← fragmentBytes_fragmentsOf]
      exact flatMap_append

/-- The number of the blocks of some buffers. -/
def blockSum (bufList : List NetBuf) : Nat :=
  (bufList.map fun nbuf => nbuf.blockOp.length).sum

theorem foldl_blocks
    (hlt : num + blockSum bufList < 2 ^ 32) :
    bufList.foldl (fun num nbuf => add32 num nbuf.blockOp.length) num = num + blockSum bufList := by
  induction bufList generalizing num with
  | nil => rfl
  | cons nbuf bufList ih =>
      rw [blockSum, map_cons, sum_cons, ← blockSum] at hlt ⊢
      rw [foldl_cons, add32_eq (by omega), ih (by omega), Nat.add_assoc]

theorem length_fragments_le : (bufList.flatMap fragmentsOf).length ≤ blockSum bufList := by
  induction bufList with
  | nil => exact Nat.le_refl 0
  | cons nbuf bufList ih =>
      have hle : (fragmentsOf nbuf).length ≤ nbuf.blockOp.length := by
        rw [fragmentsOf, length_map]
        exact length_filter_le _ _
      rw [flatMap_cons, length_append, blockSum, map_cons, sum_cons,
        ← blockSum]
      omega

theorem netbufFromBufList_spec
    (mem : Memory)
    (hblocks : blockSum bufList < 2 ^ 32)
    (hmeets : FromExtMeets (bufList.flatMap fragmentsOf) headSpace headerLen extFree)
    (hapart : FragmentsApart (bufList.flatMap fragmentsOf) bulk
      (pulledLen (bufList.flatMap fragmentsOf) headerLen + headSpace)) :
    ∃ mem' nbuf, netbufFromBufList mem bufList headSpace headerLen extFree bulk =
        some (mem', nbuf) ∧
      NetBufOk nbuf ∧ nbuf.bytes mem' = bufList.flatMap (NetBuf.bytes mem) ∧
      ∀ addr, addr < bulk ∨
          bulk + (pulledLen (bufList.flatMap fragmentsOf) headerLen + headSpace) ≤ addr →
        mem' addr = mem addr := by
  have hnum := foldl_blocks ((Nat.zero_add (blockSum bufList)).trans_lt hblocks)
  rw [netbufFromBufList, hnum, Nat.zero_add]
  rw [if_pos length_fragments_le, ← fragmentBytes_bufList]
  exact netbufFromExt_spec mem hmeets hapart

end BufList

section Duplicate

variable {op : BlockOp} {duplicate : NetBuf}

theorem netbufAlloc_spec
    (bulk : Nat)
    (hpos : 0 < len) :
    ∃ nbuf, netbufAlloc len bulk = some nbuf ∧ NetBufOk nbuf ∧ nbuf.totalSize = 0 := by
  rw [netbufAlloc, if_pos hpos]
  refine ⟨_, rfl, ⟨rfl, Nat.two_pow_pos 32, ?_, cons_ne_nil _ _, ?_⟩, rfl⟩
  case refine_1 =>
    intro op hop
    rw [mem_singleton.mp hop]
    exact ⟨Nat.le_refl bulk, rfl, Nat.le_add_right bulk len⟩
  case refine_2 => exact Nat.one_lt_two_pow (Nat.succ_ne_zero 31)

/-- What `NetbufReserve` asserts: an empty buffer of one block that is not external, with
room for the head space. -/
def ReserveMeets (nbuf : NetBuf) (len : Nat) : Prop :=
  nbuf.totalSize = 0 ∧ nbuf.vector.free = false ∧ len ≤ nbuf.vector.len ∧
    ∃ op, nbuf.blockOp = [op] ∧ op.tail + len ≤ op.blockTail

theorem netbufReserve_spec
    (hok : NetBufOk nbuf)
    (hmeets : ReserveMeets nbuf len) :
    ∃ op nbuf', nbuf.blockOp = [op] ∧ netbufReserve nbuf len = some nbuf' ∧ NetBufOk nbuf' ∧
      nbuf'.totalSize = 0 ∧
      nbuf'.blockOp = [{ op with head := op.head + len, tail := op.tail + len }] := by
  obtain ⟨hempty, hfree, hlen, op, hop, hroom⟩ := hmeets
  have hblock := hok.blocks op (by rw [hop]; exact mem_singleton_self op)
  have hhead := hblock.head
  have htail := hblock.tail_eq
  have htotal := hok.totalSize_eq
  have hsize : op.size = 0 := by
    rw [hop, sizeSum_cons] at htotal
    omega
  refine ⟨op, { nbuf with
      blockOp := [{ op with head := op.head + len, tail := op.tail + len }] },
    hop, ?_, ⟨?_, hok.totalSize_lt, ?_, cons_ne_nil _ _, ?_⟩, hempty, rfl⟩
  case refine_1 => rw [netbufReserve, hop]; exact if_pos ⟨hempty, hfree, hlen, hroom⟩
  case refine_2 => rw [sizeSum_cons, sizeSum_nil]; show nbuf.totalSize = op.size + 0; omega
  case refine_3 =>
    intro o ho
    rw [mem_singleton.mp ho]
    refine ⟨?_, ?_, hroom⟩
    case refine_1 => show op.blockHead ≤ op.head + len; omega
    case refine_2 => show op.tail + len = op.head + len + op.size; omega
  case refine_4 => exact Nat.one_lt_two_pow (Nat.succ_ne_zero 31)

theorem duplicate_space
    (headSpace len : Nat)
    (hok : NetBufOk duplicate)
    (hmeets : ReserveMeets duplicate headSpace)
    (hop : duplicate.blockOp = [op])
    (hroom : op.tail + headSpace + len ≤ op.blockTail)
    (hpos : 0 < len)
    (hlt : len < 2 ^ 32) :
    ∃ reserved duplicate', netbufReserve duplicate headSpace = some reserved ∧
      netbufAllocSpace reserved len false = some (duplicate', some (op.tail + headSpace)) ∧
      NetBufOk duplicate' ∧
      ∀ mem, duplicate'.bytes mem = peek mem (op.tail + headSpace) len := by
  obtain ⟨op', reserved, hop', hreserve, hreservedOk, hempty, hblocks⟩ :=
    netbufReserve_spec hok hmeets
  rw [hop] at hop'
  cases hop'
  have hindex : allocIndex reserved len false = some 0 := by
    rw [allocIndex, if_pos hempty]
  obtain ⟨duplicate', space, halloc, hok', hcases⟩ :=
    netbufAllocSpace_spec hreservedOk hpos
      (Or.inl (by omega) : _ ∨ NoRoom reserved len false)
  rcases hcases with ⟨-, -, index, op', hindex', hfound, hshort⟩ | ⟨addr, rfl, -, hbytes⟩
  · rw [hindex] at hindex'
    cases hindex'
    rw [hblocks] at hfound
    cases hfound
    have hspace : op.blockTail - (op.tail + headSpace) < len := hshort
    omega
  · have haddr : addr = op.tail + headSpace := by
      rw [netbufAllocSpace, if_pos hpos, hindex] at halloc
      simp only [Option.bind_eq_bind, Option.bind_some, hblocks, getElem?_cons_zero] at halloc
      have henough : ¬ room { op with head := op.head + headSpace, tail := op.tail + headSpace }
          false < len := by
        show ¬ op.blockTail - (op.tail + headSpace) < len
        omega
      rw [if_neg henough] at halloc
      simp only [Option.some.injEq, Prod.mk.injEq] at halloc
      exact halloc.2.symm
    rw [haddr] at halloc hbytes
    refine ⟨reserved, duplicate', hreserve, halloc, hok', fun mem => ?_⟩
    have hnil : reserved.bytes mem = [] := by
      refine eq_nil_of_length_eq_zero ?_
      rw [hreservedOk.length_bytes, hempty]
    rw [hbytes mem, hnil]
    rfl

/-- The address that `NetbufDuplicate` copies to. -/
def duplicateDest (duplicate : Option NetBuf) (headSpace bulk : Nat) : Nat :=
  match duplicate with
  | none => bulk + headSpace
  | some duplicate => (duplicate.blockOp.map BlockOp.tail).headD 0 + headSpace

/-- What `NetbufDuplicate` asks of its arguments: some data, and either a total size that is
a `UINT32` or a given buffer that is empty and has the room. -/
def DuplicateMeets (nbuf : NetBuf) (duplicate : Option NetBuf) (headSpace bulk : Nat) : Prop :=
  nbuf.totalSize ≠ 0 ∧ duplicateDest duplicate headSpace bulk ≠ 0 ∧
    match duplicate with
    | none => nbuf.totalSize + headSpace < 2 ^ 32
    | some duplicate =>
        ReserveMeets duplicate headSpace ∧
          ∃ op, duplicate.blockOp = [op] ∧ op.tail + headSpace + nbuf.totalSize ≤ op.blockTail

/-- Up to the copy, `NetbufDuplicate` makes a buffer with room for the data. -/
theorem netbufDuplicate_eq
    {duplicate : Option NetBuf}
    (hok : NetBufOk nbuf)
    (hduplicate : ∀ d, duplicate = some d → NetBufOk d)
    (hmeets : DuplicateMeets nbuf duplicate headSpace bulk) :
    ∃ duplicate', NetBufOk duplicate' ∧
      (∀ mem, duplicate'.bytes mem =
        peek mem (duplicateDest duplicate headSpace bulk) nbuf.totalSize) ∧
      ∀ mem, netbufDuplicate mem nbuf duplicate headSpace bulk =
        (netbufCopy mem nbuf 0 nbuf.totalSize (duplicateDest duplicate headSpace bulk)).map
          fun result => (result.1, duplicate') := by
  obtain ⟨hne, -, hmeets⟩ := hmeets
  have h32 := hok.totalSize_lt
  cases duplicate with
  | none =>
      have hlt : nbuf.totalSize + headSpace < 2 ^ 32 := hmeets
      obtain ⟨new, halloc, hnewOk, hnew⟩ :=
        netbufAlloc_spec bulk (by omega : 0 < nbuf.totalSize + headSpace)
      have hshape := halloc
      rw [netbufAlloc, if_pos (by omega)] at hshape
      cases hshape
      obtain ⟨reserved, duplicate', hreserve, hspace, hok', hbytes⟩ :=
        duplicate_space headSpace nbuf.totalSize hnewOk
          ⟨hnew, rfl, by show headSpace ≤ nbuf.totalSize + headSpace; omega, _, rfl, by
            show bulk + headSpace ≤ bulk + (nbuf.totalSize + headSpace)
            omega⟩ rfl
          (by show bulk + headSpace + nbuf.totalSize ≤ bulk + (nbuf.totalSize + headSpace); omega)
          (by omega) h32
      refine ⟨duplicate', hok', hbytes, fun mem => ?_⟩
      rw [netbufDuplicate]
      simp only [Option.orElse_none, add32_eq hlt, halloc, Option.bind_eq_bind, Option.bind_some,
        hreserve, hspace]
      exact Option.map_eq_bind.symm
  | some duplicate =>
      obtain ⟨hreserveMeets, op, hop, hroom⟩ := hmeets
      obtain ⟨reserved, duplicate', hreserve, hspace, hok', hbytes⟩ :=
        duplicate_space headSpace nbuf.totalSize (hduplicate duplicate rfl) hreserveMeets hop hroom
          (by omega) h32
      have hdest : duplicateDest (some duplicate) headSpace bulk = op.tail + headSpace := by
        rw [duplicateDest, hop]
        rfl
      rw [hdest]
      refine ⟨duplicate', hok', hbytes, fun mem => ?_⟩
      rw [netbufDuplicate]
      simp only [Option.orElse_some, Option.bind_eq_bind, Option.bind_some, hreserve, hspace]
      exact Option.map_eq_bind.symm

theorem netbufDuplicate_spec
    {duplicate : Option NetBuf}
    (mem : Memory)
    (hok : NetBufOk nbuf)
    (hduplicate : ∀ d, duplicate = some d → NetBufOk d)
    (hmeets : DuplicateMeets nbuf duplicate headSpace bulk)
    (hapart : BlocksApart nbuf.blockOp (duplicateDest duplicate headSpace bulk) nbuf.totalSize) :
    ∃ mem' duplicate', netbufDuplicate mem nbuf duplicate headSpace bulk =
        some (mem', duplicate') ∧
      NetBufOk duplicate' ∧ duplicate'.bytes mem' = nbuf.bytes mem ∧
      Written mem mem' (duplicateDest duplicate headSpace bulk) (nbuf.bytes mem) := by
  obtain ⟨duplicate', hok', hbytes, hcall⟩ := netbufDuplicate_eq hok hduplicate hmeets
  have hlength : (nbuf.bytes mem).length = nbuf.totalSize := hok.length_bytes
  obtain ⟨mem', hcopy, hwritten⟩ :=
    netbufCopy_spec mem 0 nbuf.totalSize hok hmeets.2.1
      (by rw [Nat.sub_zero, Nat.min_self]; exact hapart)
  rw [drop_zero, take_of_length_le (by omega)] at hwritten
  refine ⟨mem', duplicate', ?_, hok', ?_, hwritten⟩
  case refine_1 => rw [hcall, hcopy]; rfl
  case refine_2 => rw [hbytes, ← hlength]; exact hwritten.content

end Duplicate

end NetLib
end Udk
