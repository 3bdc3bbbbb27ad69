import Udk.Ip6.Ip6Input
import Udk.Extents

/-!
# One entry of the IPv6 assemble table

A fragment that overlaps no queued one in part is inserted whole, and the queued ones that
it covers are freed.  The buffers that are queued and those that have been freed are then
those that have arrived, each of them once.
-/

namespace Udk
namespace Ip6

open NetLib Extent Extents List

instance : Extent Packet where
  first packet := packet.info.start
  stop packet := packet.info.end_

variable {packet packet' node prev : Packet} {fragments received before after rest : List Packet}
  {entry entry' : AssembleEntry} {alloc : Allocations} {freed : List Nat} {curLen : Nat}

theorem first_eq : first packet = packet.info.start := rfl

theorem stop_eq : stop packet = packet.info.end_ := rfl

section Fragments

/-- A fragment: the unfragmentable part, the fragment header, and some data. -/
structure FragmentOk (packet : Packet) : Prop where
  low : 0 ≤ packet.info.start
  lt : packet.info.start < packet.info.end_
  high : packet.info.end_ < 2 ^ 31
  length_eq : packet.info.length = packet.info.end_ - packet.info.start
  headLen : sizeOfIp6Header ≤ packet.info.headLen
  headLen_lt : packet.info.headLen < 2 ^ 16
  size : (packet.data.length : Int) =
    packet.info.headLen + sizeOfIp6FragmentHeader + packet.info.length

/-- The data behind the fragment header. -/
def fragmentData (packet : Packet) : List UInt8 :=
  packet.data.drop (packet.info.headLen + sizeOfIp6FragmentHeader)

/-- A queued fragment is one that has been received, up to the next header of the first
one. -/
def Stored (received : List Packet) (packet : Packet) : Prop :=
  ∃ r ∈ received, packet = r ∨ (r.info.start = 0 ∧ setNextHeader r = some (some packet))

/-- The books of an entry between two calls. -/
structure EntryOk (received : List Packet) (entry : AssembleEntry) : Prop where
  fragment : ∀ node ∈ entry.fragments, FragmentOk node
  stored : ∀ node ∈ entry.fragments, Stored received node
  ordered : Ordered entry.fragments
  curLen_eq : (entry.curLen : Int) = total entry.fragments
  noHead : entry.head = none → ∀ node ∈ entry.fragments, node.info.start ≠ 0
  head : ∀ buffer, entry.head = some buffer →
    ∃ node ∈ entry.fragments, node.info.start = 0 ∧ node.buffer = buffer
  packet_eq : entry.packet.isSome = entry.head.isSome
  nodup : (entry.fragments.map Packet.buffer).Nodup

theorem FragmentOk.length_pos
    (h : FragmentOk packet) :
    0 < packet.info.length := by
  have hlt := h.lt
  rw [h.length_eq]
  omega

theorem FragmentOk.data_ne_nil
    (h : FragmentOk packet) :
    packet.data ≠ [] := by
  intro hnil
  have hsize := h.size
  have hpos := h.length_pos
  rw [hnil, length_nil] at hsize
  omega

theorem total_lt
    (hfragment : ∀ node ∈ fragments, FragmentOk node)
    (hordered : Ordered fragments) :
    0 ≤ total fragments ∧ total fragments < 2 ^ 31 := by
  have hwithin : Within 0 (2 ^ 31 - 1) fragments := by
    intro node hnode
    have hhigh := (hfragment node hnode).high
    rw [first_eq, stop_eq]
    exact ⟨(hfragment node hnode).low, by omega⟩
  have hle := hordered.total_le hwithin (by norm_num)
  constructor
  · refine sum_nonneg fun x hx => ?_
    obtain ⟨node, hnode, rfl⟩ := mem_map.mp hx
    have hlt := (hfragment node hnode).lt
    rw [first_eq, stop_eq]
    omega
  · omega

theorem addLen_eq
    {length : Int}
    (hlength : 0 ≤ length)
    (hsum : (curLen : Int) + length < 2 ^ 32) :
    (addLen curLen length : Int) = curLen + length := by
  rw [addLen, toUint32_of_range hlength (by omega), Nat.mod_eq_of_lt (by omega)]
  omega

theorem subLen_eq
    {length : Int}
    (hlength : 0 ≤ length)
    (hle : length ≤ curLen)
    (hcurLen : curLen < 2 ^ 32) :
    (subLen curLen length : Int) = curLen - length := by
  rw [subLen, toUint32_of_range hlength (by omega)]
  have hrewrite : curLen + 2 ^ 32 - length.toNat = curLen - length.toNat + 2 ^ 32 := by omega
  rw [hrewrite, Nat.add_mod_right, Nat.mod_eq_of_lt (by omega)]
  omega

end Fragments

section Condition

/-- The list with a fragment that is inserted whole. -/
def queuedWith (fragments : List Packet) (packet : Packet) : List Packet :=
  inFront packet.info.start fragments ++ packet ::
    (behind packet.info.start fragments).filter fun node =>
      decide (packet.info.end_ < node.info.end_)

/-- The total length with a fragment. -/
def totalLenWith (totalLen : Nat) (packet : Packet) : Nat :=
  if packet.info.lastFrag = true ∧ totalLen = 0 then packet.info.end_.toNat else totalLen

/-- What a first fragment must be for its next header to be set. -/
structure FirstOk (packet : Packet) (alloc : Allocations) : Prop where
  duplicate : alloc.duplicate = true
  direct : packet.info.headLen = sizeOfIp6Header → packet.ip6.nextHeader = ip6Fragment
  former : packet.info.headLen ≠ sizeOfIp6Header →
    packet.info.formerNextHeader + sizeOfIp6Header <
      packet.info.headLen + sizeOfIp6FragmentHeader

/-- What the fragments must be when the one that arrives completes the packet. -/
structure CompleteOk (fragments : List Packet) (totalLen : Nat) (alloc : Allocations) :
    Prop where
  last : ∀ last, fragments.getLast? = some last → last.info.end_ = totalLen
  headLen : ∀ a ∈ fragments, ∀ b ∈ fragments, a.info.headLen = b.info.headLen
  unfragment : alloc.unfragment = true
  wrap : alloc.wrap = true

/-- The fragment overlaps no queued one in part; a first fragment allows its next header to
be set; and if it completes the packet, the packet is well formed. -/
structure StepOk (entry : AssembleEntry) (packet : Packet) (alloc : Allocations) : Prop where
  prev : ∀ prev, (inFront packet.info.start entry.fragments).getLast? = some prev →
    packet.info.start < prev.info.end_ → packet.info.end_ ≤ prev.info.end_
  inside : ∀ node ∈ entry.fragments, packet.info.start < node.info.start →
    node.info.start < packet.info.end_ → node.info.end_ ≤ packet.info.end_
  first : packet.info.start = 0 → (∀ node ∈ entry.fragments, node.info.start ≠ 0) →
    FirstOk packet alloc
  complete : (∀ node ∈ entry.fragments, node.info.start ≤ packet.info.start →
      node.info.end_ ≤ packet.info.start) →
    totalLenWith entry.totalLen packet ≠ 0 →
    (totalLenWith entry.totalLen packet : Int) ≤ total (queuedWith entry.fragments packet) →
    CompleteOk (queuedWith entry.fragments packet) (totalLenWith entry.totalLen packet) alloc

end Condition

section Insert

theorem trimPrev_spec
    (hordered : Ordered fragments)
    (hbefore : before = inFront packet.info.start fragments)
    (hprev : ∀ prev, before.getLast? = some prev →
      packet.info.start < prev.info.end_ → packet.info.end_ ≤ prev.info.end_) :
    (trimPrev packet before = some none ∧ ∃ prev ∈ before, prev.info.start ≤ packet.info.start ∧
        packet.info.start < prev.info.end_ ∧ packet.info.end_ ≤ prev.info.end_) ∨
      (trimPrev packet before = some (some before) ∧
        ∀ node ∈ before, node.info.end_ ≤ packet.info.start) := by
  cases hlast : before.getLast? with
  | none =>
      refine Or.inr ⟨?_, ?_⟩
      · unfold trimPrev
        rw [hlast]
      · rw [getLast?_eq_none_iff.mp hlast]
        exact fun node hnode => absurd hnode not_mem_nil
  | some prev =>
      have hmem : prev ∈ before := mem_of_getLast? hlast
      by_cases hoverlap : packet.info.start < prev.info.end_
      · have hcovered := hprev prev hlast hoverlap
        refine Or.inl ⟨?_, prev, hmem, ?_, hoverlap, hcovered⟩
        · simp only [trimPrev, hlast, if_pos hoverlap, if_pos hcovered]
        · rw [hbefore] at hmem
          exact mem_inFront hmem
      · refine Or.inr ⟨?_, fun node hnode => ?_⟩
        · simp only [trimPrev, hlast, if_neg hoverlap]
        · rw [hbefore] at hnode hlast
          refine hordered.stop_inFront (le_refl _) (fun p hp => ?_) hnode
          rw [hlast, Option.some_inj] at hp
          rw [← hp]
          exact not_lt.mp hoverlap

/-- The loop over the fragments behind the insert point frees those that the packet
covers. -/
theorem scanBehind_spec
    (hordered : Ordered after)
    (hfragment : ∀ node ∈ after, FragmentOk node)
    (hinside : ∀ node ∈ after, node.info.start < packet.info.end_ →
      node.info.end_ ≤ packet.info.end_)
    (hcurLen : total after ≤ curLen)
    (hsmall : curLen < 2 ^ 32) :
    ∃ (covered rest : List Packet) (curLen' : Nat), after = covered ++ rest ∧
      rest = (after.filter fun node => decide (packet.info.end_ < node.info.end_)) ∧
      (∀ node ∈ rest, packet.info.end_ ≤ node.info.start) ∧
      (curLen' : Int) = curLen - total covered ∧
      scanBehind packet after curLen freed =
        some ⟨some packet, rest, curLen', (covered.map Packet.buffer).reverse ++ freed⟩ := by
  induction after generalizing curLen freed with
  | nil =>
      refine ⟨[], [], curLen, rfl, rfl, ?_, ?_, rfl⟩
      · exact fun node hnode => absurd hnode not_mem_nil
      · rw [total_nil, sub_zero]
  | cons node after ih =>
      obtain ⟨hnode, hbehind, hrest⟩ := ordered_cons.mp hordered
      have hlength := (hfragment node mem_cons_self).length_eq
      have hpos := (hfragment node mem_cons_self).length_pos
      rw [total_cons, first_eq, stop_eq] at hcurLen
      have htail := (total_lt (fun b hb => hfragment b (mem_cons_of_mem _ hb)) hrest).1
      rw [scanBehind]
      by_cases hcovered : node.info.end_ ≤ packet.info.end_
      · have hsub := @subLen_eq curLen node.info.length (le_of_lt hpos) (by omega) hsmall
        obtain ⟨covered, rest, curLen', hsplit, hfilter, hbeyond, hsum, heq⟩ :=
          @ih (node.buffer :: freed) (subLen curLen node.info.length) hrest
            (fun b hb => hfragment b (mem_cons_of_mem _ hb))
            (fun b hb => hinside b (mem_cons_of_mem _ hb)) (by omega) (by omega)
        refine ⟨node :: covered, rest, curLen', ?_, ?_, hbeyond, ?_, ?_⟩
        · rw [hsplit, cons_append]
        · rw [filter_cons, if_neg]
          · exact hfilter
          · exact fun hdecide => absurd (of_decide_eq_true hdecide) (not_lt.mpr hcovered)
        · rw [hsum, total_cons, first_eq, stop_eq]
          omega
        · rw [if_pos hcovered, heq, map_cons, reverse_cons, append_assoc]
          rfl
      · have hstart : packet.info.end_ ≤ node.info.start :=
          not_lt.mp fun hlt => hcovered (hinside node mem_cons_self hlt)
        have hbeyond : ∀ b ∈ node :: after, packet.info.end_ ≤ b.info.start := by
          refine forall_mem_cons.mpr ⟨hstart, fun b hb => ?_⟩
          have hab : node.info.end_ ≤ b.info.start := hbehind b hb
          omega
        refine ⟨[], node :: after, curLen, rfl, ?_, hbeyond, ?_, ?_⟩
        · refine (filter_eq_self.mpr fun b hb => decide_eq_true ?_).symm
          have hlow := hbeyond b hb
          have hlt := (hfragment b hb).lt
          omega
        · rw [total_nil, sub_zero]
        · rw [if_neg hcovered, if_neg (not_lt.mpr hstart)]
          rfl

end Insert

end Ip6
end Udk
