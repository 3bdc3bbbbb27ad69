import Udk.Ip6.AssembleEntry

/-!
# IPv6 reassembly of one fragment

What a fragment that overlaps no queued one in part does to its entry: it keeps the books
and the buffers, and the packet that is returned chains the data of the fragments.
-/

namespace Udk
namespace Ip6

open NetLib Extent Extents List

variable {packet packet' node : Packet} {fragments fragments' received before covered rest :
  List Packet} {entry entry' : AssembleEntry} {alloc : Allocations} {freed : List Nat}
  {curLen totalLen : Nat}

section First

/-- The packets differ in the bytes in front of the fragment data at most. -/
structure SameFragment (packet packet' : Packet) : Prop where
  info : packet'.info = packet.info
  buffer : packet'.buffer = packet.buffer
  length : packet'.data.length = packet.data.length
  fragmentData : fragmentData packet' = fragmentData packet

theorem SameFragment.refl : SameFragment packet packet :=
  ⟨rfl, rfl, rfl, rfl⟩

theorem SameFragment.fragmentOk
    (h : SameFragment packet packet')
    (hfragment : FragmentOk packet) :
    FragmentOk packet' := by
  obtain ⟨hlow, hlt, hhigh, hlength, hhead, hheadLt, hsize⟩ := hfragment
  refine ⟨?_, ?_, ?_, ?_, ?_, ?_, ?_⟩ <;> rw [h.info]
  · exact hlow
  · exact hlt
  · exact hhigh
  · exact hlength
  · exact hhead
  · exact hheadLt
  · rw [h.length]
    exact hsize

theorem setNextHeader_ok
    (h : FragmentOk packet)
    (hfirst : FirstOk packet alloc) :
    ∃ packet', setNextHeader packet = some (some packet') ∧ SameFragment packet packet' := by
  have hhead := h.headLen
  have hheadLt := h.headLen_lt
  have hsize := h.size
  have hpos := h.length_pos
  have h40 : sizeOfIp6Header = 40 := rfl
  have h8 : sizeOfIp6FragmentHeader = 8 := rfl
  unfold setNextHeader
  by_cases hdirect : packet.info.headLen = sizeOfIp6Header
  · have hzero : (packet.info.headLen + 2 ^ 16 - sizeOfIp6Header) % 2 ^ 16 = 0 := by
      rw [hdirect, Nat.add_sub_cancel_left, Nat.mod_self]
    rw [if_pos hzero, if_pos (hfirst.direct hdirect)]
    refine ⟨_, rfl, rfl, rfl, length_set, ?_⟩
    have hoffset : nextHeaderOffset < packet.info.headLen + sizeOfIp6FragmentHeader := by
      rw [hdirect]
      exact Nat.lt_of_sub_pos (Nat.succ_pos 41)
    exact drop_set_of_lt hoffset
  · have hformer := hfirst.former hdirect
    have hnonzero : ¬ (packet.info.headLen + 2 ^ 16 - sizeOfIp6Header) % 2 ^ 16 = 0 := by omega
    have hmod : (packet.info.formerNextHeader + sizeOfIp6Header) % 2 ^ 32 =
        packet.info.formerNextHeader + sizeOfIp6Header := Nat.mod_eq_of_lt (by omega)
    rw [if_neg hnonzero]
    simp only [hmod]
    rw [if_pos (by omega)]
    exact ⟨_, rfl, rfl, rfl, length_set, drop_set_of_lt hformer⟩

end First

section Deliver

/-- The packet that is returned: the unfragmentable part of the first fragment, and the
data of the fragments, which tile the payload. -/
structure Whole (received : List Packet) (whole : NewPacket) : Prop where
  stored : ∀ node ∈ whole.arg.fragments, FragmentOk node ∧ Stored received node
  tiles : Chained 0 whole.arg.fragments whole.arg.totalLen
  data_eq : ∃ first ∈ whole.arg.fragments, first.info.start = 0 ∧ whole.data =
    first.data.take first.info.headLen ++ whole.arg.fragments.flatMap fragmentData

theorem CompleteOk.congr
    (h : CompleteOk fragments totalLen alloc)
    (hsame : fragments'.map Packet.info = fragments.map Packet.info) :
    CompleteOk fragments' totalLen alloc where
  last last hlast := by
    have hmap := congrArg List.getLast? hsame
    rw [getLast?_map, getLast?_map, hlast, Option.map_some] at hmap
    obtain ⟨other, hother, hinfo⟩ := Option.map_eq_some_iff.mp hmap.symm
    rw [← hinfo]
    exact h.last other hother
  headLen a ha b hb := by
    have hmem : ∀ c ∈ fragments', ∃ d ∈ fragments, d.info = c.info := by
      intro c hc
      have hc' := mem_map_of_mem (f := Packet.info) hc
      rw [hsame] at hc'
      exact mem_map.mp hc'
    obtain ⟨a', ha', hinfoA⟩ := hmem a ha
    obtain ⟨b', hb', hinfoB⟩ := hmem b hb
    rw [← hinfoA, ← hinfoB]
    exact h.headLen a' ha' b' hb'
  unfragment := h.unfragment
  wrap := h.wrap

theorem total_congr
    (hsame : fragments'.map Packet.info = fragments.map Packet.info) :
    total fragments' = total fragments := by
  have hfactor : ∀ l : List Packet,
      total l = ((l.map Packet.info).map fun info => info.end_ - info.start).sum := by
    intro l
    rw [map_map]
    rfl
  rw [hfactor, hfactor, hsame]

theorem trimHeaders_ok
    {headLen : Nat}
    (hfragment : ∀ node ∈ fragments, FragmentOk node)
    (hheadLen : ∀ node ∈ fragments, node.info.headLen = headLen) :
    trimHeaders headLen fragments = some (fragments.map fragmentData) := by
  induction fragments with
  | nil => rfl
  | cons node rest ih =>
      have hnode := hfragment node mem_cons_self
      have hsize := hnode.size
      have hpos := hnode.length_pos
      have hhead := hheadLen node mem_cons_self
      have hshort : ¬ headLen + sizeOfIp6FragmentHeader > node.data.length := by omega
      have htrim : trimBytes node.data (headLen + sizeOfIp6FragmentHeader) true =
          some (fragmentData node) := by
        unfold trimBytes
        rw [if_neg hnode.data_ne_nil, if_neg hshort, fragmentData, hhead]
        rfl
      have hrest := ih (fun b hb => hfragment b (mem_cons_of_mem _ hb))
        (fun b hb => hheadLen b (mem_cons_of_mem _ hb))
      unfold trimHeaders at hrest ⊢
      rw [mapM_cons, htrim, hrest, map_cons]
      rfl

/-- The packet is delivered, or it is not complete yet. -/
theorem deliverPacket_ok
    (h : EntryOk received entry)
    (hcomplete : entry.totalLen ≠ 0 → entry.totalLen ≤ entry.curLen →
      CompleteOk entry.fragments entry.totalLen alloc) :
    deliverPacket entry packet alloc freed = some ⟨none, some entry, freed⟩ ∨
      ∃ whole, deliverPacket entry packet alloc freed = some ⟨some whole, none, freed⟩ ∧
        whole.arg = entry ∧ Whole received whole := by
  unfold deliverPacket
  by_cases hdone : entry.totalLen ≠ 0 ∧ entry.curLen ≥ entry.totalLen
  · refine Or.inr ?_
    have hok := hcomplete hdone.1 hdone.2
    have hcurLen := h.curLen_eq
    have hne : entry.fragments ≠ [] := by
      intro hnil
      rw [hnil, total_nil] at hcurLen
      have hpos := Nat.pos_of_ne_zero hdone.1
      omega
    have hlast : entry.fragments.getLast? = some (entry.fragments.getLast hne) :=
      getLast?_eq_some_getLast hne
    have hlastEnd := hok.last _ hlast
    have hwithin : Within 0 entry.totalLen entry.fragments := by
      intro node hnode
      refine ⟨(h.fragment node hnode).low, ?_⟩
      rcases eq_or_ne node (entry.fragments.getLast hne) with heq | hother
      · rw [stop_eq, heq, hlastEnd]
      · obtain ⟨l, hl⟩ : ∃ l, entry.fragments = l ++ [entry.fragments.getLast hne] :=
          ⟨_, (dropLast_append_getLast hne).symm⟩
        have hordered := h.ordered
        rw [hl] at hordered hnode
        rcases mem_append.mp hnode with hnode | hnode
        · have hbetween := (ordered_append.mp hordered).2.2 node hnode _ mem_cons_self
          have hlt := (h.fragment _ (getLast_mem hne)).lt
          rw [first_eq] at hbetween
          rw [← hlastEnd]
          omega
        · exact absurd (mem_singleton.mp hnode) hother
    have hchain : Chained 0 entry.fragments entry.totalLen :=
      h.ordered.chained hwithin (Int.natCast_nonneg _) (by omega)
    obtain ⟨fragment, tail, hcons⟩ := exists_cons_of_ne_nil hne
    have hmem : fragment ∈ entry.fragments := by
      rw [hcons]
      exact mem_cons_self
    have hstart : fragment.info.start = 0 := by
      rw [hcons] at hchain
      exact hchain.1
    -- the head is the fragment that starts at zero, which is the first one
    have hfind : entry.fragments.find? (fun node => decide (some node.buffer = entry.head)) =
        some fragment := by
      obtain ⟨buffer, hbuffer⟩ : ∃ buffer, entry.head = some buffer := by
        cases hhead : entry.head with
        | none => exact absurd hstart (h.noHead hhead fragment hmem)
        | some buffer => exact ⟨buffer, rfl⟩
      obtain ⟨first, hfirst, hzero, hsame⟩ := h.head buffer hbuffer
      have hfirstEq : first = fragment := by
        rw [hcons] at hfirst
        rcases mem_cons.mp hfirst with heq | hfirst
        · exact heq
        · have hordered := h.ordered
          rw [hcons] at hordered
          have hafter := (ordered_cons.mp hordered).2.1 first hfirst
          have hlt := (h.fragment fragment hmem).lt
          rw [stop_eq, first_eq] at hafter
          omega
      rw [hcons, find?_cons, hbuffer, ← hsame, hfirstEq, decide_eq_true rfl]
    have hhead? : entry.fragments.head? = some fragment := by
      rw [hcons]
      rfl
    have hheadLen := (h.fragment fragment hmem).headLen
    have hsize := (h.fragment fragment hmem).size
    have hpos := (h.fragment fragment hmem).length_pos
    have h40 : sizeOfIp6Header = 40 := rfl
    have hunfragment : unfragmentable fragment.info.headLen fragment alloc.unfragment =
        some (fragment.data.take fragment.info.headLen) := by
      unfold unfragmentable
      rw [if_neg]
      rw [hok.unfragment]
      rintro (hzero | hlarge | hfalse)
      · omega
      · omega
      · exact Bool.noConfusion hfalse
    have hparts := trimHeaders_ok h.fragment
      (fun node hnode => hok.headLen node hnode fragment hmem)
    rw [if_pos hdone, hlast, hhead?]
    simp only [hlastEnd, ne_eq, not_true_eq_false, if_false, hfind, hunfragment, hparts,
      Option.bind_some, Option.map_some, hok.wrap, Bool.true_eq_false]
    refine ⟨_, rfl, rfl, ⟨fun node hnode => ⟨h.fragment node hnode, h.stored node hnode⟩, hchain,
      fragment, hmem, hstart, ?_⟩⟩
    rw [flatMap_def]
  · rw [if_neg hdone]
    exact Or.inl rfl

end Deliver

section Handled

/-- The entries agree in what identifies the packet. -/
def SameKey (a b : AssembleEntry) : Prop :=
  a.dst = b.dst ∧ a.src = b.src ∧ a.id = b.id

/-- The buffers that were queued, with that of the packet, are queued, or have been freed
once. -/
def BuffersKept (entry : AssembleEntry) (packet : Packet) (freed : List Nat)
    (fragments : List Packet) (freed' : List Nat) : Prop :=
  ∃ newly, freed' = newly ++ freed ∧ (fragments.map Packet.buffer ++ newly).Perm
    (packet.buffer :: entry.fragments.map Packet.buffer)

/-- What a fragment does to its entry: the entry stays with its books, or a whole packet is
returned; no buffer is lost or freed twice. -/
inductive Handled (received : List Packet) (entry : AssembleEntry) (packet : Packet)
    (freed : List Nat) (outcome : Outcome) : Prop
  | kept
      (entry' : AssembleEntry)
      (hpacket : outcome.packet = none)
      (hentry : outcome.entry = some entry')
      (hbooks : EntryOk (packet :: received) entry')
      (hkey : SameKey entry' entry)
      (hbuffers : BuffersKept entry packet freed entry'.fragments outcome.freed)
  | returned
      (whole : NewPacket)
      (hpacket : outcome.packet = some whole)
      (hentry : outcome.entry = none)
      (hwhole : Whole (packet :: received) whole)
      (hbuffers : BuffersKept entry packet freed whole.arg.fragments outcome.freed)

/-- The place of a fragment that is inserted whole. -/
structure Placed (entry : AssembleEntry) (packet : Packet) (before covered rest : List Packet) :
    Prop where
  split : entry.fragments = before ++ (covered ++ rest)
  front : ∀ node ∈ before, node.info.end_ ≤ packet.info.start
  behind : ∀ node ∈ covered ++ rest, packet.info.start < node.info.start
  beyond : ∀ node ∈ rest, packet.info.end_ ≤ node.info.start
  queued : before ++ packet :: rest = queuedWith entry.fragments packet

theorem Stored.mono
    (h : Stored received node) :
    Stored (packet :: received) node := by
  obtain ⟨r, hr, heq⟩ := h
  exact ⟨r, mem_cons_of_mem _ hr, heq⟩

section

variable (hplaced : Placed entry packet before covered rest)
include hplaced

/-- The list with the fragment in its place. -/
theorem Placed.list
    (h : EntryOk received entry)
    (hfragment : FragmentOk packet)
    (hfresh : packet.buffer ∉ entry.fragments.map Packet.buffer)
    (hsame : SameFragment packet packet')
    (hstored : Stored (packet :: received) packet') :
    (∀ node ∈ before ++ packet' :: rest, FragmentOk node) ∧
      (∀ node ∈ before ++ packet' :: rest, Stored (packet :: received) node) ∧
      Ordered (before ++ packet' :: rest) ∧
      ((before ++ packet' :: rest).map Packet.buffer).Nodup := by
  have hsub : (before ++ rest).Sublist entry.fragments := by
    rw [hplaced.split]
    exact List.Sublist.append_left (sublist_append_right covered rest) before
  have hmem : ∀ node ∈ before ++ packet' :: rest, node = packet' ∨ node ∈ entry.fragments := by
    intro node hnode
    rcases mem_append.mp hnode with hnode | hnode
    · exact Or.inr (hsub.subset (mem_append_left _ hnode))
    · exact (mem_cons.mp hnode).imp_right
        fun hnode => hsub.subset (mem_append_right _ hnode)
  have hfragment' := hsame.fragmentOk hfragment
  refine ⟨fun node hnode => ?_, fun node hnode => ?_, ?_, ?_⟩
  · rcases hmem node hnode with rfl | hnode
    · exact hfragment'
    · exact h.fragment node hnode
  · rcases hmem node hnode with rfl | hnode
    · exact hstored
    · exact (h.stored node hnode).mono
  · refine (h.ordered.sublist hsub).insert (le_of_lt hfragment'.lt) ?_ ?_
    · rw [first_eq, hsame.info]
      exact hplaced.front
    · rw [stop_eq, hsame.info]
      exact hplaced.beyond
  · rw [map_append, map_cons, hsame.buffer]
    refine (perm_middle.nodup_iff).mpr (nodup_cons.mpr ⟨?_, ?_⟩)
    · rw [← map_append]
      exact fun hbuffer => hfresh ((hsub.map _).subset hbuffer)
    · rw [← map_append]
      exact h.nodup.sublist (hsub.map _)

theorem Placed.buffers
    (hsame : SameFragment packet packet') :
    BuffersKept entry packet freed (before ++ packet' :: rest)
      ((covered.map Packet.buffer).reverse ++ freed) := by
  refine ⟨(covered.map Packet.buffer).reverse, rfl, ?_⟩
  rw [hplaced.split]
  simp only [map_append, map_cons, hsame.buffer]
  refine (perm_middle.append_right _).trans (List.Perm.cons _ ?_)
  change (_ ++ _ ++ _ : List Nat).Perm _
  rw [append_assoc]
  refine List.Perm.append_left _ ?_
  exact (perm_append_comm).trans ((reverse_perm _).append_right _)

theorem Placed.addLen_eq
    (h : EntryOk received entry)
    (hfragment : FragmentOk packet)
    (hcurLen : (curLen : Int) = entry.curLen - total covered)
    (hsame : SameFragment packet packet')
    (hlist : total (before ++ packet' :: rest) < 2 ^ 31) :
    (addLen curLen packet.info.length : Int) = total (before ++ packet' :: rest) := by
  have hsum := h.curLen_eq
  have hlength := hfragment.length_eq
  rw [hplaced.split, total_append, total_append] at hsum
  rw [total_append, total_cons, first_eq, stop_eq, hsame.info] at hlist ⊢
  rw [Ip6.addLen_eq (le_of_lt hfragment.length_pos) (by omega)]
  omega

end

theorem map_info_eq
    (hsame : SameFragment packet packet') :
    (before ++ packet' :: rest).map Packet.info = (before ++ packet :: rest).map Packet.info := by
  rw [map_append, map_append, map_cons, map_cons, hsame.info]

/-- The books are kept, and a packet is returned if it is complete. -/
theorem Placed.deliver_ok
    (hplaced : Placed entry packet before covered rest)
    (h : EntryOk (packet :: received) entry')
    (hlist : entry'.fragments = before ++ packet' :: rest)
    (htotalLen : entry'.totalLen = totalLenWith entry.totalLen packet)
    (hkey : SameKey entry' entry)
    (hsame : SameFragment packet packet')
    (hok : StepOk entry packet alloc) :
    ∃ outcome, deliverPacket entry' packet' alloc
        ((covered.map Packet.buffer).reverse ++ freed) = some outcome ∧
      Handled received entry packet freed outcome := by
  have hnotCovered : ∀ node ∈ entry.fragments, node.info.start ≤ packet.info.start →
      node.info.end_ ≤ packet.info.start := by
    intro node hnode hle
    rw [hplaced.split] at hnode
    rcases mem_append.mp hnode with hnode | hnode
    · exact hplaced.front node hnode
    · exact absurd hle (not_le.mpr (hplaced.behind node hnode))
  have hinfo : entry'.fragments.map Packet.info =
      (queuedWith entry.fragments packet).map Packet.info := by
    rw [hlist, ← hplaced.queued]
    exact map_info_eq hsame
  have hcurLen := h.curLen_eq
  rw [total_congr hinfo] at hcurLen
  have hcomplete : entry'.totalLen ≠ 0 → entry'.totalLen ≤ entry'.curLen →
      CompleteOk entry'.fragments entry'.totalLen alloc := by
    intro hnonzero hle
    rw [htotalLen] at hnonzero hle ⊢
    exact (hok.complete hnotCovered hnonzero (by omega)).congr hinfo
  have hbuffers := @Placed.buffers packet packet' before covered rest entry freed hplaced hsame
  rw [← hlist] at hbuffers
  rcases @deliverPacket_ok packet' (packet :: received) entry' alloc
      ((covered.map Packet.buffer).reverse ++ freed) h hcomplete with
    heq | ⟨whole, heq, harg, hwhole⟩
  · exact ⟨_, heq, .kept entry' rfl rfl h hkey hbuffers⟩
  · rw [← harg] at hbuffers
    exact ⟨_, heq, .returned whole rfl rfl hwhole hbuffers⟩

/-- A fragment that is inserted whole. -/
theorem Placed.enterPacket_ok
    (hplaced : Placed entry packet before covered rest)
    (h : EntryOk received entry)
    (hfragment : FragmentOk packet)
    (hfresh : packet.buffer ∉ entry.fragments.map Packet.buffer)
    (hcurLen : (curLen : Int) = entry.curLen - total covered)
    (hok : StepOk entry packet alloc) :
    ∃ outcome, enterPacket entry before packet rest curLen alloc
        ((covered.map Packet.buffer).reverse ++ freed) = some outcome ∧
      Handled received entry packet freed outcome := by
  have hlow := hfragment.low
  have hend : toUint32 packet.info.end_ = packet.info.end_.toNat := by
    have hlt := hfragment.lt
    have hhigh := hfragment.high
    exact toUint32_of_range (by omega) (by omega)
  have hpositive : ∀ node ∈ covered ++ rest, node.info.start ≠ 0 := fun node hnode =>
    ne_of_gt (lt_of_le_of_lt hlow (hplaced.behind node hnode))
  unfold enterPacket
  by_cases hstart : packet.info.start = 0
  · -- no fragment in front: a first fragment has not been queued
    have hnoFirst : ∀ node ∈ entry.fragments, node.info.start ≠ 0 := by
      intro node hnode
      have hlt := (h.fragment node hnode).lt
      have hnodeLow := (h.fragment node hnode).low
      rw [hplaced.split] at hnode
      rcases mem_append.mp hnode with hnode | hnode
      · have hfront := hplaced.front node hnode
        omega
      · exact hpositive node hnode
    have hfirst := hok.first hstart hnoFirst
    have hhead : entry.head = none := by
      cases hhead : entry.head with
      | none => rfl
      | some buffer =>
          obtain ⟨node, hnode, hzero, -⟩ := h.head buffer hhead
          exact absurd hzero (hnoFirst node hnode)
    have hcopy : entry.packet.isSome = false := by
      rw [h.packet_eq, hhead]
      rfl
    obtain ⟨packet', hset, hsame⟩ := setNextHeader_ok hfragment hfirst
    have hstored : Stored (packet :: received) packet' :=
      ⟨packet, mem_cons_self, Or.inr ⟨hstart, hset⟩⟩
    obtain ⟨hfragments, hstoreds, hordered, hnodup⟩ :=
      hplaced.list h hfragment hfresh hsame hstored
    have hsum := hplaced.addLen_eq h hfragment hcurLen hsame (total_lt hfragments hordered).2
    rw [if_pos hstart]
    simp only [enterFirst, hhead, hcopy, hfirst.duplicate, Option.isSome_none,
      Bool.false_eq_true, or_self, if_false, Bool.true_eq_false, hfragment.data_ne_nil, hset,
      Option.map_some, Option.bind_some]
    refine hplaced.deliver_ok ?_ ?_ ?_ ?_ hsame hok
    · split_ifs
      all_goals
        refine ⟨hfragments, hstoreds, hordered, hsum, fun hnone => ?_, fun buffer hbuffer => ?_,
          rfl, hnodup⟩
        · cases hnone
        · refine ⟨packet', mem_append_right _ mem_cons_self, ?_,
            Option.some_inj.mp hbuffer⟩
          rw [hsame.info]
          exact hstart
    · split_ifs <;> rfl
    · unfold totalLenWith
      rw [hend]
      split_ifs <;> rfl
    · split_ifs <;> exact ⟨rfl, rfl, rfl⟩
  · have hstored : Stored (packet :: received) packet :=
      ⟨packet, mem_cons_self, Or.inl rfl⟩
    obtain ⟨hfragments, hstoreds, hordered, hnodup⟩ :=
      hplaced.list h hfragment hfresh SameFragment.refl hstored
    have hsum := hplaced.addLen_eq h hfragment hcurLen SameFragment.refl
      (total_lt hfragments hordered).2
    have hheads : ∀ node, node.info.start = 0 →
        (node ∈ before ++ packet :: rest ↔ node ∈ entry.fragments) := by
      intro node hzero
      rw [hplaced.split]
      constructor
      · intro hnode
        rcases mem_append.mp hnode with hnode | hnode
        · exact mem_append_left _ hnode
        · rcases mem_cons.mp hnode with rfl | hnode
          · exact absurd hzero hstart
          · exact absurd hzero (hpositive node (mem_append_right _ hnode))
      · intro hnode
        rcases mem_append.mp hnode with hnode | hnode
        · exact mem_append_left _ hnode
        · exact absurd hzero (hpositive node hnode)
    simp only [if_neg hstart]
    refine hplaced.deliver_ok ?_ ?_ ?_ ?_ SameFragment.refl hok
    · split_ifs
      all_goals
        refine ⟨hfragments, hstoreds, hordered, hsum, fun hnone node hnode hzero => ?_,
          fun buffer hbuffer => ?_, h.packet_eq, hnodup⟩
        · exact h.noHead hnone node ((hheads node hzero).mp hnode) hzero
        · obtain ⟨node, hnode, hzero, hsame⟩ := h.head buffer hbuffer
          exact ⟨node, (hheads node hzero).mpr hnode, hzero, hsame⟩
    · split_ifs <;> rfl
    · unfold totalLenWith
      rw [hend]
      split_ifs <;> rfl
    · split_ifs <;> exact ⟨rfl, rfl, rfl⟩

/-- `Ip6Reassemble` in its entry. -/
theorem assembleInto_ok
    (h : EntryOk received entry)
    (hfragment : FragmentOk packet)
    (hfresh : packet.buffer ∉ entry.fragments.map Packet.buffer)
    (hok : StepOk entry packet alloc) :
    ∃ outcome, assembleInto entry packet alloc freed = some outcome ∧
      Handled received entry packet freed outcome := by
  obtain ⟨before, hbefore⟩ : ∃ before, before = inFront packet.info.start entry.fragments :=
    ⟨_, rfl⟩
  obtain ⟨after, hafter⟩ : ∃ after, after = behind packet.info.start entry.fragments := ⟨_, rfl⟩
  have htake : (entry.fragments.takeWhile fun node =>
      !decide (packet.info.start < node.info.start)) = before :=
    takeWhile_not_lt.1.trans hbefore.symm
  have hdrop : (entry.fragments.dropWhile fun node =>
      !decide (packet.info.start < node.info.start)) = after :=
    takeWhile_not_lt.2.trans hafter.symm
  have hlist : before ++ after = entry.fragments := by
    rw [hbefore, hafter]
    exact inFront_append_behind
  have hafterStart : ∀ node ∈ after, packet.info.start < node.info.start := by
    rw [hafter]
    exact fun node hnode => h.ordered.mem_behind hnode
  have hmem : ∀ node ∈ after, node ∈ entry.fragments := by
    rw [← hlist]
    exact fun node hnode => mem_append_right _ hnode
  have hprev := hok.prev
  rw [← hbefore] at hprev
  unfold assembleInto
  simp only [htake, hdrop]
  rcases trimPrev_spec h.ordered hbefore hprev with
    ⟨heq, prev, _, _, _, _⟩ | ⟨heq, hfront⟩
  · -- the packet is freed in front of its insertion
    rw [heq]
    refine ⟨_, rfl, .kept entry rfl rfl ?_ ⟨rfl, rfl, rfl⟩ ⟨[packet.buffer], rfl, ?_⟩⟩
    · exact { h with stored := fun node hnode => (h.stored node hnode).mono }
    · exact perm_append_comm
  · rw [heq]
    simp only
    have hordered := h.ordered
    rw [← hlist] at hordered
    have hafterOrdered := (ordered_append.mp hordered).2.1
    have hcurLen := h.curLen_eq
    rw [← hlist, total_append] at hcurLen
    have hbeforeTotal := (total_lt
      (fun node hnode => h.fragment node (by rw [← hlist]; exact mem_append_left _ hnode))
      (ordered_append.mp hordered).1).1
    have hsmall := (total_lt h.fragment h.ordered).2
    have hall := h.curLen_eq
    obtain ⟨covered, rest, curLen', hsplit, hfilter, hbeyond, hsum, heq'⟩ :=
      @scanBehind_spec packet after freed entry.curLen hafterOrdered
        (fun node hnode => h.fragment node (hmem node hnode))
        (fun node hnode hlt => hok.inside node (hmem node hnode) (hafterStart node hnode) hlt)
        (by omega) (by omega)
    rw [heq']
    have hplaced : Placed entry packet before covered rest := by
      refine ⟨?_, hfront, ?_, hbeyond, ?_⟩
      · rw [← hlist, hsplit]
      · rw [← hsplit]
        exact hafterStart
      · rw [queuedWith, ← hbefore, ← hafter, hfilter]
    exact hplaced.enterPacket_ok h hfragment hfresh hsum hok

end Handled

end Ip6
end Udk
