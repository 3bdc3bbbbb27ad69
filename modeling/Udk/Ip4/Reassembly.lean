import Udk.Ip4.AssembleEntry
import Udk.Runs

/-!
# Reassembly

A fragment that is not trimmed at its end keeps the books of its entry, and the packet is
returned by the call in which the fragments first cover the payload.
-/

namespace Udk
namespace Ip4

open NetLib Extent Extents List

section Entry

variable {payload : List UInt8} {packet packet' node : Packet}
  {fragments received : List Packet} {entry entry' : AssembleEntry} {curLen : Int}

theorem length_natCast_pos
    (h : (0 : Int) < payload.length) :
    payload ≠ [] := by
  rintro rfl
  exact absurd h (lt_irrefl _)

/-- The total length after a fragment. -/
def totalLenWith (entry : AssembleEntry) (packet : Packet) : Int :=
  if lastFragment packet.ip4.fragment = true ∧ entry.totalLen = 0 then packet.info.end_
  else entry.totalLen

section

variable (h : BooksOk payload received entry)
include h

theorem totalLenWith_last
    (hfragment : FragmentOf payload packet)
    (hip : packet'.ip4 = packet.ip4)
    (hend : packet'.info.end_ = packet.info.end_)
    (hlast : ∃ r ∈ packet :: received, r.info.end_ = payload.length) :
    totalLenWith entry packet' = payload.length := by
  unfold totalLenWith
  rw [hip, hend]
  have hpos := hfragment.payload_pos
  by_cases hbefore : ∃ r ∈ received, r.info.end_ = payload.length
  · rw [h.last hbefore, if_neg]
    omega
  · obtain ⟨r, hr, heq⟩ := hlast
    rcases mem_cons.mp hr with rfl | hr
    · have hzero := h.noLast fun r' hr' heq' => hbefore ⟨r', hr', heq'⟩
      rw [if_pos ⟨hfragment.last_iff.mpr heq, hzero⟩]
      exact heq
    · exact absurd ⟨r, hr, heq⟩ hbefore

theorem totalLenWith_noLast
    (hfragment : FragmentOf payload packet)
    (hip : packet'.ip4 = packet.ip4)
    (hnoLast : ∀ r ∈ packet :: received, r.info.end_ ≠ payload.length) :
    totalLenWith entry packet' = 0 := by
  unfold totalLenWith
  rw [hip, if_neg]
  · exact h.noLast fun r hr => hnoLast r (mem_cons_of_mem _ hr)
  · exact fun hboth => hnoLast packet mem_cons_self (hfragment.last_iff.mp hboth.1)

theorem enterPacket_ok
    (hfragment : FragmentOf payload packet)
    (hlist : ListOk payload (packet :: received) fragments)
    (hcurLen : curLen + packet'.info.length = total fragments)
    (hip : packet'.ip4 = packet.ip4)
    (hend : packet'.info.end_ = packet.info.end_)
    (hheads : (∃ node ∈ fragments, node.info.start = 0) ↔
      packet'.info.start = 0 ∨ ∃ node ∈ entry.fragments, node.info.start = 0)
    (hfirst : packet'.info.start = 0 → ∀ node ∈ entry.fragments, node.info.start ≠ 0) :
    ∃ entry', enterPacket entry packet' fragments curLen = some entry' ∧
      BooksOk payload (packet :: received) entry' ∧ entry'.dst = entry.dst ∧
      entry'.src = entry.src ∧ entry'.id = entry.id ∧ entry'.protocol = entry.protocol := by
  have hlast := totalLenWith_last h hfragment hip hend
  have hnoLast := totalLenWith_noLast h hfragment hip
  have hsum : curLen + packet'.info.length =
      (fragments.map fun node => node.info.length).sum := by
    rw [hcurLen, total_eq_lengths hlist.carries]
  unfold enterPacket
  by_cases hstart : packet'.info.start = 0
  · have hnone : entry.head.isSome = false := by
      by_contra hsome
      obtain ⟨node, hnode, hzero⟩ := h.head_iff.mp (Bool.eq_true_of_not_eq_false hsome)
      exact hfirst hstart node hnode hzero
    simp only [if_pos hstart, hnone]
    refine ⟨_, rfl, ⟨hlist, hsum, hlast, hnoLast, ?_, rfl⟩, rfl, rfl, rfl, rfl⟩
    simp only [Option.isSome_some, true_iff]
    exact hheads.mpr (Or.inl hstart)
  · simp only [if_neg hstart]
    refine ⟨_, rfl, ⟨hlist, hsum, hlast, hnoLast, ?_, h.info_eq⟩, rfl, rfl, rfl, rfl⟩
    rw [h.head_iff, hheads]
    exact ⟨Or.inr, fun hor => hor.resolve_left hstart⟩

/-- The packet is returned exactly when the fragments cover the payload, whose bytes it
has. -/
theorem deliverPacket_ok
    (hpos : (0 : Int) < payload.length) :
    (¬ Covers payload received ∧ deliverPacket entry true = some (.kept entry)) ∨
    (Covers payload received ∧ ∃ packet, packet.data = payload ∧
      deliverPacket entry true = some (.removed (some packet))) := by
  have htotal : entry.curLen = total entry.fragments :=
    h.curLen_eq.trans (total_eq_lengths h.list.carries)
  have hiff := h.list.covers_iff
  by_cases hcovers : Covers payload received
  · refine Or.inr ⟨hcovers, ?_⟩
    have hwithin := within_payload h.list.carries
    have hchain : Chained 0 entry.fragments payload.length :=
      h.list.ordered.chained_of_held hwithin (Int.natCast_nonneg _)
        (fun x hx hx' => (h.list.held x).mpr (hcovers x hx hx'))
    obtain ⟨hdata, -⟩ := flatMap_data_of_chained hchain (le_refl 0) h.list.carries
    rw [slice_all] at hdata
    have hne : entry.fragments ≠ [] := by
      intro hnil
      rw [hnil] at hdata
      exact length_natCast_pos hpos hdata.symm
    obtain ⟨first, rest, hcons⟩ := exists_cons_of_ne_nil hne
    have hlastEnd : (entry.fragments.getLast hne).info.end_ = payload.length := hchain.getLast hne
    have htotalLen : entry.totalLen = payload.length := by
      obtain ⟨r, hr, heq⟩ := h.list.ends _ (getLast_mem hne)
      exact h.last ⟨r, hr, heq.trans hlastEnd⟩
    have hhead : entry.head.isSome := by
      rw [hcons] at hchain
      refine h.head_iff.mpr ⟨first, ?_, hchain.1⟩
      rw [hcons]
      exact mem_cons_self
    obtain ⟨head, hhead'⟩ := Option.isSome_iff_exists.mp hhead
    obtain ⟨info, hinfo'⟩ := Option.isSome_iff_exists.mp (h.info_eq.trans hhead)
    have hbytes : ¬ (entry.fragments.all fun fragment => fragment.data.isEmpty) = true := by
      intro hall
      refine length_natCast_pos hpos ?_
      rw [← hdata]
      refine flatMap_eq_nil_iff.mpr fun node hnode => ?_
      exact List.isEmpty_iff.mp (all_eq_true.mp hall node hnode)
    have hcomplete : entry.totalLen ≠ 0 ∧ entry.curLen ≥ entry.totalLen := by
      rw [htotalLen, htotal]
      exact ⟨ne_of_gt hpos, hiff.mp hcovers⟩
    refine ⟨⟨head, info, entry.fragments.flatMap Packet.data⟩, hdata, ?_⟩
    unfold deliverPacket
    rw [if_pos hcomplete, getLast?_eq_some_getLast hne]
    simp only [hlastEnd, htotalLen, ne_eq, not_true_eq_false, if_false, hhead', hinfo',
      if_neg hbytes, Bool.true_eq_false]
  · refine Or.inl ⟨hcovers, ?_⟩
    have hincomplete : ¬ (entry.totalLen ≠ 0 ∧ entry.curLen ≥ entry.totalLen) := by
      rintro ⟨hnonzero, hge⟩
      have hlast : ∃ r ∈ received, r.info.end_ = payload.length := by
        by_contra hno
        exact hnonzero (h.noLast fun r hr heq => hno ⟨r, hr, heq⟩)
      rw [h.last hlast, htotal] at hge
      exact hcovers (hiff.mpr hge)
    unfold deliverPacket
    rw [if_neg hincomplete]

end

/-- The entries agree in what identifies the packet. -/
def SameKey (a b : AssembleEntry) : Prop :=
  a.dst = b.dst ∧ a.src = b.src ∧ a.id = b.id ∧ a.protocol = b.protocol

/-- What one fragment does to its entry. -/
def Absorbed (payload : List UInt8) (received : List Packet) (entry : AssembleEntry)
    (packet : Packet) (outcome : Option Outcome) : Prop :=
  (¬ Covers payload (packet :: received) ∧ ∃ entry', outcome = some (.kept entry') ∧
      EntryOk payload (packet :: received) entry' ∧ SameKey entry' entry) ∨
    (Covers payload (packet :: received) ∧ ∃ packet', packet'.data = payload ∧
      outcome = some (.removed (some packet')))

theorem Absorbed.kept
    (h : EntryOk payload received entry)
    (hbooks : BooksOk payload (packet :: received) entry')
    (hheld : ∀ x, Held entry'.fragments x → Held entry.fragments x)
    (hkey : SameKey entry' entry) :
    Absorbed payload received entry packet (some (.kept entry')) := by
  have hincomplete : ¬ Covers payload (packet :: received) := by
    intro hcovers
    refine h.incomplete fun x hx hx' => ?_
    exact (h.list.held x).mp (hheld x ((hbooks.list.held x).mpr (hcovers x hx hx')))
  exact Or.inl ⟨hincomplete, entry', rfl, ⟨hbooks, hincomplete⟩, hkey⟩

/-- The fragments in front of the place of a fragment, which covers one of them at most
when both are empty. -/
theorem distinct_of_notEmptyAgain
    (hlist : ListOk payload received fragments)
    (hempty : ¬ EmptyAgain fragments packet.info)
    (hfront : FrontTrimmed payload (inFront packet.info.start fragments) packet packet') :
    (∀ node ∈ inFront packet.info.start fragments, Distinct node packet') ∧
      (packet'.info.start = 0 → inFront packet.info.start fragments = []) := by
  have hordered : Ordered (inFront packet.info.start fragments) :=
    hlist.ordered.sublist (takeWhile_sublist _)
  have hcarries : ∀ node ∈ inFront packet.info.start fragments, Carries payload node :=
    fun node hnode => hlist.carries node ((takeWhile_sublist _).subset hnode)
  constructor
  · intro node hnode
    by_contra hsame
    simp only [Distinct, not_or, not_not] at hsame
    have hend := hfront.behind node hnode
    have hle := hfront.carries.le
    -- the fragment is empty, so that it has not been trimmed
    have hstart : packet'.info.start = packet.info.start := by
      by_contra hne
      have hlt := (hfront.trimmed hne).1
      omega
    obtain ⟨prev, hprev⟩ := Option.isSome_iff_exists.mp
      (getLast?_isSome.mpr (ne_nil_of_mem hnode))
    have hmem := mem_of_getLast? hprev
    have hprevStart : prev.info.start ≤ packet.info.start := mem_inFront hmem
    have hprevEnd := hfront.behind prev hmem
    have hprevLe := (hcarries prev hmem).le
    have hlast : node.info.start ≤ prev.info.start := hordered.first_le_getLast hprev hnode
    have hpacketEnd := hfront.end_eq
    exact hempty ⟨prev, hprev, by omega, by omega, Or.inl (by omega)⟩
  · intro hzero
    by_contra hne
    obtain ⟨prev, hprev⟩ := Option.isSome_iff_exists.mp (getLast?_isSome.mpr hne)
    have hmem := mem_of_getLast? hprev
    have hprevStart : prev.info.start ≤ packet.info.start := mem_inFront hmem
    have hprevEnd := hfront.behind prev hmem
    have hprevLe := (hcarries prev hmem).le
    have hprevLow := (hcarries prev hmem).low
    have hstart := hfront.start_le
    exact hempty ⟨prev, hprev, by omega, by omega, Or.inr (by omega)⟩

theorem BooksOk.keep
    (h : BooksOk payload received entry)
    (hnode : node ∈ entry.fragments)
    (hstart : node.info.start ≤ packet.info.start)
    (hend : packet.info.end_ ≤ node.info.end_) :
    BooksOk payload (packet :: received) entry where
  list := h.list.keep hnode hstart hend
  curLen_eq := h.curLen_eq
  last := by
    rintro ⟨r, hr, heq⟩
    rcases mem_cons.mp hr with rfl | hr
    · have hhigh := (h.list.carries node hnode).high
      obtain ⟨r', hr', heq'⟩ := h.list.ends node hnode
      exact h.last ⟨r', hr', by omega⟩
    · exact h.last ⟨r, hr, heq⟩
  noLast hno := h.noLast fun r hr => hno r (mem_cons_of_mem _ hr)
  head_iff := h.head_iff
  info_eq := h.info_eq

/-- A fragment that is dropped behind its insert point. -/
theorem BooksOk.dropped
    {before covered rest : List Packet}
    (h : BooksOk payload received entry)
    (hsplit : entry.fragments = before ++ (covered ++ rest))
    (hlist : ListOk payload (packet :: received) (before ++ rest))
    (hcovered : ∀ b ∈ covered, b.info.start ≠ 0)
    (hnotLast : packet.info.end_ < payload.length) :
    BooksOk payload (packet :: received)
      { entry with fragments := before ++ rest, curLen := entry.curLen - total covered } where
  list := hlist
  curLen_eq := by
    have hsum := h.curLen_eq.trans (total_eq_lengths h.list.carries)
    rw [hsplit, total_append, total_append] at hsum
    simp only [total_eq_lengths hlist.carries, total_append]
    omega
  last := by
    rintro ⟨r, hr, heq⟩
    rcases mem_cons.mp hr with rfl | hr
    · omega
    · exact h.last ⟨r, hr, heq⟩
  noLast hno := h.noLast fun r hr => hno r (mem_cons_of_mem _ hr)
  head_iff := by
    rw [h.head_iff, hsplit]
    constructor
    · rintro ⟨b, hb, hzero⟩
      rcases mem_append.mp hb with hb | hb
      · exact ⟨b, mem_append_left _ hb, hzero⟩
      · rcases mem_append.mp hb with hb | hb
        · exact absurd hzero (hcovered b hb)
        · exact ⟨b, mem_append_right _ hb, hzero⟩
    · rintro ⟨b, hb, hzero⟩
      rcases mem_append.mp hb with hb | hb
      · exact ⟨b, mem_append_left _ hb, hzero⟩
      · exact ⟨b, mem_append_right _ (mem_append_right _ hb), hzero⟩
  info_eq := h.info_eq

/-- The place of a fragment in the list of its entry. -/
structure Placed (payload : List UInt8) (entry : AssembleEntry) (packet packet' : Packet)
    (before covered rest : List Packet) : Prop where
  split : entry.fragments = before ++ (covered ++ rest)
  front : FrontTrimmed payload before packet packet'
  inside : ∀ b ∈ covered, packet'.info.start ≤ b.info.start ∧ b.info.end_ ≤ packet'.info.end_
  positive : ∀ b ∈ covered, b.info.start ≠ 0
  beyond : ∀ b ∈ rest, packet'.info.end_ < b.info.end_

theorem Placed.absorbed_dropped
    {before covered rest : List Packet}
    (hplaced : Placed payload entry packet packet' before covered rest)
    (h : EntryOk payload received entry)
    (hnode : node ∈ rest)
    (hstart : node.info.start = packet'.info.start) :
    Absorbed payload received entry packet (some (.kept { entry with
      fragments := before ++ rest, curLen := entry.curLen - total covered })) := by
  have hlist := h.list
  have hsplit := hplaced.split
  rw [hsplit] at hlist
  have hend := hplaced.beyond node hnode
  have hdropped : ListOk payload (packet :: received) (before ++ rest) :=
    hlist.dropped hplaced.inside hnode (le_of_eq hstart) (le_of_lt hend) hplaced.front.end_eq
      hplaced.front.held
  have hnotLast : packet.info.end_ < payload.length := by
    have hhigh := (hdropped.carries node (mem_append_right _ hnode)).high
    rw [← hplaced.front.end_eq]
    exact lt_of_lt_of_le hend hhigh
  refine Absorbed.kept h (h.toBooksOk.dropped hsplit hdropped hplaced.positive hnotLast) ?_
    ⟨rfl, rfl, rfl, rfl⟩
  intro x hx
  rw [hsplit]
  rcases held_append.mp hx with hx | hx
  · exact held_append.mpr (Or.inl hx)
  · exact held_append.mpr (Or.inr (held_append.mpr (Or.inr hx)))

/-- A fragment that is inserted. -/
theorem Placed.absorbed_inserted
    {before covered rest : List Packet}
    (hplaced : Placed payload entry packet packet' before covered rest)
    (h : EntryOk payload received entry)
    (hfragment : FragmentOf payload packet)
    (hbehind : ∀ b ∈ rest, packet'.info.end_ ≤ b.info.start)
    (hrestStart : ∀ b ∈ rest, b.info.start ≠ 0)
    (hdistinct : ∀ b ∈ before, Distinct b packet')
    (hfirst : packet'.info.start = 0 → before = []) :
    Absorbed payload received entry packet
      ((enterPacket entry packet' (before ++ packet' :: rest) (entry.curLen - total covered)).bind
        fun entry => deliverPacket entry true) := by
  have hlist := h.list
  have hsplit := hplaced.split
  rw [hsplit] at hlist
  have hfront := hplaced.front
  have hinserted : ListOk payload (packet :: received) (before ++ packet' :: rest) :=
    hlist.inserted hfront.carries hplaced.inside hfront.behind hbehind hplaced.beyond
      hfront.start_le hfront.end_eq hfront.held hdistinct
  have hcurLen : entry.curLen - total covered + packet'.info.length =
      total (before ++ packet' :: rest) := by
    have hsum := h.curLen_eq.trans (total_eq_lengths h.list.carries)
    have hlength := hfront.carries.length_eq
    rw [hsplit, total_append, total_append] at hsum
    rw [total_append, total_cons, first_eq, stop_eq]
    omega
  have hheads : (∃ b ∈ before ++ packet' :: rest, b.info.start = 0) ↔
      packet'.info.start = 0 ∨ ∃ b ∈ entry.fragments, b.info.start = 0 := by
    rw [hsplit]
    simp only [mem_append, mem_cons]
    constructor
    · rintro ⟨b, hb | rfl | hb, hzero⟩
      · exact Or.inr ⟨b, Or.inl hb, hzero⟩
      · exact Or.inl hzero
      · exact absurd hzero (hrestStart b hb)
    · rintro (hzero | ⟨b, hb | hb | hb, hzero⟩)
      · exact ⟨packet', Or.inr (Or.inl rfl), hzero⟩
      · exact ⟨b, Or.inl hb, hzero⟩
      · exact absurd hzero (hplaced.positive b hb)
      · exact absurd hzero (hrestStart b hb)
  have hnoHead : packet'.info.start = 0 → ∀ b ∈ entry.fragments, b.info.start ≠ 0 := by
    intro hzero b hb
    rw [hsplit, hfirst hzero, nil_append] at hb
    rcases mem_append.mp hb with hb | hb
    · exact hplaced.positive b hb
    · exact hrestStart b hb
  obtain ⟨entry', heq, hbooks, hkey⟩ := enterPacket_ok h.toBooksOk hfragment hinserted hcurLen
    hfront.ip4_eq hfront.end_eq hheads hnoHead
  rw [heq, Option.bind_some]
  rcases deliverPacket_ok hbooks hfragment.payload_pos with
    ⟨hincomplete, heq'⟩ | ⟨hcovers, result, hdata, heq'⟩
  · exact Or.inl ⟨hincomplete, entry', heq', ⟨hbooks, hincomplete⟩, hkey⟩
  · exact Or.inr ⟨hcovers, result, hdata, heq'⟩

/-- `Ip4Reassemble` in its entry, for a fragment that is not trimmed at its end. -/
theorem assembleInto_ok
    (h : EntryOk payload received entry)
    (hsmall : payload.length < 2 ^ 32)
    (hfragment : FragmentOf payload packet)
    (hinside : ¬ EndsInside entry.fragments packet.info)
    (hempty : ¬ EmptyAgain entry.fragments packet.info) :
    Absorbed payload received entry packet (assembleInto entry packet true) := by
  have hlow := hfragment.carries.low
  obtain ⟨before, hbefore⟩ : ∃ before, before = inFront packet.info.start entry.fragments :=
    ⟨_, rfl⟩
  obtain ⟨after, hafter⟩ : ∃ after, after = behind packet.info.start entry.fragments := ⟨_, rfl⟩
  have htake : (entry.fragments.takeWhile fun node =>
      !decide (packet.info.start < node.info.start)) = before :=
    takeWhile_not_lt.1.trans hbefore.symm
  have hdrop : (entry.fragments.dropWhile fun node =>
      !decide (packet.info.start < node.info.start)) = after :=
    takeWhile_not_lt.2.trans hafter.symm
  have hlist : before ++ after = entry.fragments := by
    rw [hbefore, hafter]
    exact inFront_append_behind
  have hordered := h.list.ordered
  have hafterStart : ∀ node ∈ after, packet.info.start < node.info.start := by
    rw [hafter]
    exact fun node hnode => hordered.mem_behind hnode
  unfold assembleInto
  simp only [htake, hdrop]
  rcases trimAgainstPrev_spec hfragment.carries hsmall hordered hbefore with
    ⟨heq, prev, hprev, hstart, _, hend⟩ | ⟨packet', heq, hfront⟩
  · -- the packet is freed
    rw [heq]
    have hmem : prev ∈ entry.fragments := by
      rw [← hlist]
      exact mem_append_left _ hprev
    exact Absorbed.kept h (h.toBooksOk.keep hmem hstart hend) (fun x hx => hx) ⟨rfl, rfl, rfl, rfl⟩
  · rw [heq]
    simp only
    rw [← hlist] at hordered
    obtain ⟨-, hafterOrdered, hbetween⟩ := ordered_append.mp hordered
    have hmem : ∀ node ∈ after, node ∈ entry.fragments := by
      rw [← hlist]
      exact fun node hnode => mem_append_right _ hnode
    have hfrontStart : ∀ node ∈ after, packet'.info.start ≤ node.info.start := by
      intro node hnode
      by_cases hsame : packet'.info.start = packet.info.start
      · rw [hsame]
        exact le_of_lt (hafterStart node hnode)
      · obtain ⟨-, prev, hprev, hend⟩ := hfront.trimmed hsame
        rw [← hend]
        exact hbetween prev (mem_of_getLast? hprev) node hnode
    have hnotInside : ∀ node ∈ after, packet'.info.start < node.info.start →
        node.info.start < packet'.info.end_ → node.info.end_ ≤ packet'.info.end_ := by
      intro node hnode hlt hlt'
      by_contra hnot
      rw [hfront.end_eq] at hlt' hnot
      refine hinside ⟨node, hmem node hnode, hafterStart node hnode, hlt', not_le.mp hnot, ?_⟩
      intro prev hprev
      rw [← hbefore] at hprev
      exact lt_of_le_of_lt (hfront.behind prev (mem_of_getLast? hprev)) hlt
    obtain ⟨covered, rest, hscanned, hcases⟩ := @scanBehind_spec packet' after entry.curLen
      hafterOrdered (fun node hnode => (h.list.carries node (hmem node hnode)).length_eq)
      hnotInside hfrontStart
    have hpositive : ∀ node ∈ after, node.info.start ≠ 0 := fun node hnode =>
      ne_of_gt (lt_of_le_of_lt hlow (hafterStart node hnode))
    have hsplit := hscanned.split
    subst hsplit
    have hplaced : Placed payload entry packet packet' before covered rest := by
      refine ⟨hlist.symm, hfront, fun b hb => ⟨?_, hscanned.covered b hb⟩, fun b hb => ?_,
        hscanned.rest⟩
      · exact hfrontStart b (mem_append_left _ hb)
      · exact hpositive b (mem_append_left _ hb)
    rcases hcases with ⟨heq', hbehind⟩ | ⟨heq', node, hnode, hstart⟩
    · rw [heq']
      rw [hbefore] at hfront
      obtain ⟨hdistinct, hfirst⟩ := distinct_of_notEmptyAgain h.list hempty hfront
      rw [← hbefore] at hdistinct hfirst
      exact hplaced.absorbed_inserted h hfragment hbehind
        (fun b hb => hpositive b (mem_append_right _ hb)) hdistinct hfirst
    · rw [heq']
      exact hplaced.absorbed_dropped h hnode hstart

end Entry

end Ip4
end Udk
