import Udk.Ip4.Ip4Input
import Udk.Extents

/-!
# The fragments of a packet

A fragment is trimmed against the one in front of it, and the fragments behind it that it
covers are removed.  The bytes held by the list are then those held before and those of
the fragment, as long as the fragment is not trimmed at its end.
-/

namespace Udk
namespace Ip4

open NetLib Extent Extents List

instance : Extent Packet where
  first packet := packet.info.start
  stop packet := packet.info.end_

variable {payload : List UInt8} {packet packet' node prev : Packet}
  {fragments before after rest : List Packet} {curLen x : Int}

theorem first_eq : first packet = packet.info.start := rfl

theorem stop_eq : stop packet = packet.info.end_ := rfl

/-- The packet carries the bytes of a payload from its start up to its end. -/
structure Carries (payload : List UInt8) (packet : Packet) : Prop where
  low : 0 ≤ packet.info.start
  le : packet.info.start ≤ packet.info.end_
  high : packet.info.end_ ≤ payload.length
  length_eq : packet.info.length = packet.info.end_ - packet.info.start
  data_eq : packet.data = NetLib.slice payload packet.info.start packet.info.end_

theorem ip4TrimPacket_front
    {start : Int}
    (h : Carries payload packet)
    (hsmall : payload.length < 2 ^ 32)
    (hlow : packet.info.start < start)
    (hhigh : start < packet.info.end_) :
    ∃ packet', ip4TrimPacket packet start packet.info.end_ = some packet' ∧
      Carries payload packet' ∧ packet'.info.start = start ∧
      packet'.info.end_ = packet.info.end_ ∧ packet'.ip4 = packet.ip4 := by
  have hlength := h.length_eq
  have hpos := h.low
  have hend := h.high
  have htrim : trimBytes packet.data (toUint32 (start - packet.info.start)) true =
      some (NetLib.slice payload start packet.info.end_) := by
    rw [toUint32_of_range (by omega) (by omega), h.data_eq]
    exact trimBytes_slice hpos (le_of_lt hlow) hhigh hend
  have hcheck : packet.info.start + packet.info.length = packet.info.end_ ∧
      packet.info.start < packet.info.end_ ∧ start < packet.info.end_ := by omega
  unfold ip4TrimPacket
  rw [if_pos hcheck, trimFront, if_pos hlow]
  simp only [htrim, Option.map_some, Option.bind_some, trimBack, lt_irrefl, if_false]
  refine ⟨_, rfl, ?_, rfl, rfl, rfl⟩
  constructor
  case low => exact le_trans hpos (le_of_lt hlow)
  case le => exact le_of_lt hhigh
  case high => exact hend
  case length_eq =>
    simp only
    omega
  case data_eq => rfl

section Front

/-- What is left of a fragment when it has been trimmed against the one in front of it. -/
structure FrontTrimmed (payload : List UInt8) (before : List Packet) (packet packet' : Packet) :
    Prop where
  carries : Carries payload packet'
  start_le : packet.info.start ≤ packet'.info.start
  end_eq : packet'.info.end_ = packet.info.end_
  ip4_eq : packet'.ip4 = packet.ip4
  behind : ∀ node ∈ before, node.info.end_ ≤ packet'.info.start
  held : ∀ x, packet.info.start ≤ x → x < packet'.info.start → Held before x
  trimmed : packet'.info.start ≠ packet.info.start →
    packet'.info.start < packet'.info.end_ ∧
      ∃ prev, before.getLast? = some prev ∧ prev.info.end_ = packet'.info.start

/-- The check against the previous fragment frees the packet only if that fragment covers
it. -/
theorem trimAgainstPrev_spec
    (h : Carries payload packet)
    (hsmall : payload.length < 2 ^ 32)
    (hordered : Ordered fragments)
    (hbefore : before = inFront packet.info.start fragments) :
    (trimAgainstPrev packet before.getLast? = some none ∧
      ∃ prev ∈ before, prev.info.start ≤ packet.info.start ∧
        packet.info.start < prev.info.end_ ∧ packet.info.end_ ≤ prev.info.end_) ∨
    ∃ packet', trimAgainstPrev packet before.getLast? = some (some packet') ∧
      FrontTrimmed payload before packet packet' := by
  have hstarts : ∀ node ∈ before, node.info.start ≤ packet.info.start := by
    rw [hbefore]
    exact fun node hnode => mem_inFront hnode
  have hstops : ∀ bound, packet.info.start ≤ bound →
      (∀ p, before.getLast? = some p → p.info.end_ ≤ bound) →
      ∀ node ∈ before, node.info.end_ ≤ bound := by
    rw [hbefore]
    exact fun bound hle hlast node hnode => hordered.stop_inFront hle hlast hnode
  -- without overlap the packet stays as it is
  have hsame : (∀ p, before.getLast? = some p → p.info.end_ ≤ packet.info.start) →
      FrontTrimmed payload before packet packet := by
    intro hlast
    refine ⟨h, le_refl _, rfl, rfl, hstops _ (le_refl _) hlast, ?_, fun hne => absurd rfl hne⟩
    exact fun x hx hx' => absurd hx (not_le.mpr hx')
  cases hlast : before.getLast? with
  | none =>
      refine Or.inr ⟨packet, rfl, hsame fun p hp => ?_⟩
      rw [hlast] at hp
      cases hp
  | some prev =>
      have hmem : prev ∈ before := mem_of_getLast? hlast
      by_cases hoverlap : packet.info.start < prev.info.end_
      · by_cases hcovered : packet.info.end_ ≤ prev.info.end_
        · refine Or.inl ⟨?_, prev, hmem, hstarts prev hmem, hoverlap, hcovered⟩
          simp only [trimAgainstPrev, if_pos hoverlap, if_pos hcovered]
        · obtain ⟨packet', heq, hcarries, hstart, hend, hip⟩ :=
            ip4TrimPacket_front h hsmall hoverlap (not_le.mp hcovered)
          refine Or.inr ⟨packet', ?_, hcarries, ?_, hend, hip, ?_, ?_, ?_⟩
          · simp only [trimAgainstPrev, if_pos hoverlap, if_neg hcovered, heq, Option.map_some]
          · rw [hstart]
            exact le_of_lt hoverlap
          · rw [hstart]
            refine hstops _ (le_of_lt hoverlap) fun p hp => ?_
            rw [hlast, Option.some_inj] at hp
            rw [hp]
          · intro x hx hx'
            rw [hstart] at hx'
            exact ⟨prev, hmem, le_trans (hstarts prev hmem) hx, hx'⟩
          · intro _
            refine ⟨?_, prev, hlast, hstart.symm⟩
            rw [hstart, hend]
            exact not_le.mp hcovered
      · refine Or.inr ⟨packet, ?_, hsame fun p hp => ?_⟩
        · simp only [trimAgainstPrev, if_neg hoverlap]
        · rw [hlast, Option.some_inj] at hp
          rw [← hp]
          exact not_lt.mp hoverlap

end Front

section Behind

/-- The fragments behind the insert point: those that the packet covers are removed, and
of the others none ends inside it. -/
structure Scanned (packet : Packet) (after covered rest : List Packet) : Prop where
  split : after = covered ++ rest
  covered : ∀ node ∈ covered, node.info.end_ ≤ packet.info.end_
  rest : ∀ node ∈ rest, packet.info.end_ < node.info.end_

/-- The loop over the fragments behind the insert point drops the packet only if one of
them covers it. -/
theorem scanBehind_spec
    (hordered : Ordered after)
    (hlength : ∀ node ∈ after, node.info.length = node.info.end_ - node.info.start)
    (hinside : ∀ node ∈ after, packet.info.start < node.info.start →
      node.info.start < packet.info.end_ → node.info.end_ ≤ packet.info.end_)
    (hstart : ∀ node ∈ after, packet.info.start ≤ node.info.start) :
    ∃ covered rest, Scanned packet after covered rest ∧
      ((scanBehind packet after curLen = some ⟨some packet, rest, curLen - total covered⟩ ∧
          ∀ node ∈ rest, packet.info.end_ ≤ node.info.start) ∨
        (scanBehind packet after curLen = some ⟨none, rest, curLen - total covered⟩ ∧
          ∃ node ∈ rest, node.info.start = packet.info.start)) := by
  induction after generalizing curLen with
  | nil =>
      refine ⟨[], [], ⟨rfl, ?_, ?_⟩, Or.inl ⟨?_, ?_⟩⟩
      · exact fun node hnode => absurd hnode not_mem_nil
      · exact fun node hnode => absurd hnode not_mem_nil
      · rw [total_nil, sub_zero]
        rfl
      · exact fun node hnode => absurd hnode not_mem_nil
  | cons node after ih =>
      obtain ⟨_, hbehind, hrest⟩ := ordered_cons.mp hordered
      rw [scanBehind]
      by_cases hcovered : node.info.end_ ≤ packet.info.end_
      · obtain ⟨covered, rest, hscanned, hcases⟩ :=
          @ih (curLen - node.info.length) hrest
            (fun b hb => hlength b (mem_cons_of_mem _ hb))
            (fun b hb => hinside b (mem_cons_of_mem _ hb))
            (fun b hb => hstart b (mem_cons_of_mem _ hb))
        have hsum : curLen - node.info.length - total covered =
            curLen - total (node :: covered) := by
          rw [total_cons, hlength node mem_cons_self, first_eq, stop_eq]
          omega
        rw [if_pos hcovered]
        rw [hsum] at hcases
        refine ⟨node :: covered, rest, ⟨?_, ?_, hscanned.rest⟩, hcases⟩
        · rw [hscanned.split, cons_append]
        · exact forall_mem_cons.mpr ⟨hcovered, hscanned.covered⟩
      · have hreaches : packet.info.end_ < node.info.end_ := not_le.mp hcovered
        have hall : ∀ b ∈ node :: after, packet.info.end_ < b.info.end_ := by
          refine forall_mem_cons.mpr ⟨hreaches, fun b hb => ?_⟩
          have hab : node.info.end_ ≤ b.info.start := hbehind b hb
          have hb' : b.info.start ≤ b.info.end_ := hrest.1 b hb
          omega
        have hscanned : Scanned packet (node :: after) [] (node :: after) :=
          ⟨rfl, fun b hb => absurd hb not_mem_nil, hall⟩
        refine ⟨[], node :: after, hscanned, ?_⟩
        rw [if_neg hcovered, total_nil, sub_zero]
        by_cases hoverlap : node.info.start < packet.info.end_
        · have hsame : packet.info.start = node.info.start := by
            by_contra hne
            have hlt := lt_of_le_of_ne (hstart node mem_cons_self) hne
            exact hcovered (hinside node mem_cons_self hlt hoverlap)
          rw [if_pos hoverlap, if_pos hsame]
          exact Or.inr ⟨rfl, node, mem_cons_self, hsame.symm⟩
        · rw [if_neg hoverlap]
          refine Or.inl ⟨rfl, forall_mem_cons.mpr ⟨not_lt.mp hoverlap, fun b hb => ?_⟩⟩
          have hab : node.info.end_ ≤ b.info.start := hbehind b hb
          omega

end Behind

end Ip4
end Udk
