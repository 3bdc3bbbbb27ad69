import Udk.Fat.Filling

/-!
# The loop of `FatGrowEof`

Each round puts a free cluster into the chain, unless the only cluster that still counts as free
is the one of the round before: then that one is linked to itself.
-/

namespace Udk
namespace Fat

open LinkedTable List

variable {g : Geometry} {v v' w : Volume g} {l behind pending ahead rest : List Nat}
  {others : List (List Nat)} {o o' : OFile} {a c n rounds last : Nat}

section Rounds

theorem growLoop_round
    (halloc : fatAllocateCluster rounds v = some (c, w))
    (hend : ¬ fatEndOfFatChain c)
    (hlink : linkCluster w o last c = some (v', o')) :
    growLoop rounds (n + 1) v o last = growLoop rounds n v' o' c := by
  rw [growLoop, halloc]
  simp only [Option.bind_eq_bind, Option.bind_some, hend, if_false, hlink]

variable (hrounds : g.maxCluster + 2 < rounds)
include hrounds

/-- The next free cluster. -/
theorem Filling.take
    (hfill : Filling v l others behind pending (c :: rest))
    (hhead : o.fileCluster = l.head?.getD 0) :
    ∃ v' o', (∀ n, growLoop rounds (n + 1) v o (l.getLast?.getD 0) = growLoop rounds n v' o' c) ∧
      Filling v' (l ++ [c]) others behind [c] rest ∧ v'.freeInfoValid = v.freeInfoValid ∧
      v'.clusterCount = v.clusterCount - pending.length ∧
      o'.fileCluster = (l ++ [c]).head?.getD 0 ∧ Advanced o o' := by
  have hc : c ∈ behind ++ (c :: rest) := mem_append_right _ mem_cons_self
  have hcluster := (hfill.not_mem hc).1
  obtain ⟨v', o', hlink, hgrow, hfree, hvalid, hcount, hnext, hhead', hadvanced⟩ :=
    @Filling.link g v l behind pending (c :: rest) others o c v.clusterCount (c + 1)
      v.freeInfoValid hfill hhead hc
  refine ⟨v', o', fun n => growLoop_round
    (fatAllocateCluster_ahead hfill.two_le hfill.freeAhead hrounds) hcluster.not_end hlink,
    ⟨hgrow, ?_, Or.inr ⟨c, rfl, ?_⟩, fun i hi => ?_, fun i hi => ?_, fun i hi => ?_, ?_⟩,
    hvalid, hcount, hhead', hadvanced⟩
  case refine_1 => rw [hfree, append_assoc, singleton_append]
  case refine_2 => rw [getLast?_append, getLast?_singleton, Option.some_or]
  case refine_3 =>
    have hi' : i ∈ behind ++ (c :: rest) := by
      simp only [mem_append, mem_cons] at hi ⊢
      tauto
    have hnodup := hfill.nodup
    simp only [mem_append, mem_singleton, not_or]
    refine ⟨hfill.apart i hi', ?_⟩
    rintro rfl
    rcases mem_append.mp hi with hi | hi
    · exact disjoint_of_nodup_append hnodup (mem_append_left _ hi) mem_cons_self
    · exact (nodup_cons.mp (List.Nodup.of_append_right hnodup)).1 hi
  case refine_4 =>
    have hle := hfill.after c mem_cons_self
    rw [hnext]
    rcases mem_append.mp hi with hi | hi
    · have := hfill.before i (mem_append_left _ hi)
      omega
    · rw [mem_singleton.mp hi]
      exact Nat.lt_succ_self c
  case refine_5 =>
    have hsorted := @freeClusters_sorted g v
    rw [hfill.free] at hsorted
    rw [hnext]
    exact (pairwise_cons.mp (pairwise_append.mp hsorted).2.1).1 i hi
  case refine_6 =>
    rw [hnext]
    exact hcluster.1.trans (Nat.le_succ c)

/-- The free clusters have been counted again. -/
theorem Filling.wrap
    (hfill : Filling v l others (c :: rest) pending [])
    (hagain : CountsAgain v v.clusterCount)
    (hhead : o.fileCluster = l.head?.getD 0) :
    ∃ v' o', (∀ n, growLoop rounds (n + 1) v o (l.getLast?.getD 0) = growLoop rounds n v' o' c) ∧
      Filling v' (l ++ [c]) others [] [c] rest ∧ v'.freeInfoValid = true ∧
      v'.clusterCount = rest.length + 1 ∧
      o'.fileCluster = (l ++ [c]).head?.getD 0 ∧ Advanced o o' := by
  have hc : c ∈ (c :: rest) ++ [] := mem_append_left _ mem_cons_self
  have hcluster := (hfill.not_mem hc).1
  have hfreeAll : freeClusters v = c :: (rest ++ pending) := by
    rw [hfill.free, append_nil, cons_append]
  obtain ⟨v', o', hlink, hgrow, hfree, hvalid, hcount, hnext, hhead', hadvanced⟩ :=
    @Filling.link g v l (c :: rest) pending [] others o c ((rest ++ pending).length + 1) (c + 1)
      true hfill hhead hc
  have hsorted := @freeClusters_sorted g v
  rw [hfreeAll, pairwise_cons] at hsorted
  refine ⟨v', o', fun n => growLoop_round (fatAllocateCluster_again hfill.two_le hfill.freeAhead
    hagain hfreeAll hrounds) hcluster.not_end hlink,
    ⟨hgrow, ?_, Or.inr ⟨c, rfl, ?_⟩, fun i hi => ?_, fun i hi => ?_, fun i hi => ?_, ?_⟩,
    hvalid, ?_, hhead', hadvanced⟩
  case refine_1 =>
    rw [hfree, append_nil]
    rfl
  case refine_2 => rw [getLast?_append, getLast?_singleton, Option.some_or]
  case refine_3 =>
    simp only [mem_append, mem_singleton, not_or]
    refine ⟨hfill.apart i (mem_append_left _ (mem_cons_of_mem c hi)), ?_⟩
    have := hsorted.1 i (mem_append_left _ hi)
    exact (Nat.ne_of_lt this).symm
  case refine_4 =>
    rw [hnext, mem_singleton.mp hi]
    exact Nat.lt_succ_self c
  case refine_5 =>
    rw [hnext]
    exact hsorted.1 i (mem_append_left _ hi)
  case refine_6 =>
    rw [hnext]
    exact hcluster.1.trans (Nat.le_succ c)
  case refine_7 =>
    rw [hcount, length_append]
    omega

theorem Filling.again
    (hfill : Filling v (l ++ [a]) others [] [a] [])
    (hagain : CountsAgain v v.clusterCount) :
    ∃ v', (∀ n, growLoop rounds (n + 1) v o a = growLoop rounds n v' o a) ∧
      Filling v' (l ++ [a]) others [] [] [] ∧ v'.freeInfoValid = true ∧ v'.clusterCount = 0 := by
  have ha := hfill.last_cases.1
  obtain ⟨v', hv', hslot, hfree, hvalid, hcount, hnext⟩ :=
    @Filling.setLast g v l [] [a] [] others a a 1 (a + 1) true hfill ha.entryValue
      ha.not_special.1
  have hlink : linkCluster (v.withInfo true 1 (a + 1)) o a a = some (v', o) := by
    rw [linkCluster, if_pos ha.not_special.1, hv']
    rfl
  refine ⟨v', fun n => growLoop_round (fatAllocateCluster_again hfill.two_le hfill.freeAhead
    hagain hfill.free hrounds) ha.not_end hlink,
    ⟨(hfill.growing.setLast (slotOf a)).congr hslot, hfree, Or.inl rfl, by simp, by simp, by simp, ?_⟩,
    hvalid, hcount⟩
  rw [hnext]
  exact ha.1.trans (Nat.le_succ a)

/-- No cluster is found: the chain gets its end mark. -/
theorem Filling.full
    (hfill : Filling v l others behind pending [])
    (hfull : ¬ CountsAgain v v.clusterCount ∨ behind ++ pending = [])
    (hhead : o.fileCluster = l.head?.getD 0)
    (n : Nat) :
    ∃ v' o', growLoop rounds (n + 1) v o (l.getLast?.getD 0) =
        some (false, v', o', l.getLast?.getD 0) ∧
      Occupies (slot v') (IsCluster g) (l :: others) ∧ fatMinCluster ≤ v'.nextCluster ∧
      o'.fileCluster = l.head?.getD 0 ∧ (l = [] → o'.fileLastCluster = o.fileLastCluster) ∧
      Advanced o o' := by
  have hnone : ¬ CountsAgain v v.clusterCount ∨ freeClusters v = [] := by
    rw [hfill.free, append_nil]
    exact hfull
  obtain ⟨valid, count, next, hnext, halloc⟩ :=
    fatAllocateCluster_full hfill.two_le hfill.freeAhead hnone hrounds
  have htwo : fatMinCluster ≤ next := by
    simp only [fatMinCluster]
    omega
  have hend : fatEndOfFatChain fatClusterLast := by decide
  rcases eq_nil_or_concat l with rfl | ⟨front, a, rfl⟩
  · refine ⟨v.withInfo valid count next, o, ?_, hfill.growing.occupies, htwo, hhead,
      fun _ => rfl, Advanced.refl o⟩
    rw [growLoop, halloc]
    simp only [Option.bind_eq_bind, Option.bind_some, hend, if_true]
    rfl
  · rw [concat_eq_append] at hfill hhead ⊢
    have ha := hfill.last_cases.1
    obtain ⟨v', hv', hslot, -, -, -, hnext'⟩ :=
      @Filling.setLast g v front behind pending [] others a fatClusterLast count next valid hfill
        last_value (by decide)
    refine ⟨v', { o with fileLastCluster := a }, ?_, hfill.growing.close.congr hslot,
      hnext'.symm ▸ htwo, hhead, fun hnil => ?_, rfl, rfl, rfl, Or.inl ⟨rfl, rfl⟩⟩
    · rw [growLoop, halloc, concat_last]
      simp only [Option.bind_eq_bind, Option.bind_some, hend, if_true, ne_eq, ha.not_special.1,
        not_false_eq_true, hv']
    · exact absurd hnil (append_ne_nil_of_right_ne_nil _ (cons_ne_nil a []))

end Rounds

section Loop

/-- A volume in which a chain has been extended. -/
structure Grown (v' : Volume g) (o o' : OFile) (l : List Nat) (others : List (List Nat))
    (last : Nat) : Prop where
  growing : Growing (slot v') (IsCluster g) l others
  isLast : last = l.getLast?.getD 0
  head : o'.fileCluster = l.head?.getD 0
  empty : l = [] → o'.fileLastCluster = o.fileLastCluster
  two_le : fatMinCluster ≤ v'.nextCluster
  advanced : Advanced o o'

/-- The free clusters are counted again when the search comes to the end. -/
def Recounts (v : Volume g) (pending ahead : List Nat) : Prop :=
  CountsAgain v (v.clusterCount - (ahead.length - (1 - pending.length)))

theorem Filling.pending_length
    (hfill : Filling v l others behind pending ahead) :
    pending.length ≤ 1 := by
  rcases hfill.isLast with hpending | ⟨a, hpending, -⟩
  · rw [hpending]
    exact Nat.zero_le 1
  · rw [hpending]
    exact Nat.le_refl 1

theorem recounts_take
    (hvalid : v'.freeInfoValid = v.freeInfoValid)
    (hcount : v'.clusterCount = v.clusterCount - pending.length)
    (hpending : pending.length ≤ 1) :
    Recounts v' [c] rest ↔ Recounts v pending (c :: rest) := by
  have heq : v.clusterCount - pending.length - (rest.length - (1 - 1)) =
      v.clusterCount - (rest.length + 1 - (1 - pending.length)) := by omega
  rw [Recounts, Recounts, CountsAgain, CountsAgain, hvalid, hcount, length_singleton,
    length_cons, heq]

theorem recounts_counted
    (hcount : v.clusterCount = rest.length + 1)
    (hrest : rest.length < 2 ^ 28) :
    Recounts v [c] rest := by
  refine Or.inr ?_
  rw [hcount, length_singleton]
  omega

theorem Filling.stop
    (hrounds : g.maxCluster + 2 < rounds)
    (hfill : Filling v l others behind pending [])
    (hfull : ¬ CountsAgain v v.clusterCount ∨ behind ++ pending = [])
    (hhead : o.fileCluster = l.head?.getD 0)
    (n : Nat) :
    ∃ enough v' o' last new,
      growLoop rounds (n + 1) v o (l.getLast?.getD 0) = some (enough, v', o', last) ∧
      Grown v' o o' (l ++ new) others last ∧
      (enough = true ↔ n + 1 ≤ 0 ∨ CountsAgain v v.clusterCount ∧ n + 1 ≤ 0 + behind.length) ∧
      (enough = true → new.length = n + 1) ∧
      (enough = false → Occupies (slot v') (IsCluster g) ((l ++ new) :: others)) := by
  obtain ⟨v', o', hrun, hocc, htwo, hhead', hempty, hadvanced⟩ := hfill.full hrounds hfull hhead n
  refine ⟨false, v', o', _, [], hrun, ?_, ?_, nofun, fun _ => ?_⟩
  case refine_1 =>
    rw [append_nil]
    exact ⟨hocc.growing, rfl, hhead', hempty, htwo, hadvanced⟩
  case refine_2 =>
    refine iff_of_false Bool.false_ne_true ?_
    rintro (hlt | ⟨hagain, hlt⟩)
    · omega
    · rw [(append_eq_nil_iff.mp (hfull.resolve_left (not_not.mpr hagain))).1,
        length_nil] at hlt
      omega
  case refine_3 =>
    rw [append_nil]
    exact hocc

theorem growLoop_spec
    (hrounds : g.maxCluster + 2 < rounds)
    (hfill : Filling v l others behind pending ahead)
    (hhead : o.fileCluster = l.head?.getD 0)
    (hshort : ¬ (Recounts v pending ahead ∧ n = ahead.length + behind.length + 1 ∧
      0 < ahead.length + behind.length + pending.length)) :
    ∃ enough v' o' last new,
      growLoop rounds n v o (l.getLast?.getD 0) = some (enough, v', o', last) ∧
      Grown v' o o' (l ++ new) others last ∧
      (enough = true ↔
        n ≤ ahead.length ∨ Recounts v pending ahead ∧ n ≤ ahead.length + behind.length) ∧
      (enough = true → new.length = n) ∧
      (enough = false → Occupies (slot v') (IsCluster g) ((l ++ new) :: others)) := by
  induction n generalizing v o l behind pending ahead with
  | zero =>
      refine ⟨true, v, o, _, [], rfl, ?_, ?_, fun _ => rfl, nofun⟩
      · rw [append_nil]
        exact ⟨hfill.growing, rfl, hhead, fun _ => rfl, hfill.two_le, Advanced.refl o⟩
      · exact iff_of_true rfl (Or.inl (Nat.zero_le _))
  | succ n ih =>
      have hlength := hfill.pending_length
      cases ahead with
      | cons c rest =>
          obtain ⟨v', o', hround, hfill', hvalid, hcount, hhead', hadvanced⟩ :=
            hfill.take hrounds hhead
          have hrecounts := @recounts_take g v v' pending rest c hvalid hcount hlength
          simp only [length_cons] at hshort ⊢
          obtain ⟨enough, w, p, last, new, hrun, hgrown, hiff, hnew, hocc⟩ :=
            ih hfill' hhead' (fun h => hshort ⟨hrecounts.mp h.1, by omega, by omega⟩)
          rw [concat_last] at hrun
          rw [append_assoc, singleton_append] at hgrown hocc
          have hne : l ++ c :: new = [] → p.fileLastCluster = o.fileLastCluster :=
            fun hnil => absurd hnil (append_ne_nil_of_right_ne_nil l (cons_ne_nil c new))
          refine ⟨enough, w, p, last, c :: new, (hround n).trans hrun,
            ⟨hgrown.growing, hgrown.isLast, hgrown.head, hne, hgrown.two_le,
              hadvanced.trans hgrown.advanced⟩, ?_, fun h => congrArg (· + 1) (hnew h), hocc⟩
          rw [hiff, hrecounts]
          exact or_congr (by omega) (and_congr_right fun _ => by omega)
      | nil =>
          have hcounted : Recounts v pending [] ↔ CountsAgain v v.clusterCount := by
            rw [Recounts, length_nil, Nat.zero_sub, Nat.sub_zero]
          rw [hcounted] at hshort ⊢
          by_cases hagain : CountsAgain v v.clusterCount
          · cases behind with
            | cons c rest =>
                obtain ⟨v', o', hround, hfill', _, hcount, hhead', hadvanced⟩ :=
                  hfill.wrap hrounds hagain hhead
                have hrest : rest.length < 2 ^ 28 := by
                  have hmax := maxCluster_lt g
                  have hfree := @freeClusters_length g v'
                  rw [hfill'.free, length_append] at hfree
                  omega
                have hrecounts := @recounts_counted g v' rest c hcount hrest
                simp only [length_cons, length_nil] at hshort ⊢
                have hshort' : ¬ (Recounts v' [c] rest ∧
                    n = rest.length + ([] : List Nat).length + 1 ∧
                    0 < rest.length + ([] : List Nat).length + [c].length) := by
                  rintro ⟨-, hn, -⟩
                  rw [length_nil] at hn
                  exact hshort ⟨hagain, by omega, by omega⟩
                obtain ⟨enough, w, p, last, new, hrun, hgrown, hiff, hnew, hocc⟩ :=
                  ih hfill' hhead' hshort'
                rw [concat_last] at hrun
                rw [append_assoc, singleton_append] at hgrown hocc
                have hne : l ++ c :: new = [] → p.fileLastCluster = o.fileLastCluster :=
                  fun hnil => absurd hnil
                    (append_ne_nil_of_right_ne_nil l (cons_ne_nil c new))
                refine ⟨enough, w, p, last, c :: new, (hround n).trans hrun,
                  ⟨hgrown.growing, hgrown.isLast, hgrown.head, hne, hgrown.two_le,
                    hadvanced.trans hgrown.advanced⟩, ?_, fun h => congrArg (· + 1) (hnew h), hocc⟩
                rw [hiff]
                simp only [hrecounts, hagain, true_and, length_nil]
                omega
            | nil =>
                rcases hfill.isLast with hpending | ⟨a, hpending, hlast⟩
                · exact hfill.stop hrounds (Or.inr hpending) hhead n
                · obtain ⟨front, rfl⟩ := getLast?_eq_some_iff.mp hlast
                  subst hpending
                  obtain ⟨v', hround, hfill', _, _⟩ := hfill.again hrounds hagain
                  obtain ⟨enough, w, p, last, new, hrun, hgrown, hiff, hnew, hocc⟩ :=
                    ih hfill' hhead (fun h => Nat.lt_irrefl 0 h.2.2)
                  -- one cluster more would have been a link of the last one to itself
                  have hn : n ≠ 0 := by
                    rintro rfl
                    exact hshort ⟨hagain, rfl, Nat.one_pos⟩
                  simp only [length_nil, Nat.add_zero, Nat.le_zero, hn, and_false, or_false,
                    iff_false] at hiff
                  rw [concat_last] at hrun ⊢
                  refine ⟨enough, w, p, last, new, (hround n).trans hrun, hgrown, ?_,
                    fun h => absurd h hiff, hocc⟩
                  refine iff_of_false hiff ?_
                  simp only [length_nil, Nat.add_zero, Nat.le_zero, Nat.succ_ne_zero,
                    and_false, or_false, not_false_eq_true]
          · exact hfill.stop hrounds (Or.inl hagain) hhead n

end Loop

end Fat
end Udk
