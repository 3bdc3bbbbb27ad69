import Udk.Fat.GrowLoop
import Udk.Fat.ShrinkEof

/-!
# Growing a file

When `FatGrowEof` finds its clusters, and what it leaves of the chain when it does not.
-/

namespace Udk
namespace Fat

open LinkedTable List

variable {g : Geometry} {v v' : Volume g} {l : List Nat} {others : List (List Nat)} {o o' : OFile}
  {k rounds newSize : Nat}

/-- The search for the clusters counts the free ones again when it comes to the end. -/
def Recounted (v : Volume g) : Prop :=
  CountsAgain v (v.clusterCount - ((freeAhead v).length - 1))

instance : Decidable (Recounted v) :=
  inferInstanceAs (Decidable (CountsAgain ..))

/-- One cluster more than there are free ones, and the last of them is found a second time. -/
def LinksItself (v : Volume g) (k : Nat) : Prop :=
  k = (freeClusters v).length + 1 ∧ 0 < (freeClusters v).length ∧ Recounted v

instance : Decidable (LinksItself v k) :=
  inferInstanceAs (Decidable (_ ∧ _ ∧ _))

/-- The clusters that the search finds. -/
def Found (v : Volume g) (k : Nat) : Prop :=
  k ≤ (freeAhead v).length ∨ Recounted v ∧ k ≤ (freeClusters v).length

instance : Decidable (Found v k) :=
  inferInstanceAs (Decidable (_ ∨ _))

section Start

theorem filter_lt_append_filter_le
    {sorted : List Nat}
    (hsorted : sorted.Pairwise (· < ·))
    (bound : Nat) :
    sorted.filter (· < bound) ++ sorted.filter (bound ≤ ·) = sorted := by
  induction sorted with
  | nil => rfl
  | cons a sorted ih =>
      obtain ⟨hfirst, hrest⟩ := pairwise_cons.mp hsorted
      by_cases ha : a < bound
      · simp only [filter_cons, ha, Nat.not_le.mpr ha, decide_true, decide_false, if_true,
          Bool.false_eq_true, if_false, cons_append, ih hrest]
      · have hbefore : sorted.filter (· < bound) = [] := filter_eq_nil_iff.mpr fun b hb => by
          have hab := hfirst b hb
          rw [decide_eq_true_eq]
          omega
        have hall := ih hrest
        rw [hbefore, nil_append] at hall
        simp only [filter_cons, ha, Nat.le_of_not_lt ha, decide_true, decide_false, if_true,
          Bool.false_eq_true, if_false, hbefore, hall, nil_append]

theorem filling_start
    (hocc : Occupies (slot v) (IsCluster g) (l :: others))
    (htwo : fatMinCluster ≤ v.nextCluster) :
    Filling v l others ((freeClusters v).filter (· < v.nextCluster)) [] (freeAhead v) := by
  have hsplit := filter_lt_append_filter_le (@freeClusters_sorted g v) v.nextCluster
  refine ⟨hocc.growing, ?_, Or.inl rfl, fun c hc hl => ?_, fun c hc => ?_, fun c hc => ?_, htwo⟩
  case refine_1 =>
    rw [append_nil]
    exact hsplit.symm
  case refine_2 =>
    have hfree : c ∈ freeClusters v := hsplit ▸ hc
    have hentry := (mem_freeClusters.mp hfree).2
    exact (hocc.chain l mem_cons_self).not_free hl (slot_eq_free.mpr hentry)
  case refine_3 =>
    rw [append_nil] at hc
    exact of_decide_eq_true (mem_filter.mp hc).2
  case refine_4 => exact of_decide_eq_true (mem_filter.mp hc).2

theorem free_length :
    (freeAhead v).length + ((freeClusters v).filter (· < v.nextCluster)).length =
      (freeClusters v).length := by
  have hsplit := congrArg List.length
    (filter_lt_append_filter_le (@freeClusters_sorted g v) v.nextCluster)
  rw [length_append] at hsplit
  rw [Nat.add_comm]
  exact hsplit

theorem lastCluster_spec
    (hocc : Occupies (slot v) (IsCluster g) (l :: others))
    (hopen : OpenFile g o l)
    (hrounds : g.maxCluster < rounds) :
    lastCluster rounds v o = some (true, { o with fileLastCluster := l.getLast?.getD 0 }) := by
  have hlength := Nat.lt_of_le_of_lt (chain_length hocc) hrounds
  rw [lastCluster]
  by_cases hfirst : o.fileCluster ≠ 0 ∧ o.fileLastCluster = 0
  · rw [if_pos hfirst, hfirst.2]
    have hfollows : Follows o.fileCluster l := by
      rw [hopen.head]
      cases l with
      | nil => exact absurd hopen.head hfirst.1
      | cons a l => rfl
    rw [findLast_spec (hocc.chain l mem_cons_self)
      (fun a ha => hocc.inside a (mem_append_left _ ha)) hfollows hlength]
    simp only [Option.bind_eq_bind, Option.bind_some, Nat.zero_add, hopen.length, decide_true]
  · rw [if_neg hfirst]
    have hlast : o.fileLastCluster = l.getLast?.getD 0 := by
      rcases hopen.isLast with hzero | hlast
      · have hhead := hopen.head
        cases l with
        | nil => exact hzero
        | cons a l =>
            have ha := hocc.inside a mem_cons_self
            refine absurd ⟨?_, hzero⟩ hfirst
            rw [hhead]
            exact ha.not_special.1
      · rw [hlast, Option.getD_some]
    rw [← hlast]

end Start

section Growing

/-- A consistent FAT in which the chain of the file has been extended. -/
structure Extended (v' : Volume g) (o o' : OFile) (l l' : List Nat)
    (others : List (List Nat)) : Prop where
  occupies : Occupies (slot v') (IsCluster g) (l' :: others)
  isOpen : OpenFile g o' l'
  keeps : l <+: l'
  two_le : fatMinCluster ≤ v'.nextCluster
  advanced : Advanced { o with fileSize := o'.fileSize } o'

theorem grown_close
    {last n : Nat}
    {new : List Nat}
    (hgrown : Grown v o o' (l ++ new) others last)
    (hnew : new.length = n)
    (hn : 0 < n)
    (hsize : fatSizeToClusters g newSize = l.length + n) :
    ∃ v', fatSetFatEntry v last fatClusterLast = some v' ∧
      Extended v' o { o' with fileLastCluster := last, fileSize := newSize, dirty := true }
        l (l ++ new) others := by
  obtain ⟨front, a, hfront⟩ : ∃ front a, l ++ new = front ++ [a] := by
    rcases eq_nil_or_concat (l ++ new) with hnil | ⟨front, a, h⟩
    · rw [(append_eq_nil_iff.mp hnil).2, length_nil] at hnew
      omega
    · exact ⟨front, a, h.trans (concat_eq_append ..)⟩
  have hlast : last = a := by rw [hgrown.isLast, hfront, concat_last]
  have hgrow := hgrown.growing
  rw [hfront] at hgrow
  have ha : IsCluster g a := hgrow.inside a
    (mem_append_left _ (mem_append_right _ (mem_singleton_self a)))
  obtain ⟨v', hv', hset⟩ := @fatSetFatEntry_spec g v a fatClusterLast ha last_value
  refine ⟨v', hlast ▸ hv', ?_, ⟨?_, hgrown.head, Or.inr ?_⟩, prefix_append l new,
    hset.next_le ha hgrown.two_le, rfl, hgrown.advanced.position,
    hgrown.advanced.isFixedRootDir, hgrown.advanced.cursor⟩
  case refine_1 =>
    rw [hfront]
    exact hgrow.close.congr fun i hi => hset.slot hi
  case refine_2 => rw [length_append, hnew, hsize]
  case refine_3 => rw [hfront, hlast, getLast?_concat]

theorem giveUp_spec
    {new : List Nat}
    {status : EfiStatus}
    (hrounds : g.maxCluster < rounds)
    (hocc : Occupies (slot v) (IsCluster g) ((l ++ new) :: others))
    (hhead : o'.fileCluster = (l ++ new).head?.getD 0)
    (hempty : l ++ new = [] → o'.fileLastCluster = 0)
    (hlength : l.length = fatSizeToClusters g o.fileSize)
    (hadvanced : Advanced o o')
    (htwo : fatMinCluster ≤ v.nextCluster) :
    ∃ v' o'', giveUp rounds status v o' = some (status, v', o'') ∧
      Extended v' o o'' l l others ∧ o''.fileSize = o.fileSize := by
  have hsize : fatSizeToClusters g o'.fileSize = l.length := by rw [hadvanced.fileSize, hlength]
  have hle : fatSizeToClusters g o'.fileSize ≤ (l ++ new).length := by
    rw [hsize, length_append]
    exact Nat.le_add_right ..
  obtain ⟨v', o'', hrun, hfree, hopen, htwo', hadvanced', -⟩ :=
    fatShrinkEof_spec hocc hhead hempty hle htwo hrounds
  rw [hsize, take_left] at hfree hopen
  have hall := hadvanced.trans hadvanced'
  refine ⟨v', o'', ?_, ⟨hfree, hopen, prefix_refl l, htwo', rfl, hall.position,
    hall.isFixedRootDir, hall.cursor⟩,
    hall.fileSize⟩
  rw [giveUp, hrun]
  rfl

theorem fatGrowEof_spec
    (hrounds : g.maxCluster + 2 < rounds)
    (hocc : Occupies (slot v) (IsCluster g) (l :: others))
    (hopen : OpenFile g o l)
    (htwo : fatMinCluster ≤ v.nextCluster)
    (hsize : fatSizeToClusters g o.fileSize ≤ fatSizeToClusters g newSize)
    (hself : newSize ≤ 0xFFFFFFFF →
      ¬ LinksItself v (fatSizeToClusters g newSize - fatSizeToClusters g o.fileSize)) :
    ∃ status v' o' l', fatGrowEof rounds v o newSize = some (status, v', o') ∧
      Extended v' o o' l l' others ∧
      (status = .success ↔ newSize ≤ 0xFFFFFFFF ∧
        Found v (fatSizeToClusters g newSize - fatSizeToClusters g o.fileSize)) ∧
      (status = .success → o'.fileSize = newSize) ∧
      (status ≠ .success → l' = l ∧ o'.fileSize = o.fileSize ∧
        (newSize ≤ 0xFFFFFFFF → status = .volumeFull)) := by
  have hsame : Extended v o o l l others :=
    ⟨hocc, hopen, prefix_refl l, htwo, Advanced.refl o⟩
  rw [fatGrowEof]
  by_cases hlarge : 0xFFFFFFFF < newSize
  · refine ⟨.unsupported, v, o, l, ?_, hsame, ?_, by simp,
      fun _ => ⟨rfl, rfl, fun h => absurd h (Nat.not_le.mpr hlarge)⟩⟩
    · simp only [hlarge, if_true]
    · exact iff_of_false (by simp) fun h => absurd h.1 (Nat.not_le.mpr hlarge)
  · simp only [hlarge, if_false]
    by_cases hgrows : fatSizeToClusters g o.fileSize < fatSizeToClusters g newSize
    · simp only [hgrows, if_true]
      have hfill := filling_start hocc htwo
      have hlengths := @free_length g v
      have hrecounts : Recounts v [] (freeAhead v) ↔ Recounted v := by
        rw [Recounts, Recounted, length_nil, Nat.sub_zero]
      have hshort : ¬ (Recounts v [] (freeAhead v) ∧
          fatSizeToClusters g newSize - fatSizeToClusters g o.fileSize = (freeAhead v).length +
            ((freeClusters v).filter (· < v.nextCluster)).length + 1 ∧
          0 < (freeAhead v).length + ((freeClusters v).filter (· < v.nextCluster)).length +
            ([] : List Nat).length) := by
        rw [hlengths, hrecounts]
        rintro ⟨hagain, hk, hpos⟩
        exact hself (Nat.le_of_not_lt hlarge) ⟨hk, hpos, hagain⟩
      obtain ⟨enough, w, p, last, new, hrun, hgrown, hiff, hnew, hfull⟩ :=
        @growLoop_spec g v l _ [] _ others { o with fileLastCluster := l.getLast?.getD 0 } _ rounds
          hrounds hfill hopen.head hshort
      rw [hlengths, hrecounts] at hiff
      rw [lastCluster_spec hocc hopen (by omega)]
      simp only [Option.bind_eq_bind, Option.bind_some, if_true, hrun]
      have hadvanced : Advanced o p :=
        ⟨hgrown.advanced.fileSize, hgrown.advanced.position, hgrown.advanced.isFixedRootDir,
          hgrown.advanced.cursor⟩
      have hfound : enough = true ↔ newSize ≤ 0xFFFFFFFF ∧
          Found v (fatSizeToClusters g newSize - fatSizeToClusters g o.fileSize) :=
        hiff.trans (and_iff_right (Nat.le_of_not_lt hlarge)).symm
      cases enough with
      | true =>
          have hgrown' : Grown w p p (l ++ new) others last :=
            ⟨hgrown.growing, hgrown.isLast, hgrown.head, fun _ => rfl, hgrown.two_le,
              Advanced.refl p⟩
          obtain ⟨v', hv', hextended⟩ := @grown_close g w l others p p newSize last _ new hgrown'
            (hnew rfl) (by omega) (by rw [hopen.length]; omega)
          refine ⟨.success, v', _, l ++ new, ?_, ⟨hextended.occupies, hextended.isOpen,
            hextended.keeps, hextended.two_le, rfl, hadvanced.position,
              hadvanced.isFixedRootDir, hadvanced.cursor⟩,
            iff_of_true rfl (hfound.mp rfl), fun _ => rfl, fun h => absurd rfl h⟩
          simp only [if_true, hv', Option.bind_some]
      | false =>
          have hempty : l ++ new = [] → p.fileLastCluster = 0 := by
            intro hnil
            rw [hgrown.empty hnil, (append_eq_nil_iff.mp hnil).1]
            rfl
          obtain ⟨v', o', hgive, hextended, hold⟩ := @giveUp_spec g w l others o p rounds new
            .volumeFull (by omega) (hfull rfl) hgrown.head hempty hopen.length hadvanced
            hgrown.two_le
          refine ⟨.volumeFull, v', o', l, ?_, hextended, ?_, by simp,
            fun _ => ⟨rfl, hold, fun _ => rfl⟩⟩
          · simp only [Bool.false_eq_true, if_false, hgive]
          · exact iff_of_false (by simp) fun h => Bool.false_ne_true (hfound.mpr h)
    · have heq := Nat.le_antisymm hsize (Nat.le_of_not_lt hgrows)
      refine ⟨.success, v, { o with fileSize := newSize, dirty := true }, l, ?_,
        ⟨hocc, ⟨hopen.length.trans heq, hopen.head, hopen.isLast⟩, prefix_refl l, htwo, rfl,
          rfl, rfl, Or.inl ⟨rfl, rfl⟩⟩, ?_, fun _ => rfl, fun h => absurd rfl h⟩
      · simp only [hgrows, if_false]
      · refine iff_of_true rfl ⟨Nat.le_of_not_lt hlarge, Or.inl ?_⟩
        rw [heq, Nat.sub_self]
        exact Nat.zero_le _

end Growing

end Fat
end Udk
