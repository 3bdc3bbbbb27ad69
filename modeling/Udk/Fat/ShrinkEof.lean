import Udk.Fat.Filling

/-!
# Shrinking a chain

`FatShrinkEof` cuts the chain behind the clusters that the file size needs and frees the rest.
-/

namespace Udk
namespace Fat

open LinkedTable List

variable {g : Geometry} {v v' : Volume g} {l front back : List Nat} {others : List (List Nat)}
  {o : OFile} {a cluster last n rounds count : Nat}

/-- What a walk along the chain finds behind a cluster. -/
def Follows (cluster : Nat) : List Nat → Prop
  | [] => fatEndOfFatChain cluster
  | a :: _ => cluster = a

/-- The routine is told where the chain begins. -/
structure OpenFile (g : Geometry) (o : OFile) (l : List Nat) : Prop where
  length : l.length = fatSizeToClusters g o.fileSize
  head : o.fileCluster = l.head?.getD 0
  isLast : o.fileLastCluster = 0 ∨ l.getLast? = some o.fileLastCluster

section Walk

theorem follows_entry
    (hchain : Chain (slot v) (a :: l)) :
    Follows (fatGetFatEntry v a) l := by
  cases l with
  | nil => exact slot_eq_last (hchain.2 a rfl)
  | cons b l => exact slot_eq_link hchain.1.1

theorem IsCluster.not_corrupt
    (ha : IsCluster g a) :
    ¬ corruptCluster a := by
  rintro (hfree | hspecial)
  · exact ha.not_special.1 hfree
  · exact absurd ha.not_special.2 (Nat.not_lt.mpr hspecial)

theorem chain_length
    (hocc : Occupies (slot v) (IsCluster g) (l :: others)) :
    l.length ≤ g.maxCluster := by
  have hnodup : l.Nodup := List.Nodup.of_append_left hocc.nodup
  have hsub : l ⊆ List.range' fatMinCluster g.maxCluster := by
    intro a ha
    have hcluster := hocc.inside a (mem_append_left _ ha)
    have hhigh := hcluster.2
    refine mem_range'_1.mpr ⟨hcluster.1, ?_⟩
    simp only [fatMinCluster]
    omega
  have hle := (hnodup.subperm hsub).length_le
  rwa [length_range'] at hle

theorem keptClusters_spec
    (hchain : Chain (slot v) (front ++ back))
    (hinside : ∀ a ∈ front, IsCluster g a)
    (hfollows : Follows cluster (front ++ back)) :
    ∃ cluster', keptClusters v front.length last cluster =
      some (front.getLast?.getD last, cluster') ∧ Follows cluster' back := by
  induction front generalizing cluster last with
  | nil => exact ⟨cluster, rfl, hfollows⟩
  | cons a front ih =>
      have ha := hinside a mem_cons_self
      obtain ⟨cluster', hrun, hback⟩ := @ih (fatGetFatEntry v a) a hchain.tail
        (fun b hb => hinside b (mem_cons_of_mem a hb)) (follows_entry hchain)
      refine ⟨cluster', ?_, hback⟩
      rw [show cluster = a from hfollows, length_cons, keptClusters,
        if_neg ha.not_corrupt, hrun, getLast?_cons, Option.getD_some]

theorem findLast_spec
    (hchain : Chain (slot v) l)
    (hinside : ∀ a ∈ l, IsCluster g a)
    (hfollows : Follows cluster l)
    (hrounds : l.length < rounds) :
    findLast v rounds cluster last count =
      some (some (count + l.length), l.getLast?.getD last) := by
  induction l generalizing cluster last count rounds with
  | nil =>
      cases rounds with
      | zero => exact absurd hrounds (Nat.not_lt_zero _)
      | succ rounds =>
          rw [findLast, if_pos (show fatEndOfFatChain cluster from hfollows)]
          rfl
  | cons a l ih =>
      cases rounds with
      | zero => exact absurd hrounds (Nat.not_lt_zero _)
      | succ rounds =>
          have ha := hinside a mem_cons_self
          rw [show cluster = a from hfollows, findLast, if_neg ha.not_end,
            if_neg ha.not_corrupt, ih hchain.tail
              (fun b hb => hinside b (mem_cons_of_mem a hb)) (follows_entry hchain)
              (Nat.lt_of_succ_lt_succ hrounds),
            getLast?_cons, Option.getD_some, length_cons, Nat.add_right_comm,
            Nat.add_assoc]

end Walk

section Freeing

theorem fatFreeClusters_spec
    (hocc : Occupies (slot v) (IsCluster g) (l :: others))
    (hfollows : Follows cluster l)
    (htwo : fatMinCluster ≤ v.nextCluster)
    (hrounds : l.length < rounds) :
    ∃ v', fatFreeClusters rounds v cluster = some (.success, v') ∧
      Occupies (slot v') (IsCluster g) others ∧ fatMinCluster ≤ v'.nextCluster := by
  induction l generalizing v cluster rounds with
  | nil =>
      cases rounds with
      | zero => exact absurd hrounds (Nat.not_lt_zero _)
      | succ rounds =>
          refine ⟨v, ?_, occupies_nil_cons.mp hocc, htwo⟩
          rw [fatFreeClusters, if_pos (show fatEndOfFatChain cluster from hfollows)]
  | cons a l ih =>
      cases rounds with
      | zero => exact absurd hrounds (Nat.not_lt_zero _)
      | succ rounds =>
          have ha := hocc.inside a mem_cons_self
          obtain ⟨w, hw, hset⟩ := @fatSetFatEntry_spec g v a fatClusterFree ha free_value
          have hocc' : Occupies (slot w) (IsCluster g) (l :: others) :=
            hocc.freeHead.congr fun i hi => hset.slot hi
          obtain ⟨v', hrun, hfree, htwo'⟩ := ih hocc'
            (follows_entry (hocc.chain _ mem_cons_self)) (hset.next_le ha htwo)
            (Nat.lt_of_succ_lt_succ hrounds)
          refine ⟨v', ?_, hfree, htwo'⟩
          rw [show cluster = a from hfollows, fatFreeClusters, if_neg ha.not_end,
            if_neg ha.not_corrupt, hw]
          exact hrun

/-- The file keeps the clusters that its size needs. -/
theorem fatShrinkEof_spec
    (hocc : Occupies (slot v) (IsCluster g) (l :: others))
    (hhead : o.fileCluster = l.head?.getD 0)
    (hempty : l = [] → o.fileLastCluster = 0)
    (hle : fatSizeToClusters g o.fileSize ≤ l.length)
    (htwo : fatMinCluster ≤ v.nextCluster)
    (hrounds : g.maxCluster < rounds) :
    ∃ v' o', fatShrinkEof rounds v o = some (.success, v', o') ∧
      Occupies (slot v') (IsCluster g) (l.take (fatSizeToClusters g o.fileSize) :: others) ∧
      OpenFile g o' (l.take (fatSizeToClusters g o.fileSize)) ∧
      fatMinCluster ≤ v'.nextCluster ∧ Advanced o o' ∧
      (l = [] ∨ o'.fileCurrentCluster = o'.fileCluster) := by
  have hlength := chain_length hocc
  rcases Nat.eq_zero_or_pos (fatSizeToClusters g o.fileSize) with hzero | hpos
  case inl =>
    rw [hzero, take_zero]
    cases l with
    | nil =>
        refine ⟨v, o, ?_, hocc, ⟨hzero.symm, hhead, Or.inl (hempty rfl)⟩, htwo, Advanced.refl o,
          Or.inl rfl⟩
        rw [fatShrinkEof]
        simp only [hzero, ne_eq, not_true_eq_false, if_false]
        rw [if_pos (show o.fileCluster = fatClusterFree from hhead)]
    | cons a l =>
        have ha := hocc.inside a mem_cons_self
        have hcluster : o.fileCluster = a := hhead
        obtain ⟨v', hrun, hfree, htwo'⟩ := @fatFreeClusters_spec g v (a :: l) others o.fileCluster
          rounds hocc hcluster htwo (Nat.lt_of_le_of_lt hlength hrounds)
        refine ⟨v', { o with
            fileCluster := fatClusterFree
            fileCurrentCluster := fatClusterFree
            fileLastCluster := fatClusterFree
            dirty := true }, ?_, occupies_nil_cons.mpr hfree, ⟨hzero.symm, rfl, Or.inl rfl⟩, htwo',
          ⟨rfl, rfl, rfl, Or.inr rfl⟩, Or.inr rfl⟩
        rw [fatShrinkEof]
        simp only [hzero, ne_eq, not_true_eq_false, if_false]
        rw [if_neg (hcluster ▸ ha.not_special.1), hrun]
        rfl
  case inr =>
    obtain ⟨front, a, hfront⟩ : ∃ front a,
        l.take (fatSizeToClusters g o.fileSize) = front ++ [a] := by
      rcases eq_nil_or_concat (l.take (fatSizeToClusters g o.fileSize)) with hnil | ⟨f, a, h⟩
      · have hlen := congrArg List.length hnil
        rw [length_take, length_nil] at hlen
        omega
      · exact ⟨f, a, h.trans (concat_eq_append ..)⟩
    have hm : (front ++ [a]).length = fatSizeToClusters g o.fileSize := by
      rw [← hfront, length_take, Nat.min_eq_left hle]
    obtain ⟨back, rfl⟩ : ∃ back, l = front ++ [a] ++ back :=
      ⟨l.drop (fatSizeToClusters g o.fileSize), by rw [← hfront, take_append_drop]⟩
    have hmem : a ∈ front ++ [a] := mem_append_right _ (mem_singleton_self a)
    have hinside : ∀ b ∈ front ++ [a], IsCluster g b := fun b hb =>
      hocc.inside b (mem_append_left _ (mem_append_left _ hb))
    have hfollows : Follows o.fileCluster (front ++ [a] ++ back) := by
      rw [hhead]
      cases front with
      | nil => rfl
      | cons b front => rfl
    obtain ⟨cluster, hkept, hback⟩ := @keptClusters_spec g v (front ++ [a]) back o.fileCluster
      fatClusterFree (hocc.chain _ mem_cons_self) hinside hfollows
    obtain ⟨w, hw, hset⟩ := @fatSetFatEntry_spec g v a fatClusterLast (hinside a hmem) last_value
    have hcut : Occupies (slot w) (IsCluster g) (back :: (front ++ [a]) :: others) :=
      (hocc.cut.congr fun i hi => hset.slot hi).perm (List.Perm.swap ..)
    obtain ⟨v', hrun, hfree, htwo'⟩ := fatFreeClusters_spec hcut hback
      (hset.next_le (hinside a hmem) htwo) (Nat.lt_of_le_of_lt (chain_length hcut) hrounds)
    rw [← hm, take_left]
    refine ⟨v', { o with
        fileCurrentCluster := o.fileCluster
        fileLastCluster := a
        dirty := true }, ?_, hfree, ⟨hm, ?_, Or.inr getLast?_concat⟩, htwo',
      ⟨rfl, rfl, rfl, Or.inr rfl⟩, Or.inr rfl⟩
    · rw [fatShrinkEof]
      simp only [ne_eq, Nat.ne_of_gt hpos, not_false_eq_true, if_true]
      rw [← hm, hkept, concat_last]
      simp only [Option.bind_eq_bind, Option.bind_some, hw, hrun]
    · rw [hhead]
      cases front with
      | nil => rfl
      | cons b front => rfl

end Freeing

end Fat
end Udk
