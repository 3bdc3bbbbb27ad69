import Udk.Fat.FreeInfo

/-!
# Growing a chain

The clusters that are free while `FatGrowEof` allocates: those behind the place where the search
goes on, the one that has been allocated but not linked yet, and those ahead.
-/

namespace Udk
namespace Fat

open LinkedTable List

variable {g : Geometry} {v v' : Volume g} {l behind pending ahead rest : List Nat}
  {others : List (List Nat)} {o o' : OFile} {a c n rounds count next : Nat} {valid : Bool}

/-- The free clusters while the chain `l` grows. -/
structure Filling (v : Volume g) (l : List Nat) (others : List (List Nat))
    (behind pending ahead : List Nat) : Prop where
  growing : Growing (slot v) (IsCluster g) l others
  free : freeClusters v = behind ++ pending ++ ahead
  isLast : pending = [] ∨ ∃ a, pending = [a] ∧ l.getLast? = some a
  apart : ∀ c ∈ behind ++ ahead, c ∉ l
  before : ∀ c ∈ behind ++ pending, c < v.nextCluster
  after : ∀ c ∈ ahead, v.nextCluster ≤ c
  two_le : fatMinCluster ≤ v.nextCluster

/-- What a routine may do to an open file. -/
structure Advanced (o o' : OFile) : Prop where
  fileSize : o'.fileSize = o.fileSize
  position : o'.position = o.position
  isFixedRootDir : o'.isFixedRootDir = o.isFixedRootDir
  cursor : o'.fileCluster = o.fileCluster ∧ o'.fileCurrentCluster = o.fileCurrentCluster ∨
    o'.fileCurrentCluster = o'.fileCluster

theorem Advanced.refl
    (o : OFile) :
    Advanced o o :=
  ⟨rfl, rfl, rfl, Or.inl ⟨rfl, rfl⟩⟩

theorem Advanced.trans
    {o'' : OFile}
    (hfirst : Advanced o o')
    (hsecond : Advanced o' o'') :
    Advanced o o'' := by
  refine ⟨hsecond.fileSize.trans hfirst.fileSize, hsecond.position.trans hfirst.position,
    hsecond.isFixedRootDir.trans hfirst.isFixedRootDir, ?_⟩
  rcases hsecond.cursor with ⟨hhead, hcur⟩ | hcur
  · rcases hfirst.cursor with ⟨hhead', hcur'⟩ | hcur'
    · exact Or.inl ⟨hhead.trans hhead', hcur.trans hcur'⟩
    · exact Or.inr (hcur.trans (hcur'.trans hhead.symm))
  · exact Or.inr hcur

section Free

theorem cluster_of_mem
    {i : Nat}
    (hi : i ∈ List.range' fatMinCluster g.maxCluster) :
    IsCluster g i := by
  obtain ⟨hlow, hhigh⟩ := mem_range'_1.mp hi
  refine ⟨hlow, ?_⟩
  simp only [fatMinCluster] at hhigh
  omega

theorem freeClusters_set
    (hentry : ∀ i, IsCluster g i →
      fatGetFatEntry v' i = Function.update (fatGetFatEntry v) a c i)
    (hc : c ≠ fatClusterFree) :
    freeClusters v' = (freeClusters v).filter (· ≠ a) := by
  rw [freeClusters, freeClusters, freeUpTo, freeUpTo, filter_filter]
  refine filter_congr fun i hi => ?_
  rw [hentry i (cluster_of_mem hi)]
  by_cases hne : i = a
  · simp only [hne, Function.update_self, hc, ne_eq, not_true_eq_false, decide_false,
      Bool.false_and]
  · simp only [hne, Function.update_of_ne, ne_eq, not_false_eq_true, decide_true, Bool.true_and]

variable (hfill : Filling v l others behind pending ahead)
include hfill

theorem Filling.isFree
    (hc : c ∈ behind ++ pending ++ ahead) :
    IsCluster g c ∧ fatGetFatEntry v c = fatClusterFree :=
  mem_freeClusters.mp (hfill.free ▸ hc)

theorem Filling.nodup :
    (behind ++ pending ++ ahead).Nodup :=
  hfill.free ▸ freeClusters_sorted.imp Nat.ne_of_lt

theorem Filling.freeAhead :
    freeAhead v = ahead := by
  rw [Fat.freeAhead, hfill.free, filter_append]
  have hbefore : (behind ++ pending).filter (fun i => v.nextCluster ≤ i) = [] :=
    filter_eq_nil_iff.mpr fun c hc => by
      rw [decide_eq_true_eq]
      exact Nat.not_le.mpr (hfill.before c hc)
  have hafter : ahead.filter (fun i => v.nextCluster ≤ i) = ahead :=
    filter_eq_self.mpr fun c hc => decide_eq_true (hfill.after c hc)
  rw [hbefore, hafter, nil_append]

theorem Filling.not_mem
    (hc : c ∈ behind ++ ahead) :
    IsCluster g c ∧ c ∉ l ++ others.flatten := by
  have hmem : c ∈ behind ++ pending ++ ahead := by
    simp only [mem_append] at hc ⊢
    tauto
  obtain ⟨hcluster, hfree⟩ := hfill.isFree hmem
  refine ⟨hcluster, fun hl => ?_⟩
  rcases mem_append.mp hl with hl | hothers
  · exact hfill.apart c hc hl
  · obtain ⟨chain, hchain, hmem⟩ := mem_flatten.mp hothers
    exact (hfill.growing.chain chain hchain).not_free hmem (slot_eq_free.mpr hfree)

end Free

section Linking

theorem Filling.last_cases
    (hfill : Filling v (l ++ [a]) others behind pending ahead) :
    IsCluster g a ∧ (freeClusters v).filter (· ≠ a) = behind ++ ahead ∧
      (pending = [] ∧ fatGetFatEntry v a ≠ fatClusterFree ∨
        pending = [a] ∧ fatGetFatEntry v a = fatClusterFree) := by
  have hmem : a ∈ l ++ [a] := mem_append_right _ (mem_singleton_self a)
  have ha := hfill.growing.inside a (mem_append_left _ hmem)
  have hapart : ∀ c ∈ behind ++ ahead, c ≠ a := fun c hc heq => hfill.apart c hc (heq ▸ hmem)
  have hbehind : behind.filter (· ≠ a) = behind := filter_eq_self.mpr fun c hc =>
    decide_eq_true (hapart c (mem_append_left _ hc))
  have hahead : ahead.filter (· ≠ a) = ahead := filter_eq_self.mpr fun c hc =>
    decide_eq_true (hapart c (mem_append_right _ hc))
  refine ⟨ha, ?_, ?_⟩
  case refine_1 =>
    rw [hfill.free, filter_append, filter_append, hbehind, hahead]
    rcases hfill.isLast with hpending | ⟨b, hpending, hlast⟩
    · rw [hpending, filter_nil, append_nil]
    · rw [getLast?_append, getLast?_singleton] at hlast
      cases hlast
      rw [hpending, filter_singleton]
      simp only [ne_eq, not_true_eq_false, decide_false, cond_false, append_nil]
  case refine_2 =>
    rcases hfill.isLast with hpending | ⟨b, hpending, hlast⟩
    · refine Or.inl ⟨hpending, fun hfree => ?_⟩
      have hin := mem_freeClusters.mpr ⟨ha, hfree⟩
      rw [hfill.free, hpending, append_nil] at hin
      exact hapart a hin rfl
    · rw [getLast?_append, getLast?_singleton] at hlast
      cases hlast
      refine Or.inr ⟨hpending, (hfill.isFree ?_).2⟩
      rw [hpending]
      exact mem_append_left _ (mem_append_right _ (mem_singleton_self a))

theorem Filling.setLast
    (hfill : Filling v (l ++ [a]) others behind pending ahead)
    (hc : EntryValue g c)
    (hused : c ≠ fatClusterFree) :
    ∃ v', fatSetFatEntry (v.withInfo valid count next) a c = some v' ∧
      (∀ i, IsCluster g i → slot v' i = Function.update (slot v) a (slotOf c) i) ∧
      freeClusters v' = behind ++ ahead ∧ v'.freeInfoValid = valid ∧
      v'.clusterCount = count - pending.length ∧ v'.nextCluster = next := by
  obtain ⟨ha, hfree, hlast⟩ := hfill.last_cases
  obtain ⟨v', hv', hset⟩ :=
    @fatSetFatEntry_spec g (v.withInfo valid count next) a c ha hc
  refine ⟨v', hv', fun i hi => ?_, ?_, hset.freeInfoValid, ?_⟩
  case refine_1 => rw [hset.slot hi, withInfo_slot]
  case refine_2 => rw [freeClusters_set hset.entry hused, withInfo_freeClusters, hfree]
  case refine_3 =>
    rcases hlast with ⟨hpending, hentry⟩ | ⟨hpending, hentry⟩
    · rw [hpending]
      exact hset.info_of_used hused hentry
    · rw [hpending]
      exact hset.info_of_free hused hentry

theorem concat_last
    (l : List Nat)
    (a : Nat) :
    (l ++ [a]).getLast?.getD 0 = a := by
  rw [getLast?_append, getLast?_singleton, Option.some_or, Option.getD_some]

/-- The new cluster is put into the chain; the one before it is not free any more. -/
theorem Filling.link
    (hfill : Filling v l others behind pending ahead)
    (hhead : o.fileCluster = l.head?.getD 0)
    (hc : c ∈ behind ++ ahead) :
    ∃ v' o', linkCluster (v.withInfo valid count next) o (l.getLast?.getD 0) c = some (v', o') ∧
      Growing (slot v') (IsCluster g) (l ++ [c]) others ∧ freeClusters v' = behind ++ ahead ∧
      v'.freeInfoValid = valid ∧ v'.clusterCount = count - pending.length ∧
      v'.nextCluster = next ∧ o'.fileCluster = (l ++ [c]).head?.getD 0 ∧ Advanced o o' := by
  obtain ⟨hcluster, hnot⟩ := hfill.not_mem hc
  rcases eq_nil_or_concat l with rfl | ⟨front, a, rfl⟩
  · have hpending : pending = [] := by
      rcases hfill.isLast with hpending | ⟨a, -, hlast⟩
      · exact hpending
      · cases hlast
    refine ⟨_, _, rfl, hfill.growing.start hcluster hnot, ?_, rfl, ?_, rfl, rfl, rfl, rfl,
      rfl, Or.inr rfl⟩
    · rw [withInfo_freeClusters, hfill.free, hpending, append_nil]
    · rw [hpending]
      rfl
  · rw [concat_eq_append] at hfill hhead hnot ⊢
    have ha := hfill.last_cases.1
    obtain ⟨v', hv', hslot, hfree, hvalid, hcount, hnext⟩ :=
      @Filling.setLast g v front behind pending ahead others a c count next valid hfill
        hcluster.entryValue hcluster.not_special.1
    have hlink : linkCluster (v.withInfo valid count next) o a c = some (v', o) := by
      rw [linkCluster, if_pos ha.not_special.1, hv']
      rfl
    refine ⟨v', o, (concat_last front a).symm ▸ hlink, ?_, hfree, hvalid, hcount, hnext, ?_,
      Advanced.refl o⟩
    · refine (hfill.growing.extend hcluster hnot).congr fun i hi => ?_
      rw [hslot i hi, slotOf_cluster hcluster]
    · rw [hhead]
      cases front with
      | nil => rfl
      | cons b front => rfl

end Linking

end Fat
end Udk
