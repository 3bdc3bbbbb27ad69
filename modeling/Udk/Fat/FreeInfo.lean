import Udk.Fat.EntrySpecs
import Udk.Fat.FatEntry

/-!
# Free clusters

Which free cluster `FatAllocateCluster` returns: the next one from `NextCluster` on, and at the
end of the FAT the first one of all when the free clusters are counted again.
-/

/-!
## Space of files

Allocating and freeing clusters, and the chains of files that grow and shrink.  A loop that needs
more rounds than the given number has no result.
-/

namespace Udk
namespace Fat

variable {g : Geometry}

/-- The statuses of the routines. -/
inductive EfiStatus
  | success
  | unsupported
  | volumeCorrupted
  | volumeFull
  | deviceError
  | writeProtected
  | accessDenied
  | outOfResources
  deriving DecidableEq

/-- The parts of `FAT_OFILE` that its space and its bytes need. -/
structure OFile where
  fileSize : Nat
  /-- `FileCluster`: the first cluster. -/
  fileCluster : Nat
  fileCurrentCluster : Nat
  /-- `FileLastCluster`: the last cluster, when it is known. -/
  fileLastCluster : Nat
  /-- `Position`: where `FileCurrentCluster` starts in the file. -/
  position : Nat
  posDisk : Nat
  posRem : Nat
  isFixedRootDir : Bool
  dirty : Bool

/-- The clusters that the loops take for the end of the space. -/
def corruptCluster (cluster : Nat) : Prop :=
  cluster = fatClusterFree ∨ fatClusterSpecial ≤ cluster

instance (cluster : Nat) : Decidable (corruptCluster cluster) :=
  inferInstanceAs (Decidable (_ ∨ _))

/-- `FatFreeClusters`. -/
def fatFreeClusters : Nat → Volume g → Nat → Option (EfiStatus × Volume g)
  | 0, _, _ => none
  | rounds + 1, v, cluster =>
      if fatEndOfFatChain cluster then some (.success, v)
      else if corruptCluster cluster then some (.volumeCorrupted, v)
      else do
        let v' ← fatSetFatEntry v cluster fatClusterFree
        fatFreeClusters rounds v' (fatGetFatEntry v cluster)

/-- The loop of `FatComputeFreeInfo`, from the last cluster down. -/
def countFree (v : Volume g) : Nat → Volume g
  | 0 => v
  | n + 1 =>
      if fatGetFatEntry v (n + fatMinCluster) = fatClusterFree then
        countFree { v with
          clusterCount := (v.clusterCount + 1) % 2 ^ 32
          nextCluster := (n + fatMinCluster) % 2 ^ 32 } n
      else countFree v n

/-- `FatComputeFreeInfo`. -/
def fatComputeFreeInfo (v : Volume g) : Volume g :=
  if v.freeInfoValid then v
  else countFree { v with freeInfoValid := true, clusterCount := 0 } g.maxCluster

/-- The free info at the end of the clusters. -/
def atEnd (v : Volume g) : Volume g :=
  fatComputeFreeInfo
    (if v.freeInfoValid ∧ 0 < v.clusterCount ∧ v.clusterCount < 2 ^ 31 then
      { v with freeInfoValid := false }
    else v)

/-- `FatAllocateCluster`. -/
def fatAllocateCluster : Nat → Volume g → Option (Nat × Volume g)
  | 0, _ => none
  | rounds + 1, v =>
      let v := if g.maxCluster + 1 < v.nextCluster then atEnd v else v
      if g.maxCluster + 1 < v.nextCluster then some (fatClusterLast, v)
      else if fatGetFatEntry v v.nextCluster = fatClusterFree then
        some (v.nextCluster, { v with nextCluster := (v.nextCluster + 1) % 2 ^ 32 })
      else fatAllocateCluster rounds { v with nextCluster := (v.nextCluster + 1) % 2 ^ 32 }

/-- `FatSizeToClusters`. -/
def fatSizeToClusters (g : Geometry) (size : Nat) : Nat :=
  size / g.clusterSize + if 0 < size % g.clusterSize then 1 else 0

/-- The loop of `FatShrinkEof` to the last cluster that stays; the cluster behind it follows. -/
def keptClusters (v : Volume g) : Nat → Nat → Nat → Option (Nat × Nat)
  | 0, last, cluster => some (last, cluster)
  | n + 1, _, cluster =>
      if corruptCluster cluster then none
      else keptClusters v n cluster (fatGetFatEntry v cluster)

/-- `FatShrinkEof`. -/
def fatShrinkEof (rounds : Nat) (v : Volume g) (o : OFile) :
    Option (EfiStatus × Volume g × OFile) :=
  let newSize := fatSizeToClusters g o.fileSize
  if newSize ≠ 0 then
    match keptClusters v newSize fatClusterFree o.fileCluster with
    | none => some (.volumeCorrupted, v, o)
    | some (lastCluster, cluster) => do
        let v ← fatSetFatEntry v lastCluster fatClusterLast
        let (status, v) ← fatFreeClusters rounds v cluster
        some (status, v,
          { o with
            fileCurrentCluster := o.fileCluster
            fileLastCluster := lastCluster
            dirty := true })
  else if o.fileCluster = fatClusterFree then some (.success, v, o)
  else do
    let (status, v) ← fatFreeClusters rounds v o.fileCluster
    some (status, v,
      { o with
        fileCluster := fatClusterFree
        fileCurrentCluster := fatClusterFree
        fileLastCluster := fatClusterFree
        dirty := true })

/-- `FatTruncateOFile`. -/
def fatTruncateOFile (rounds : Nat) (v : Volume g) (o : OFile) (truncatedSize : Nat) :
    Option (EfiStatus × Volume g × OFile) :=
  fatShrinkEof rounds v { o with fileSize := truncatedSize }

/-- The loop of `FatGrowEof` that looks for the last cluster, with the number of clusters; none of
them when the chain is corrupt. -/
def findLast (v : Volume g) : Nat → Nat → Nat → Nat → Option (Option Nat × Nat)
  | 0, _, _, _ => none
  | rounds + 1, cluster, last, count =>
      if fatEndOfFatChain cluster then some (some count, last)
      else if corruptCluster cluster then some (none, last)
      else findLast v rounds (fatGetFatEntry v cluster) cluster (count + 1)

/-- `FileLastCluster` for `FatGrowEof`, and whether the chain is as long as the file size says. -/
def lastCluster (rounds : Nat) (v : Volume g) (o : OFile) : Option (Bool × OFile) :=
  if o.fileCluster ≠ 0 ∧ o.fileLastCluster = 0 then do
    let (count, last) ← findLast v rounds o.fileCluster o.fileLastCluster 0
    some (count = some (fatSizeToClusters g o.fileSize), { o with fileLastCluster := last })
  else some (true, o)

/-- A new cluster behind the last one, or as the first one of the file. -/
def linkCluster (v : Volume g) (o : OFile) (last newCluster : Nat) :
    Option (Volume g × OFile) :=
  if last ≠ 0 then do
    let v ← fatSetFatEntry v last newCluster
    some (v, o)
  else some (v, { o with fileCluster := newCluster, fileCurrentCluster := newCluster })

/-- The loop of `FatGrowEof` that allocates the clusters; whether they were enough. -/
def growLoop (rounds : Nat) :
    Nat → Volume g → OFile → Nat → Option (Bool × Volume g × OFile × Nat)
  | 0, v, o, last => some (true, v, o, last)
  | n + 1, v, o, last => do
      let (newCluster, v) ← fatAllocateCluster rounds v
      if fatEndOfFatChain newCluster then
        if last ≠ fatClusterFree then
          let v ← fatSetFatEntry v last fatClusterLast
          some (false, v, { o with fileLastCluster := last }, last)
        else some (false, v, o, last)
      else
        let (v, o) ← linkCluster v o last newCluster
        growLoop rounds n v o newCluster

/-- The end of `FatGrowEof` after a failure. -/
def giveUp (rounds : Nat) (status : EfiStatus) (v : Volume g) (o : OFile) :
    Option (EfiStatus × Volume g × OFile) := do
  let (_, v, o) ← fatShrinkEof rounds v o
  some (status, v, o)

/-- `FatGrowEof`. -/
def fatGrowEof (rounds : Nat) (v : Volume g) (o : OFile) (newSizeInBytes : Nat) :
    Option (EfiStatus × Volume g × OFile) :=
  let curSize := fatSizeToClusters g o.fileSize
  let newSize := fatSizeToClusters g newSizeInBytes
  if 0xFFFFFFFF < newSizeInBytes then some (.unsupported, v, o)
  else if curSize < newSize then do
    let (sound, o) ← lastCluster rounds v o
    if sound then
      let (enough, v, o, last) ← growLoop rounds (newSize - curSize) v o o.fileLastCluster
      if enough then
        let v ← fatSetFatEntry v last fatClusterLast
        some (.success, v,
          { o with fileLastCluster := last, fileSize := newSizeInBytes, dirty := true })
      else giveUp rounds .volumeFull v o
    else giveUp rounds .volumeCorrupted v o
  else some (.success, v, { o with fileSize := newSizeInBytes, dirty := true })

end Fat
end Udk

namespace Udk
namespace Fat

open List

variable {g : Geometry} {v v' : Volume g} {c n rounds : Nat} {rest : List Nat}

/-- The volume with other free info. -/
def Volume.withInfo (v : Volume g) (valid : Bool) (count next : Nat) : Volume g :=
  { v with freeInfoValid := valid, clusterCount := count, nextCluster := next }

/-- The first clusters, as far as they are free in the FAT. -/
def freeUpTo (v : Volume g) (n : Nat) : List Nat :=
  (List.range' fatMinCluster n).filter fun i => fatGetFatEntry v i = fatClusterFree

/-- The clusters that are free in the FAT. -/
def freeClusters (v : Volume g) : List Nat :=
  freeUpTo v g.maxCluster

/-- The free ones that the search finds before it comes to the end. -/
def freeAhead (v : Volume g) : List Nat :=
  (freeClusters v).filter fun i => v.nextCluster ≤ i

/-- At the end of the FAT the free clusters are counted again, with this count at that time. -/
def CountsAgain (v : Volume g) (count : Nat) : Prop :=
  ¬ v.freeInfoValid ∨ 0 < count ∧ count < 2 ^ 31

instance (count : Nat) : Decidable (CountsAgain v count) :=
  inferInstanceAs (Decidable (_ ∨ _))

section Info

variable {valid : Bool} {count next : Nat}

@[simp] theorem withInfo_freeInfoValid : (v.withInfo valid count next).freeInfoValid = valid :=
  rfl

@[simp] theorem withInfo_clusterCount : (v.withInfo valid count next).clusterCount = count :=
  rfl

@[simp] theorem withInfo_nextCluster : (v.withInfo valid count next).nextCluster = next :=
  rfl

@[simp] theorem withInfo_entry : fatGetFatEntry (v.withInfo valid count next) = fatGetFatEntry v :=
  rfl

@[simp] theorem withInfo_withInfo
    {valid' : Bool} {count' next' : Nat} :
    (v.withInfo valid count next).withInfo valid' count' next' = v.withInfo valid' count' next' :=
  rfl

@[simp] theorem withInfo_slot : slot (v.withInfo valid count next) = slot v :=
  rfl

@[simp] theorem withInfo_freeUpTo : freeUpTo (v.withInfo valid count next) n = freeUpTo v n :=
  rfl

@[simp] theorem withInfo_freeClusters :
    freeClusters (v.withInfo valid count next) = freeClusters v :=
  rfl

theorem mem_freeClusters :
    c ∈ freeClusters v ↔ IsCluster g c ∧ fatGetFatEntry v c = fatClusterFree := by
  rw [freeClusters, freeUpTo, mem_filter, decide_eq_true_eq, mem_range'_1, IsCluster]
  have hrange : fatMinCluster ≤ c ∧ c < fatMinCluster + g.maxCluster ↔
      fatMinCluster ≤ c ∧ c ≤ g.maxCluster + 1 := by
    simp only [fatMinCluster]
    omega
  rw [hrange]

theorem freeClusters_sorted : (freeClusters v).Pairwise (· < ·) :=
  (pairwise_lt_range' ..).filter _

theorem freeClusters_length : (freeClusters v).length ≤ g.maxCluster := by
  refine le_trans (length_filter_le ..) ?_
  rw [length_range']

theorem maxCluster_lt
    (g : Geometry) :
    g.maxCluster + 1 < 2 ^ 28 := by
  have hfits := g.fits
  have hspecial : g.fatType.clusterSpecial ≤ 0x0FFFFFF7 := by
    cases g.fatType with
    | fat12 | fat16 | fat32 => decide
  omega

end Info

section Counting

theorem freeUpTo_succ : freeUpTo v (n + 1) = freeUpTo v n ++
    if fatGetFatEntry v (n + fatMinCluster) = fatClusterFree then [n + fatMinCluster] else [] := by
  rw [freeUpTo, range'_concat, filter_append, Nat.one_mul, Nat.add_comm fatMinCluster n,
    filter_singleton, freeUpTo]
  congr 1
  by_cases hfree : fatGetFatEntry v (n + fatMinCluster) = fatClusterFree
  · simp only [hfree, decide_true, cond_true, if_true]
  · simp only [hfree, decide_false, cond_false, if_false]

theorem countFree_spec
    (hn : n ≤ g.maxCluster)
    (hcount : v.clusterCount + n < 2 ^ 32) :
    countFree v n = v.withInfo v.freeInfoValid (v.clusterCount + (freeUpTo v n).length)
      ((freeUpTo v n).head?.getD v.nextCluster) := by
  induction n generalizing v with
  | zero => rfl
  | succ n ih =>
      have hmax := maxCluster_lt g
      rw [freeUpTo_succ, countFree]
      split
      next hfree =>
        have hinfo : { v with
              clusterCount := (v.clusterCount + 1) % 2 ^ 32
              nextCluster := (n + fatMinCluster) % 2 ^ 32 } =
            v.withInfo v.freeInfoValid (v.clusterCount + 1) (n + fatMinCluster) := by
          have hindex : n + fatMinCluster < 2 ^ 32 := by
            simp only [fatMinCluster]
            omega
          rw [Nat.mod_eq_of_lt (by omega), Nat.mod_eq_of_lt hindex]
          rfl
        rw [hinfo, ih (by omega) (by rw [withInfo_clusterCount]; omega)]
        simp only [withInfo_freeUpTo, withInfo_withInfo, withInfo_freeInfoValid,
          withInfo_clusterCount, withInfo_nextCluster, length_append, length_singleton,
          head?_append, head?_cons]
        congr 1
        · omega
        · cases (freeUpTo v n).head? with
          | none => rfl
          | some i => rfl
      next hused => rw [ih (by omega) (by omega), append_nil]

theorem fatComputeFreeInfo_spec
    (hinvalid : v.freeInfoValid = false) :
    fatComputeFreeInfo v = v.withInfo true (freeClusters v).length
      ((freeClusters v).head?.getD v.nextCluster) := by
  have hmax := maxCluster_lt g
  rw [fatComputeFreeInfo, hinvalid, if_neg Bool.false_ne_true,
    countFree_spec (Nat.le_refl _) (by dsimp only; omega)]
  dsimp only
  rw [Nat.zero_add]
  rfl

theorem atEnd_of_again
    (hagain : CountsAgain v v.clusterCount) :
    atEnd v = v.withInfo true (freeClusters v).length
      ((freeClusters v).head?.getD v.nextCluster) := by
  rw [atEnd]
  split
  next hvalid => exact fatComputeFreeInfo_spec rfl
  next hvalid =>
    refine fatComputeFreeInfo_spec ?_
    rcases hagain with hagain | hagain
    · exact Bool.eq_false_iff.mpr hagain
    · refine Bool.eq_false_iff.mpr fun hv => hvalid ⟨hv, hagain⟩

theorem atEnd_of_not_again
    (hnot : ¬ CountsAgain v v.clusterCount) :
    atEnd v = v := by
  obtain ⟨hvalid, hcount⟩ := not_or.mp hnot
  rw [atEnd, if_neg (fun h => hcount h.2), fatComputeFreeInfo, if_pos (not_not.mp hvalid)]

end Counting

section Allocating

theorem allocate_next
    (hc : IsCluster g c)
    (hfree : fatGetFatEntry v c = fatClusterFree)
    (hle : v.nextCluster ≤ c)
    (hbetween : ∀ i, v.nextCluster ≤ i → i < c → fatGetFatEntry v i ≠ fatClusterFree)
    (hrounds : c - v.nextCluster < rounds) :
    fatAllocateCluster rounds v =
      some (c, v.withInfo v.freeInfoValid v.clusterCount (c + 1)) := by
  have hlt := hc.lt_two_pow
  have hhigh := hc.2
  induction rounds generalizing v with
  | zero => omega
  | succ rounds ih =>
      have hinside : ¬ g.maxCluster + 1 < v.nextCluster := by omega
      rw [fatAllocateCluster]
      simp only [hinside, if_false]
      rcases Nat.eq_or_lt_of_le hle with heq | hnext
      · subst heq
        rw [if_pos hfree, Nat.mod_eq_of_lt (by omega)]
        rfl
      · rw [if_neg (hbetween _ (Nat.le_refl _) hnext), Nat.mod_eq_of_lt (by omega)]
        refine ih hfree hnext (fun i hi => hbetween i (Nat.le_of_succ_le hi)) ?_
        dsimp only
        omega

theorem allocate_passed
    (hnone : ∀ i, v.nextCluster ≤ i → i ≤ g.maxCluster + 1 →
      fatGetFatEntry v i ≠ fatClusterFree)
    (hrounds : g.maxCluster + 2 - v.nextCluster < rounds) :
    ∃ left next, g.maxCluster + 1 < next ∧ fatAllocateCluster rounds v =
      fatAllocateCluster (left + 1) (v.withInfo v.freeInfoValid v.clusterCount next) := by
  have hmax := maxCluster_lt g
  induction rounds generalizing v with
  | zero => omega
  | succ rounds ih =>
      by_cases hend : g.maxCluster + 1 < v.nextCluster
      · exact ⟨rounds, v.nextCluster, hend, rfl⟩
      · have hstep : fatAllocateCluster (rounds + 1) v = fatAllocateCluster rounds
            (v.withInfo v.freeInfoValid v.clusterCount (v.nextCluster + 1)) := by
          rw [fatAllocateCluster]
          simp only [hend, if_false]
          rw [if_neg (hnone _ (Nat.le_refl _) (Nat.le_of_not_lt hend)),
            Nat.mod_eq_of_lt (by omega)]
          rfl
        obtain ⟨left, next, hnext, hleft⟩ := @ih (v.withInfo v.freeInfoValid v.clusterCount
          (v.nextCluster + 1)) (fun i hi => hnone i (Nat.le_of_succ_le hi))
          (by rw [withInfo_nextCluster]; omega)
        exact ⟨left, next, hnext, hstep.trans hleft⟩

theorem freeAhead_sorted : (freeAhead v).Pairwise (· < ·) :=
  freeClusters_sorted.filter _

section

variable (htwo : fatMinCluster ≤ v.nextCluster)
include htwo

theorem mem_freeAhead :
    c ∈ freeAhead v ↔
      v.nextCluster ≤ c ∧ c ≤ g.maxCluster + 1 ∧ fatGetFatEntry v c = fatClusterFree := by
  rw [freeAhead, mem_filter, mem_freeClusters, decide_eq_true_eq, IsCluster]
  constructor
  case mp =>
    rintro ⟨⟨⟨-, hhigh⟩, hfree⟩, hle⟩
    exact ⟨hle, hhigh, hfree⟩
  case mpr =>
    rintro ⟨hle, hhigh, hfree⟩
    exact ⟨⟨⟨htwo.trans hle, hhigh⟩, hfree⟩, hle⟩

theorem fatAllocateCluster_ahead
    (hahead : freeAhead v = c :: rest)
    (hrounds : g.maxCluster + 2 < rounds) :
    fatAllocateCluster rounds v =
      some (c, v.withInfo v.freeInfoValid v.clusterCount (c + 1)) := by
  have hmem : c ∈ freeAhead v := by
    rw [hahead]
    exact mem_cons_self
  obtain ⟨hle, hhigh, hfree⟩ := (mem_freeAhead htwo).mp hmem
  refine allocate_next ⟨htwo.trans hle, hhigh⟩ hfree hle (fun i hi hlt hused => ?_) (by omega)
  have hi' := (mem_freeAhead htwo).mpr ⟨hi, hlt.le.trans hhigh, hused⟩
  have hsorted := @freeAhead_sorted g v
  rw [hahead] at hi' hsorted
  rcases mem_cons.mp hi' with heq | hrest
  · omega
  · exact absurd ((pairwise_cons.mp hsorted).1 i hrest) (by omega)

theorem passed_of_nil
    (hahead : freeAhead v = [])
    (hrounds : g.maxCluster + 2 < rounds) :
    ∃ left next, g.maxCluster + 1 < next ∧ fatAllocateCluster rounds v =
      fatAllocateCluster (left + 1) (v.withInfo v.freeInfoValid v.clusterCount next) := by
  refine allocate_passed (fun i hi hhigh hfree => ?_) (by omega)
  have hmem := (mem_freeAhead htwo).mpr ⟨hi, hhigh, hfree⟩
  rw [hahead] at hmem
  cases hmem

end

theorem end_full
    (hnext : g.maxCluster + 1 < v.nextCluster)
    (hfull : ¬ CountsAgain v v.clusterCount ∨ freeClusters v = []) :
    ∃ valid count, fatAllocateCluster (rounds + 1) v =
      some (fatClusterLast, v.withInfo valid count v.nextCluster) := by
  rw [fatAllocateCluster]
  simp only [hnext, if_true]
  by_cases hagain : CountsAgain v v.clusterCount
  · have hnil := hfull.resolve_left (not_not.mpr hagain)
    rw [atEnd_of_again hagain]
    simp only [hnil, withInfo_nextCluster, head?_nil, Option.getD_none, hnext, if_true]
    exact ⟨_, _, rfl⟩
  · rw [atEnd_of_not_again hagain]
    simp only [hnext, if_true]
    exact ⟨_, _, rfl⟩

theorem end_again
    (hnext : g.maxCluster + 1 < v.nextCluster)
    (hagain : CountsAgain v v.clusterCount)
    (hfree : freeClusters v = c :: rest) :
    fatAllocateCluster (rounds + 1) v = some (c, v.withInfo true (rest.length + 1) (c + 1)) := by
  have hmem : c ∈ freeClusters v := by
    rw [hfree]
    exact mem_cons_self
  obtain ⟨hc, hentry⟩ := mem_freeClusters.mp hmem
  have hinside : ¬ g.maxCluster + 1 < c := Nat.not_lt.mpr hc.2
  have hlt := hc.lt_two_pow
  rw [fatAllocateCluster]
  simp only [hnext, if_true]
  rw [atEnd_of_again hagain]
  simp only [hfree, withInfo_nextCluster, head?_cons, Option.getD_some, hinside, if_false,
    withInfo_entry, hentry, if_true, length_cons]
  rw [Nat.mod_eq_of_lt (by omega)]
  rfl

theorem fatAllocateCluster_full
    (htwo : fatMinCluster ≤ v.nextCluster)
    (hahead : freeAhead v = [])
    (hfull : ¬ CountsAgain v v.clusterCount ∨ freeClusters v = [])
    (hrounds : g.maxCluster + 2 < rounds) :
    ∃ valid count next, g.maxCluster + 1 < next ∧
      fatAllocateCluster rounds v = some (fatClusterLast, v.withInfo valid count next) := by
  obtain ⟨left, next, hnext, heq⟩ := passed_of_nil htwo hahead hrounds
  obtain ⟨valid, count, hend⟩ :=
    @end_full g (v.withInfo v.freeInfoValid v.clusterCount next) left hnext hfull
  exact ⟨valid, count, next, hnext, heq.trans hend⟩

theorem fatAllocateCluster_again
    (htwo : fatMinCluster ≤ v.nextCluster)
    (hahead : freeAhead v = [])
    (hagain : CountsAgain v v.clusterCount)
    (hfree : freeClusters v = c :: rest)
    (hrounds : g.maxCluster + 2 < rounds) :
    fatAllocateCluster rounds v = some (c, v.withInfo true (rest.length + 1) (c + 1)) := by
  obtain ⟨left, next, hnext, heq⟩ := passed_of_nil htwo hahead hrounds
  exact heq.trans
    (@end_again g (v.withInfo v.freeInfoValid v.clusterCount next) c left rest hnext hagain hfree)

end Allocating

end Fat
end Udk
