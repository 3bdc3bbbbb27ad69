import Udk.Fat.GrowEof
import Udk.Runs

/-!
# Files that grow and shrink

The open files of a volume and the chains of all files: what each call of `FatGrowEof` and
`FatTruncateOFile` makes of them.
-/

namespace Udk
namespace Fat

open LinkedTable List

variable {g : Geometry} {rounds : Nat}

/-- A volume with its open files. -/
structure Disk (g : Geometry) where
  volume : Volume g
  files : List OFile

/-- A call for an open file, with the new size. -/
inductive SpaceCall
  | grow (file newSize : Nat)
  | shrink (file newSize : Nat)

/-- A routine called for an open file. -/
def Disk.callFor (d : Disk g) (file : Nat)
    (routine : OFile → Option (EfiStatus × Volume g × OFile)) : Option (EfiStatus × Disk g) := do
  let o ← d.files[file]?
  let (status, v, o) ← routine o
  some (status, { volume := v, files := d.files.set file o })

def spaceStep (rounds : Nat) (d : Disk g) : SpaceCall → Option (EfiStatus × Disk g)
  | .grow file newSize => d.callFor file fun o => fatGrowEof rounds d.volume o newSize
  | .shrink file newSize => d.callFor file fun o => fatTruncateOFile rounds d.volume o newSize

/-- The chains of the open files and those of the others are apart, end in an end mark, and are as
long as the files need; all other clusters are free. -/
structure Consistent (d : Disk g) (chains others : List (List Nat)) : Prop where
  length : chains.length = d.files.length
  isOpen : ∀ (file : Nat) (o : OFile) (l : List Nat), d.files[file]? = some o → chains[file]? = some l → OpenFile g o l
  occupies : Occupies (slot d.volume) (IsCluster g) (chains ++ others)
  two_le : fatMinCluster ≤ d.volume.nextCluster

/-- The clusters by which a file grows. -/
def neededClusters (g : Geometry) (o : OFile) (newSize : Nat) : Nat :=
  fatSizeToClusters g newSize - fatSizeToClusters g o.fileSize

/-- The calls that find the free clusters, and no cluster twice. -/
def Served (d : Disk g) : SpaceCall → Prop
  | .grow file newSize => ∃ o, d.files[file]? = some o ∧ newSize ≤ 0xFFFFFFFF ∧
      fatSizeToClusters g o.fileSize ≤ fatSizeToClusters g newSize ∧
      ¬ LinksItself d.volume (neededClusters g o newSize) ∧
      (neededClusters g o newSize ≤ (freeClusters d.volume).length →
        Found d.volume (neededClusters g o newSize))
  | .shrink file newSize => ∃ o, d.files[file]? = some o ∧
      fatSizeToClusters g newSize ≤ fatSizeToClusters g o.fileSize

/-- What a call shall make of the chains. -/
def Right (d d' : Disk g) (chains others : List (List Nat)) (status : EfiStatus) :
    SpaceCall → Prop
  | .grow file newSize => ∃ o o' l l', d.files[file]? = some o ∧ d'.files[file]? = some o' ∧
      chains[file]? = some l ∧ Consistent d' (chains.set file l') others ∧ l <+: l' ∧
      (status = .success ↔ neededClusters g o newSize ≤ (freeClusters d.volume).length) ∧
      (status = .success → o'.fileSize = newSize) ∧
      (status ≠ .success → status = .volumeFull ∧ l' = l ∧ o'.fileSize = o.fileSize)
  | .shrink file newSize => ∃ o' l, d'.files[file]? = some o' ∧ chains[file]? = some l ∧
      status = .success ∧ o'.fileSize = newSize ∧
      Consistent d' (chains.set file (l.take (fatSizeToClusters g newSize))) others

section Steps

variable {d d' : Disk g} {chains others : List (List Nat)} {l l' : List Nat} {o o' : OFile}
  {v : Volume g} {file newSize : Nat} {call : SpaceCall}

theorem Consistent.front
    (hcons : Consistent d chains others)
    (hl : chains[file]? = some l) :
    Occupies (slot d.volume) (IsCluster g) (l :: (chains.eraseIdx file ++ others)) := by
  obtain ⟨hlt, rfl⟩ := List.getElem?_eq_some_iff.mp hl
  refine hcons.occupies.perm ?_
  rw [← cons_append]
  exact (getElem_cons_eraseIdx_perm hlt).append_right others

theorem Consistent.set
    (hcons : Consistent d chains others)
    (hl : chains[file]? = some l)
    (hocc : Occupies (slot v) (IsCluster g) (l' :: (chains.eraseIdx file ++ others)))
    (hopen : OpenFile g o' l')
    (htwo : fatMinCluster ≤ v.nextCluster) :
    Consistent { volume := v, files := d.files.set file o' } (chains.set file l') others := by
  obtain ⟨hlt, -⟩ := List.getElem?_eq_some_iff.mp hl
  refine ⟨?_, fun i p m hp hm => ?_, hocc.perm ?_, htwo⟩
  case refine_1 => rw [length_set, length_set, hcons.length]
  case refine_2 =>
    by_cases hi : file = i
    · subst hi
      rw [getElem?_set_self (hcons.length ▸ hlt)] at hp
      rw [getElem?_set_self hlt] at hm
      cases hp
      cases hm
      exact hopen
    · rw [getElem?_set_ne hi] at hp hm
      exact hcons.isOpen i p m hp hm
  case refine_3 =>
    rw [← cons_append]
    exact (set_perm_cons_eraseIdx hlt l').append_right others

theorem Consistent.chainOf
    (hcons : Consistent d chains others)
    (ho : d.files[file]? = some o) :
    ∃ l, chains[file]? = some l ∧ OpenFile g o l := by
  obtain ⟨hlt, -⟩ := List.getElem?_eq_some_iff.mp ho
  obtain ⟨l, hl⟩ : ∃ l, chains[file]? = some l :=
    ⟨chains.get ⟨file, hcons.length ▸ hlt⟩, getElem?_eq_getElem _⟩
  exact ⟨l, hl, hcons.isOpen file o l ho hl⟩

theorem grow_right
    (hrounds : g.maxCluster + 2 < rounds)
    (hcons : Consistent d chains others)
    (hserved : Served d (.grow file newSize)) :
    ∃ status d', spaceStep rounds d (.grow file newSize) = some (status, d') ∧
      Right d d' chains others status (.grow file newSize) := by
  obtain ⟨o, ho, hsmall, hsize, hself, hfound⟩ := hserved
  obtain ⟨l, hl, hopen⟩ := hcons.chainOf ho
  obtain ⟨hlt, -⟩ := List.getElem?_eq_some_iff.mp ho
  obtain ⟨status, v', o', l', hrun, hextended, hiff, hdone, hold⟩ :=
    fatGrowEof_spec hrounds (hcons.front hl) hopen hcons.two_le hsize fun _ => hself
  refine ⟨status, { volume := v', files := d.files.set file o' }, ?_, o, o', l, l', ho,
    getElem?_set_self hlt, hl,
    hcons.set hl hextended.occupies hextended.isOpen hextended.two_le, hextended.keeps, ?_, hdone,
    fun h => ⟨(hold h).2.2 hsmall, (hold h).1, (hold h).2.1⟩⟩
  case refine_1 =>
    simp only [spaceStep, Disk.callFor, ho, Option.bind_eq_bind, Option.bind_some, hrun]
  case refine_2 =>
    refine hiff.trans ⟨fun h => ?_, fun h => ⟨hsmall, hfound h⟩⟩
    rcases h.2 with hahead | hall
    · exact hahead.trans (length_filter_le ..)
    · exact hall.2

theorem shrink_right
    (hrounds : g.maxCluster + 2 < rounds)
    (hcons : Consistent d chains others)
    (hserved : Served d (.shrink file newSize)) :
    ∃ status d', spaceStep rounds d (.shrink file newSize) = some (status, d') ∧
      Right d d' chains others status (.shrink file newSize) := by
  obtain ⟨o, ho, hsize⟩ := hserved
  obtain ⟨l, hl, hopen⟩ := hcons.chainOf ho
  obtain ⟨hlt, -⟩ := List.getElem?_eq_some_iff.mp ho
  have hempty : l = [] → o.fileLastCluster = 0 := by
    intro hnil
    rcases hopen.isLast with hzero | hlast
    · exact hzero
    · rw [hnil] at hlast
      cases hlast
  obtain ⟨v', o', hrun, hocc, hopen', htwo, hadvanced, -⟩ :=
    @fatShrinkEof_spec g d.volume l _ { o with fileSize := newSize } rounds (hcons.front hl)
      hopen.head hempty (hopen.length ▸ hsize) hcons.two_le (by omega)
  refine ⟨.success, { volume := v', files := d.files.set file o' }, ?_, o', l,
    getElem?_set_self hlt, hl, rfl, hadvanced.fileSize, hcons.set hl hocc hopen' htwo⟩
  simp only [spaceStep, Disk.callFor, ho, Option.bind_eq_bind, Option.bind_some,
    fatTruncateOFile, hrun]

theorem spaceStep_right
    (hrounds : g.maxCluster + 2 < rounds)
    (hcons : Consistent d chains others)
    (hserved : Served d call) :
    ∃ status d', spaceStep rounds d call = some (status, d') ∧
      Right d d' chains others status call := by
  cases call with
  | grow file newSize => exact grow_right hrounds hcons hserved
  | shrink file newSize => exact shrink_right hrounds hcons hserved

theorem Right.consistent
    {status : EfiStatus}
    (hright : Right d d' chains others status call) :
    ∃ chains', Consistent d' chains' others := by
  cases call with
  | grow file newSize =>
      obtain ⟨-, -, -, l', -, -, -, hcons, -⟩ := hright
      exact ⟨_, hcons⟩
  | shrink file newSize =>
      obtain ⟨-, l, -, -, -, -, hcons⟩ := hright
      exact ⟨_, hcons⟩

/-- The volume is consistent after each call of a run, and the next call does what it shall. -/
theorem chains_kept
    {trace : List (Disk g × SpaceCall)}
    (hrounds : g.maxCluster + 2 < rounds)
    (hcons : Consistent d chains others)
    (hrun : Run (fun d call d' => ∃ status, spaceStep rounds d call = some (status, d')) d trace d')
    (hserved : ∀ x ∈ trace, Served x.1 x.2) :
    ∃ chains', Consistent d' chains' others ∧
      ∀ call, Served d' call → ∃ status d'', spaceStep rounds d' call = some (status, d'') ∧
        Right d' d'' chains' others status call := by
  obtain ⟨chains', hcons'⟩ :=
    @Run.invariant _ _ _ (fun d => ∃ chains, Consistent d chains others) Served
      (fun s call s' hs hcall hstep => by
        obtain ⟨chains, hs⟩ := hs
        obtain ⟨status, hstep⟩ := hstep
        obtain ⟨status', s'', hstep', hright⟩ := spaceStep_right hrounds hs hcall
        rw [hstep] at hstep'
        cases hstep'
        exact hright.consistent) d d' trace hrun hserved ⟨chains, hcons⟩
  exact ⟨chains', hcons', fun call hcall => spaceStep_right hrounds hcons' hcall⟩

theorem Consistent.freeCount
    (hcons : Consistent d chains others) :
    (freeClusters d.volume).length + (chains ++ others).flatten.length = g.maxCluster := by
  have hperm : freeClusters d.volume ++ (chains ++ others).flatten ~
      range' fatMinCluster g.maxCluster := by
    refine (perm_ext_iff_of_nodup (nodup_append'.mpr ⟨freeClusters_sorted.nodup,
      hcons.occupies.nodup, fun a hfree hmem => ?_⟩) (nodup_range' ..)).mpr fun a => ?_
    · obtain ⟨l, hl, ha⟩ := mem_flatten.mp hmem
      exact (hcons.occupies.chain l hl).not_free ha (slot_eq_free.mpr (mem_freeClusters.mp hfree).2)
    · have hplace : a ∈ range' fatMinCluster g.maxCluster ↔ IsCluster g a := by
        rw [mem_range'_1, IsCluster, fatMinCluster]
        omega
      rw [hplace, mem_append, mem_freeClusters]
      refine ⟨fun h => h.elim And.left (hcons.occupies.inside a), fun ha => ?_⟩
      by_cases hmem : a ∈ (chains ++ others).flatten
      · exact Or.inr hmem
      · exact Or.inl ⟨ha, slot_eq_free.mp (hcons.occupies.free a ha hmem)⟩
  rw [← length_append, hperm.length_eq, length_range']

theorem Consistent.lengths
    (hcons : Consistent d chains others) :
    chains.map List.length = d.files.map fun o => fatSizeToClusters g o.fileSize := by
  refine ext_getElem? fun i => ?_
  rw [getElem?_map, getElem?_map]
  cases ho : d.files[i]? with
  | none => rw [getElem?_eq_none (hcons.length ▸ getElem?_eq_none_iff.mp ho)]; rfl
  | some o =>
      obtain ⟨l, hl, hopen⟩ := hcons.chainOf ho
      rw [hl, Option.map_some, Option.map_some, hopen.length]

theorem consistent_run
    {trace : List (Disk g × SpaceCall)}
    (hrounds : g.maxCluster + 2 < rounds)
    (hcons : Consistent d chains others)
    (hrun : Run (fun d call d' => ∃ status, spaceStep rounds d call = some (status, d')) d trace d')
    (hserved : ∀ x ∈ trace, Served x.1 x.2) :
    ∃ chains', Consistent d' chains' others := by
  refine hrun.invariant (I := fun d => ∃ chains, Consistent d chains others)
    (fun s call s' hs hcall hstep => ?_) hserved ⟨chains, hcons⟩
  obtain ⟨chains, hs⟩ := hs
  obtain ⟨status, hstep⟩ := hstep
  obtain ⟨status', s'', hstep', hright⟩ := spaceStep_right hrounds hs hcall
  rw [hstep] at hstep'
  cases hstep'
  exact hright.consistent

/-- **No cluster is lost.**  The free clusters, those that the sizes of the open files need, and
those of the other files make up the volume after each run. -/
theorem clusters_accounted
    {trace : List (Disk g × SpaceCall)}
    (hrounds : g.maxCluster + 2 < rounds)
    (hcons : Consistent d chains others)
    (hrun : Run (fun d call d' => ∃ status, spaceStep rounds d call = some (status, d')) d trace d')
    (hserved : ∀ x ∈ trace, Served x.1 x.2) :
    (freeClusters d'.volume).length + (d'.files.map fun o => fatSizeToClusters g o.fileSize).sum +
      others.flatten.length = g.maxCluster := by
  obtain ⟨chains', hcons'⟩ := consistent_run hrounds hcons hrun hserved
  rw [← hcons'.freeCount, ← hcons'.lengths, ← length_flatten, flatten_append, length_append,
    add_assoc]

end Steps

section Sample

/-- A FAT12 volume with one cluster, which is free. -/
def oneCluster : Geometry where
  fatType := .fat12
  maxCluster := 1
  clusterAlignment := 9
  fatSize := 512
  fits := by decide
  room := by decide

/-- An empty file on it. -/
def sampleDisk : Disk oneCluster where
  volume := {
    fat := [0xF8, 0xFF, 0xFF] ++ List.replicate 509 0
    fat_length := by rw [length_append, length_replicate]; rfl
    freeInfoValid := false
    clusterCount := 0
    nextCluster := 2
    fatDirty := false
    dirtyValue := 0 }
  files := [{
    fileSize := 0
    fileCluster := 0
    fileCurrentCluster := 0
    fileLastCluster := 0
    position := 0
    posDisk := 0
    posRem := 0
    isFixedRootDir := false
    dirty := false }]

theorem sample_consistent : Consistent sampleDisk [[]] [] := by
  refine ⟨rfl, fun file o l ho hl => ?_, ⟨fun l hl => ?_, nodup_nil, nofun, fun a ha _ => ?_⟩,
    Nat.le_refl 2⟩
  case refine_1 =>
    cases file with
    | zero =>
        cases ho
        cases hl
        exact ⟨rfl, rfl, Or.inl rfl⟩
    | succ file => cases hl
  case refine_2 =>
    rw [mem_singleton.mp hl]
    exact ⟨trivial, nofun⟩
  case refine_3 =>
    have htwo : a = 2 := Nat.le_antisymm ha.2 ha.1
    rw [htwo]
    rfl

theorem chains_kept_sample :
    ∃ d', (∃ status, spaceStep 10 sampleDisk (.grow 0 512) = some (status, d')) ∧
      ∃ chains', Consistent d' chains' [] ∧
        ∀ call, Served d' call → ∃ status d'', spaceStep 10 d' call = some (status, d'') ∧
          Right d' d'' chains' [] status call := by
  have hserved : Served sampleDisk (.grow 0 512) :=
    ⟨_, rfl, by decide, by decide, by decide, by decide⟩
  obtain ⟨status, d', hstep, -⟩ := @spaceStep_right oneCluster 10 sampleDisk [[]] [] _ (by decide)
    sample_consistent hserved
  refine ⟨d', ⟨status, hstep⟩, chains_kept (by decide) sample_consistent
    (Run.single ⟨status, hstep⟩) fun x hx => ?_⟩
  rw [mem_singleton.mp hx]
  exact hserved

/-- One file of one cluster fills the volume. -/
theorem clusters_accounted_full :
    ∃ d', (∃ status, spaceStep 10 sampleDisk (.grow 0 512) = some (status, d')) ∧
      (freeClusters d'.volume).length +
        (d'.files.map fun o => fatSizeToClusters oneCluster o.fileSize).sum + 0 = 1 := by
  have hserved : Served sampleDisk (.grow 0 512) :=
    ⟨_, rfl, by decide, by decide, by decide, by decide⟩
  obtain ⟨status, d', hstep, -⟩ := @spaceStep_right oneCluster 10 sampleDisk [[]] [] _ (by decide)
    sample_consistent hserved
  refine ⟨d', ⟨status, hstep⟩, clusters_accounted (by decide) sample_consistent
    (Run.single ⟨status, hstep⟩) fun x hx => ?_⟩
  rw [mem_singleton.mp hx]
  exact hserved

/-- The file grows by two clusters on a volume that has one: it is told that it did, and its only
cluster has been linked twice. -/
theorem chains_lost :
    Consistent sampleDisk [[]] [] ∧ ∃ d',
      spaceStep 10 sampleDisk (.grow 0 1024) = some (.success, d') ∧
        ∀ chains, ¬ Consistent d' chains [] := by
  refine ⟨sample_consistent, ?_⟩
  have hgrown : (spaceStep 10 sampleDisk (.grow 0 1024)).map
      (fun result => (result.1, result.2.files.map OFile.fileSize)) =
        some (.success, [1024]) := by
    decide
  obtain ⟨⟨status, d'⟩, hstep, hresult⟩ := Option.map_eq_some_iff.mp hgrown
  injection hresult with hstatus hsizes
  refine ⟨d', by rw [hstep, ← hstatus], fun chains hcons => ?_⟩
  obtain ⟨o, ho⟩ : ∃ o, d'.files[0]? = some o := by
    cases hfiles : d'.files with
    | nil =>
        rw [hfiles] at hsizes
        cases hsizes
    | cons o files => exact ⟨o, rfl⟩
  obtain ⟨l, hl, hopen⟩ := hcons.chainOf ho
  have hsize : o.fileSize = 1024 := by
    have hget := congrArg (fun sizes => sizes[0]?) hsizes
    simp only [getElem?_map, ho, Option.map_some, getElem?_cons_zero] at hget
    exact Option.some.inj hget
  have hlength := chain_length (hcons.front hl)
  rw [hopen.length, hsize] at hlength
  exact absurd hlength (by decide)

end Sample

end Fat
end Udk
