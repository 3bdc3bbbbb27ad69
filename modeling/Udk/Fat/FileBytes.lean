import Udk.Fat.AccessSpecs
import Udk.Fat.SpaceRun

/-!
# Files as byte strings

What the disk shows of the bytes that have been written to the files, and how growing, shrinking
and accessing one file keeps that.
-/

namespace Udk
namespace Fat

open LinkedTable List

variable {g : Layout} {s s' : FileSystem g} {chains others : List (List Nat)} {l l' : List Nat}
  {o o' : OFile} {content : Nat → Nat → Option UInt8} {base buffer : Bytes}
  {file handle rounds position size n p : Nat}

/-- The volume and its open files. -/
def FileSystem.space (s : FileSystem g) : Disk g.toGeometry where
  volume := s.volume
  files := s.files

/-- The chains and the cursors of the files are in order. -/
structure Sound (s : FileSystem g) (chains others : List (List Nat)) : Prop where
  consistent : Consistent s.space chains others
  isFile : ∀ (file : Nat) (o : OFile) (l : List Nat), s.files[file]? = some o →
    chains[file]? = some l → o.isFixedRootDir = false ∧ CursorOk g o l ∧ o.fileSize ≤ 0xFFFFFFFF
  handle : ∀ h ∈ s.handles, h.file < s.files.length ∧ h.position < 2 ^ 64

/-- The disk shows the bytes that have last been written to the open files, and of the other files
the bytes of `base`. -/
structure Represents (s : FileSystem g) (chains others : List (List Nat))
    (content : Nat → Nat → Option UInt8) (base : Bytes) : Prop where
  sound : Sound s chains others
  shown : ∀ (file : Nat) (o : OFile) (l : List Nat) (p : Nat) (b : UInt8),
    s.files[file]? = some o → chains[file]? = some l → content file p = some b →
      p < o.fileSize ∧ s.disk[diskPos g l p]? = some b
  kept : ∀ l ∈ others, ∀ p < l.length * g.clusterSize,
    s.disk[diskPos g l p]? = base[diskPos g l p]?

/-- The bytes after a write. -/
def wrote (content : Nat → Nat → Option UInt8) (file position : Nat) (buffer : Bytes) :
    Nat → Nat → Option UInt8 :=
  fun f p =>
    if f = file ∧ position ≤ p ∧ p < position + buffer.length then buffer[p - position]?
    else content f p

/-- The bytes after an access. -/
def accessed (mode : IoMode) (content : Nat → Nat → Option UInt8) (file position : Nat)
    (buffer : Bytes) : Nat → Nat → Option UInt8 :=
  match mode with
  | .readData => content
  | .writeData => wrote content file position buffer

/-- The bytes of a file that has been cut. -/
def truncated (content : Nat → Nat → Option UInt8) (file size : Nat) :
    Nat → Nat → Option UInt8 :=
  fun f p => if f = file ∧ size ≤ p then none else content f p

section Sizes

theorem le_clusters
    (g : Geometry)
    (size : Nat) :
    size ≤ fatSizeToClusters g size * g.clusterSize := by
  have hpos : 0 < g.clusterSize := Nat.two_pow_pos _
  have hdiv := Nat.div_add_mod' size g.clusterSize
  have hmod := Nat.mod_lt size hpos
  rw [fatSizeToClusters, Nat.add_mul]
  split
  · omega
  · omega

theorem clusters_lt
    (g : Geometry)
    (size : Nat) :
    fatSizeToClusters g size * g.clusterSize < size + g.clusterSize := by
  have hpos : 0 < g.clusterSize := Nat.two_pow_pos _
  have hdiv := Nat.div_add_mod' size g.clusterSize
  have hmod := Nat.mod_lt size hpos
  rw [fatSizeToClusters, Nat.add_mul]
  split
  · omega
  · omega

theorem clusters_mono
    (g : Geometry)
    (hle : n ≤ size) :
    fatSizeToClusters g n ≤ fatSizeToClusters g size := by
  have hsize := le_clusters g size
  have hn := clusters_lt g n
  by_contra hlt
  have hmul := Nat.mul_le_mul_right g.clusterSize (Nat.lt_of_not_le hlt)
  rw [Nat.succ_mul] at hmul
  omega

end Sizes

section Files

section

variable (hsound : Sound s chains others)
include hsound

theorem Sound.chainOf
    (ho : s.files[file]? = some o) :
    ∃ l, chains[file]? = some l ∧ OpenFile g.toGeometry o l ∧ o.isFixedRootDir = false ∧
      CursorOk g o l ∧ o.fileSize ≤ 0xFFFFFFFF := by
  obtain ⟨l, hl, hopen⟩ := hsound.consistent.chainOf ho
  exact ⟨l, hl, hopen, hsound.isFile file o l ho hl⟩

theorem Sound.chain
    (hl : chains[file]? = some l) :
    Chain (slot s.volume) l ∧ (∀ a ∈ l, IsCluster g.toGeometry a) ∧ l.Nodup ∧
      l.length ≤ g.maxCluster := by
  have hocc := hsound.consistent.front hl
  exact ⟨hocc.chain l mem_cons_self,
    fun a ha => hocc.inside a (mem_append_left _ ha), List.Nodup.of_append_left hocc.nodup,
    chain_length hocc⟩

theorem Sound.apart
    (hl : chains[file]? = some l)
    (hl' : l' ∈ chains.eraseIdx file ++ others)
    {p' : Nat}
    (hp : p < l.length * g.clusterSize)
    (hp' : p' < l'.length * g.clusterSize) :
    diskPos g l' p' ≠ diskPos g l p := by
  intro heq
  have hocc := hsound.consistent.front hl
  have hmem : ∀ a ∈ l', a ∈ (chains.eraseIdx file ++ others).flatten :=
    fun a ha => mem_flatten.mpr ⟨l', hl', ha⟩
  obtain ⟨-, a, ha', ha⟩ := diskPos_inj
    (fun a ha => hocc.inside a (mem_append_right _ (hmem a ha)))
    (fun a ha => hocc.inside a (mem_append_left _ ha)) hp' hp heq
  exact disjoint_of_nodup_append hocc.nodup (mem_of_getElem? ha)
    (hmem a (mem_of_getElem? ha'))

theorem Sound.lt_length
    (ho : s.files[file]? = some o)
    (hl : chains[file]? = some l)
    (hp : p < o.fileSize) :
    p < l.length * g.clusterSize := by
  have hopen := hsound.consistent.isOpen file o l ho hl
  rw [hopen.length]
  exact hp.trans_le (le_clusters ..)

theorem Sound.update
    (hcons : Consistent s'.space (chains.set file l') others)
    (hl : chains[file]? = some l)
    (hfiles : s'.files = s.files.set file o')
    (hfile : o'.isFixedRootDir = false ∧ CursorOk g o' l' ∧ o'.fileSize ≤ 0xFFFFFFFF)
    (hhandle : ∀ h ∈ s'.handles, h.file < s.files.length ∧ h.position < 2 ^ 64) :
    Sound s' (chains.set file l') others := by
  have hlt := (List.getElem?_eq_some_iff.mp hl).1
  refine ⟨hcons, fun f q m hq hm => ?_, fun h hh => ?_⟩
  case refine_1 =>
    by_cases hf : file = f
    · subst hf
      rw [getElem?_set_self hlt] at hm
      rw [hfiles, getElem?_set_self (hsound.consistent.length ▸ hlt)] at hq
      cases hm
      cases hq
      exact hfile
    · rw [getElem?_set_ne hf] at hm
      rw [hfiles, getElem?_set_ne hf] at hq
      exact hsound.isFile f q m hq hm
  case refine_2 =>
    rw [hfiles, length_set]
    exact hhandle h hh

end

theorem Represents.update
    {content' : Nat → Nat → Option UInt8}
    (hrep : Represents s chains others content base)
    (hsound : Sound s' (chains.set file l') others)
    (hl : chains[file]? = some l)
    (hfiles : s'.files = s.files.set file o')
    (htouched : ∀ q, (∀ p < l'.length * g.clusterSize, q ≠ diskPos g l' p) →
      s'.disk[q]? = s.disk[q]?)
    (hother : ∀ f p, f ≠ file → content' f p = content f p)
    (hown : ∀ p b, content' file p = some b →
      p < o'.fileSize ∧ s'.disk[diskPos g l' p]? = some b) :
    Represents s' (chains.set file l') others content' base := by
  have hlt := (List.getElem?_eq_some_iff.mp hl).1
  have hl' : (chains.set file l')[file]? = some l' := getElem?_set_self hlt
  refine ⟨hsound, fun f q m p b hq hm hb => ?_, fun m hm p hp => ?_⟩
  case refine_1 =>
    by_cases hf : f = file
    · subst hf
      rw [hl'] at hm
      rw [hfiles, getElem?_set_self (hrep.sound.consistent.length ▸ hlt)] at hq
      cases hm
      cases hq
      exact hown p b hb
    · rw [hother f p hf] at hb
      have hm' := hm
      rw [getElem?_set_ne (Ne.symm hf)] at hm'
      rw [hfiles, getElem?_set_ne (Ne.symm hf)] at hq
      obtain ⟨hsize, hdisk⟩ := hrep.shown f q m p b hq hm' hb
      refine ⟨hsize, (htouched _ fun p' hp' => ?_).trans hdisk⟩
      exact hsound.apart hl' (mem_append_left _ (mem_eraseIdx_iff_getElem?.mpr
        ⟨f, hf, hm⟩)) hp' (hrep.sound.lt_length hq hm' hsize)
  case refine_2 =>
    refine (htouched _ fun p' hp' => ?_).trans (hrep.kept m hm p hp)
    exact hsound.apart hl' (mem_append_right _ hm) hp' hp

end Files

section Primitives

variable {part : Bytes} {mode : IoMode}

theorem cursor_extended
    (hcursor : CursorOk g o l)
    (hextends : l <+: l')
    (hadvanced : Advanced { o with fileSize := o'.fileSize } o') :
    CursorOk g o' l' := by
  rcases hadvanced.cursor with ⟨hhead, hcur⟩ | hcur
  · rcases hcursor with hfirst | ⟨k, hk, hl⟩
    · exact Or.inl (hcur.trans (hfirst.trans hhead.symm))
    · refine Or.inr ⟨k, hadvanced.position.trans hk, ?_⟩
      obtain ⟨hlt, -⟩ := List.getElem?_eq_some_iff.mp hl
      obtain ⟨new, rfl⟩ := hextends
      rw [getElem?_append_left hlt, hl, hcur]
  · exact Or.inl hcur

theorem diskPos_extended
    (hextends : l <+: l')
    (hp : p < l.length * g.clusterSize) :
    diskPos g l' p = diskPos g l p := by
  have hlt : p / g.clusterSize < l.length := (Nat.div_lt_iff_lt_mul clusterSize_pos).mpr hp
  obtain ⟨new, rfl⟩ := hextends
  rw [diskPos, diskPos, getElem?_append_left hlt]

theorem Represents.grow
    (hrounds : g.maxCluster + 2 < rounds)
    (hrep : Represents s chains others content base)
    (ho : s.files[file]? = some o)
    (hsize : o.fileSize < size)
    (hself : size ≤ 0xFFFFFFFF →
      ¬ LinksItself s.volume (neededClusters g.toGeometry o size)) :
    ∃ status v o' chains', fatGrowEof rounds s.volume o size = some (status, v, o') ∧
      Represents { s with volume := v, files := s.files.set file o' } chains' others content base ∧
      (status = .success → o'.fileSize = size) ∧
      (status ≠ .success → o'.fileSize = o.fileSize) := by
  obtain ⟨l, hl, hopen, hroot, hcursor, hsmall⟩ := hrep.sound.chainOf ho
  obtain ⟨status, v, o', l', hrun, hextended, hiff, hdone, hold⟩ :=
    fatGrowEof_spec hrounds (hrep.sound.consistent.front hl) hopen hrep.sound.consistent.two_le
      (clusters_mono _ hsize.le) hself
  have hle : o.fileSize ≤ o'.fileSize ∧ o'.fileSize ≤ 0xFFFFFFFF := by
    by_cases hstatus : status = .success
    · rw [hdone hstatus]
      exact ⟨hsize.le, (hiff.mp hstatus).1⟩
    · rw [(hold hstatus).2.1]
      exact ⟨Nat.le_refl _, hsmall⟩
  refine ⟨status, v, o', chains.set file l', hrun, ?_, hdone, fun h => (hold h).2.1⟩
  have hcons := hrep.sound.consistent.set hl hextended.occupies hextended.isOpen hextended.two_le
  have hroot' : o'.isFixedRootDir = false := hextended.advanced.isFixedRootDir.trans hroot
  have hsound := @Sound.update g s { s with volume := v, files := s.files.set file o' } chains
    others l l' o' file hrep.sound hcons hl rfl
    ⟨hroot', cursor_extended hcursor hextended.keeps hextended.advanced, hle.2⟩ hrep.sound.handle
  refine @Represents.update g s _ chains others l l' o' content base file content hrep hsound hl rfl
    (fun _ _ => rfl) (fun _ _ _ => rfl) (fun p b hb => ?_)
  obtain ⟨hp, hdisk⟩ := hrep.shown file o l p b ho hl hb
  refine ⟨hp.trans_le hle.1, ?_⟩
  rw [diskPos_extended hextended.keeps (hrep.sound.lt_length ho hl hp)]
  exact hdisk

/-- A file is cut. -/
theorem Represents.shrink
    (hrounds : g.maxCluster + 2 < rounds)
    (hrep : Represents s chains others content base)
    (ho : s.files[file]? = some o)
    (hsize : size ≤ o.fileSize) :
    ∃ v o' chains', fatTruncateOFile rounds s.volume o size = some (.success, v, o') ∧
      Represents { s with volume := v, files := s.files.set file o' } chains' others
        (truncated content file size) base := by
  obtain ⟨l, hl, hopen, hroot, hcursor, hsmall⟩ := hrep.sound.chainOf ho
  have hempty : l = [] → o.fileLastCluster = 0 := by
    intro hnil
    rcases hopen.isLast with hzero | hlast
    · exact hzero
    · rw [hnil] at hlast
      cases hlast
  obtain ⟨v', o', hrun, hocc, hopen', htwo, hadvanced, hcur⟩ :=
    @fatShrinkEof_spec g.toGeometry s.volume l _ { o with fileSize := size } rounds
      (hrep.sound.consistent.front hl) hopen.head hempty
      (hopen.length ▸ clusters_mono _ hsize) hrep.sound.consistent.two_le (by omega)
  have hcons := hrep.sound.consistent.set hl hocc hopen' htwo
  have hnew : o'.fileSize = size := hadvanced.fileSize
  have hcursor' : o'.fileCurrentCluster = o'.fileCluster := by
    rcases hcur with rfl | hcur
    · rcases hadvanced.cursor with ⟨hhead, hcur⟩ | hcur
      · rcases hcursor with hfirst | ⟨k, -, hk⟩
        · exact hcur.trans (hfirst.trans hhead.symm)
        · cases hk
      · exact hcur
    · exact hcur
  have hsound := @Sound.update g s { s with volume := v', files := s.files.set file o' } chains
    others l _ o' file hrep.sound hcons hl rfl
    ⟨hadvanced.isFixedRootDir.trans hroot, Or.inl hcursor', by omega⟩ hrep.sound.handle
  refine ⟨v', o', _, hrun, @Represents.update g s _ chains others l _ o' content base file
    (truncated content file size) hrep hsound hl rfl (fun _ _ => rfl)
    (fun f p hf => if_neg fun h => hf h.1) (fun p b hb => ?_)⟩
  have hp : p < size := by
    by_contra hle
    rw [truncated, if_pos ⟨rfl, Nat.le_of_not_lt hle⟩] at hb
    cases hb
  rw [truncated, if_neg (fun h => Nat.not_le.mpr hp h.2)] at hb
  obtain ⟨_, hdisk⟩ := hrep.shown file o l p b ho hl hb
  have hpos := @clusterSize_pos g
  have hclusters := le_clusters g.toGeometry size
  have hq : p / g.clusterSize < fatSizeToClusters g.toGeometry size :=
    (Nat.div_lt_iff_lt_mul hpos).mpr (by omega)
  rw [diskPos, getElem?_take_of_lt hq]
  exact ⟨hnew ▸ hp, hdisk⟩

theorem set_self
    {α : Type}
    {items : List α}
    {item : α}
    (hitem : items[n]? = some item) :
    items.set n item = items := by
  obtain ⟨hlt, rfl⟩ := List.getElem?_eq_some_iff.mp hitem
  exact set_getElem_self hlt

theorem Transferred.rest
    (htransfer : Transferred s s' l position buffer part mode) :
    s'.readOnly = s.readOnly ∧ s'.files = s.files ∧ s'.handles = s.handles ∧
      part.length = buffer.length := by
  cases mode with
  | readData =>
      obtain ⟨rfl, hlength, -⟩ := htransfer
      exact ⟨rfl, rfl, rfl, hlength⟩
  | writeData =>
      obtain ⟨rfl, -, hs⟩ := htransfer
      rw [hs]
      exact ⟨rfl, rfl, rfl, rfl⟩

theorem Transferred.elsewhere
    {q : Nat}
    (htransfer : Transferred s s' l position buffer part mode)
    (hq : ∀ i < buffer.length, q ≠ diskPos g l (position + i)) :
    s'.disk[q]? = s.disk[q]? := by
  cases mode with
  | readData => rw [htransfer.1]
  | writeData => exact htransfer.2.1.elsewhere q hq

theorem accessed_other
    {f : Nat}
    (hf : f ≠ file) :
    accessed mode content file position buffer f p = content f p := by
  cases mode with
  | readData => rfl
  | writeData => exact if_neg fun h => hf h.1

theorem Transferred.shown
    {b : UInt8}
    (htransfer : Transferred s s' l position buffer part mode)
    (hinside : ∀ a ∈ l, IsCluster g.toGeometry a)
    (hnodup : l.Nodup)
    (hsize : size ≤ l.length * g.clusterSize)
    (hend : position + buffer.length ≤ size)
    (hold : ∀ p b, content file p = some b → p < size ∧ s.disk[diskPos g l p]? = some b)
    (hb : accessed mode content file position buffer file p = some b) :
    p < size ∧ s'.disk[diskPos g l p]? = some b := by
  cases mode with
  | readData =>
      obtain ⟨rfl, -, -⟩ := htransfer
      exact hold p b hb
  | writeData =>
      obtain ⟨-, hwritten, -⟩ := htransfer
      rw [accessed, wrote] at hb
      split at hb
      next hin =>
        obtain ⟨-, hle, hlt⟩ := hin
        have hthere := hwritten.there (p - position) (by omega)
        rw [Nat.add_sub_cancel' hle] at hthere
        exact ⟨by omega, hthere.trans hb⟩
      next hout =>
        obtain ⟨hp, hdisk⟩ := hold p b hb
        refine ⟨hp, (hwritten.elsewhere _ fun i hi heq => hout ?_).trans hdisk⟩
        have hpi := diskPos_inj_self hinside hnodup (by omega) (by omega) heq
        exact ⟨rfl, by omega, by omega⟩

/-- The file system with a changed file. -/
def FileSystem.setFile (s : FileSystem g) (file : Nat) (o : OFile) : FileSystem g :=
  { s with files := s.files.set file o }

theorem setFile_self
    (ho : s.files[file]? = some o) :
    s.setFile file o = s := by
  rw [FileSystem.setFile, set_self ho]

/-- The bytes of a file are accessed. -/
theorem Represents.access
    (hrounds : g.maxCluster + 2 < rounds)
    (hrep : Represents (s.setFile file o) chains others content base)
    (hfile : file < s.files.length)
    (hend : position + buffer.length ≤ o.fileSize) :
    ∃ s' o' part, fatAccessOFile rounds mode rounds s o position buffer =
        some (.success, s', o', part) ∧ o'.fileSize = o.fileSize ∧
      part.length = buffer.length ∧ s'.files = s.files ∧ s'.handles = s.handles ∧
      (∀ handles, (∀ h ∈ handles, h.file < s.files.length ∧ h.position < 2 ^ 64) →
        Represents { s'.setFile file o' with handles := handles } chains others
          (accessed mode content file position buffer) base) ∧
      (mode = .readData → ∀ i b, i < buffer.length → content file (position + i) = some b →
        part[i]? = some b) := by
  have ho : (s.setFile file o).files[file]? = some o := getElem?_set_self hfile
  obtain ⟨l, hl, hopen, hroot, hcursor, hsmall⟩ := hrep.sound.chainOf ho
  obtain ⟨hchain, hinside, hnodup, hmax⟩ := hrep.sound.chain hl
  have hsize : o.fileSize ≤ l.length * g.clusterSize := hopen.length ▸ le_clusters ..
  obtain ⟨s', o', part, hrun, htransfer, haccessed⟩ := @fatAccessOFile_spec g s l o rounds rounds
    position buffer mode hchain hinside hnodup hroot hopen.head hcursor (by omega) (by omega)
    (by omega) (fun _ => (Nat.sub_le ..).trans_lt (by omega))
  obtain ⟨hreadOnly, hfiles, hhandles, hlength⟩ := htransfer.rest
  have hset : s'.files.set file o' = (s.setFile file o).files.set file o' := by
    rw [hfiles, FileSystem.setFile, set_set]
  refine ⟨s', o', part, hrun, haccessed.fileSize, hlength, hfiles, hhandles, fun handles hall => ?_,
    fun hmode i b hi hb => ?_⟩
  case refine_1 =>
    have hopen' : OpenFile g.toGeometry o' l :=
      ⟨hopen.length.trans (congrArg _ haccessed.fileSize.symm),
        haccessed.fileCluster.trans hopen.head, haccessed.fileLastCluster ▸ hopen.isLast⟩
    have hcons := @Consistent.set g.toGeometry (s.setFile file o).space chains others l l o'
      s'.volume file hrep.sound.consistent hl (htransfer.volume ▸ hrep.sound.consistent.front hl)
      hopen' (htransfer.volume ▸ hrep.sound.consistent.two_le)
    have hstate : Sound { s'.setFile file o' with handles := handles }
        (chains.set file l) others := by
      refine @Sound.update g (s.setFile file o) _ chains others l l o' file hrep.sound ?_ hl hset
        ⟨?_, haccessed.cursor, ?_⟩ ?_
      · rw [FileSystem.space]
        dsimp only [FileSystem.setFile]
        rw [hset]
        exact hcons
      · exact haccessed.isFixedRootDir.trans hroot
      · rw [haccessed.fileSize]
        exact hsmall
      · intro h hh
        rw [FileSystem.setFile, length_set]
        exact hall h hh
    have hresult := @Represents.update g (s.setFile file o) { s'.setFile file o' with
        handles := handles } chains others l l o' content base file
      (accessed mode content file position buffer) hrep hstate hl hset ?_ ?_ ?_
    · rwa [set_self hl] at hresult
    · exact fun q hq => htransfer.elsewhere fun i hi => hq _ (by omega)
    · exact fun f p hf => accessed_other hf
    · intro p b hb
      rw [haccessed.fileSize]
      exact htransfer.shown hinside hnodup hsize hend
        (fun p b hb => hrep.shown file o l p b ho hl hb) hb
  case refine_2 =>
    subst hmode
    obtain ⟨rfl, -, hread⟩ := htransfer
    exact (hread i hi).trans (hrep.shown file o l _ b ho hl hb).2

theorem Represents.access_refused
    (hrounds : g.maxCluster + 2 < rounds)
    (hrep : Represents s chains others content base)
    (ho : s.files[file]? = some o)
    (hposition : 2 ^ 33 ≤ position)
    (hbuffer : 0 < buffer.length) :
    fatAccessOFile rounds mode rounds s o position buffer =
      some (.volumeCorrupted, s, o, []) := by
  obtain ⟨l, hl, hopen, hroot, hcursor, hsmall⟩ := hrep.sound.chainOf ho
  obtain ⟨hchain, hinside, _, hmax⟩ := hrep.sound.chain hl
  have hbehind : (l.length + 1) * g.clusterSize ≤ position := by
    have hlt := clusters_lt g.toGeometry o.fileSize
    have hcluster : g.clusterSize ≤ 2 ^ 19 := Nat.pow_le_pow_right (by omega) g.alignment_le
    rw [hopen.length, Nat.succ_mul]
    omega
  have hcorrupt := @fatOFilePosition_corrupt g s.volume l o rounds position buffer.length hchain
    hinside hroot hopen.head hcursor hbehind (by omega)
  cases rounds with
  | zero => exact absurd hrounds (Nat.not_lt_zero _)
  | succ rounds =>
      rw [fatAccessOFile, if_neg (Nat.ne_of_gt hbuffer)]
      simp only [Option.bind_eq_bind, hcorrupt, Option.bind_some, ne_eq, reduceCtorEq,
        not_false_eq_true, if_true]

end Primitives

end Fat
end Udk
