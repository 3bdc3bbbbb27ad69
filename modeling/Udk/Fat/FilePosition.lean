import Udk.Fat.ShrinkEof

/-!
# Positions in a file

`FatOFilePosition` follows the chain to the cluster of a position, from the cluster of the last
access where it can, and finds how many bytes lie behind it on the disk without a gap.
-/

namespace Udk
namespace Fat

open LinkedTable List

/-- Where `FatOpenDevice` finds the clusters on the disk. -/
structure Layout extends Geometry where
  rootPos : Nat
  firstClusterPos : Nat
  volumeSize : Nat
  inside : firstClusterPos + maxCluster * toGeometry.clusterSize ≤ volumeSize
  volumeSize_lt : volumeSize < 2 ^ 64
  /-- `MAX_BLOCK_ALIGNMENT` and `MAX_SECTORS_PER_CLUSTER_ALIGNMENT`. -/
  alignment_le : clusterAlignment ≤ 12 + 7

variable {g : Layout} {v : Volume g.toGeometry} {l : List Nat} {o o' : OFile}
  {n rounds cluster startPos position posLimit run p : Nat}

/-- The loop of `FatOFilePosition` along the chain; nothing for a corrupt chain. -/
def seekCluster (v : Volume g.toGeometry) (position : Nat) :
    Nat → Nat → Nat → Option (Option (Nat × Nat))
  | 0, _, _ => none
  | rounds + 1, startPos, cluster =>
      if startPos + g.clusterSize ≤ position then
        if corruptCluster cluster then some none
        else seekCluster v position rounds (startPos + g.clusterSize) (fatGetFatEntry v cluster)
      else some (some (startPos, cluster))

/-- The loop of `FatOFilePosition` over consecutive clusters. -/
def runLength (v : Volume g.toGeometry) (posLimit : Nat) : Nat → Nat → Nat → Option Nat
  | 0, _, _ => none
  | rounds + 1, cluster, run =>
      if fatGetFatEntry v cluster = cluster + 1 ∧ run < posLimit then
        runLength v posLimit rounds (cluster + 1) (run + g.clusterSize)
      else some run

/-- `FatOFilePosition`. -/
def fatOFilePosition (rounds : Nat) (v : Volume g.toGeometry) (o : OFile)
    (position posLimit : Nat) : Option (EfiStatus × OFile) :=
  if o.isFixedRootDir then
    some (.success, { o with
      posDisk := (g.rootPos + position) % 2 ^ 64
      posRem := o.fileSize - position })
  else
    let restart := position < o.position ∨ o.fileCluster = o.fileCurrentCluster
    do
      let found ← seekCluster v position rounds
        (if restart then 0 else o.position)
        (if restart then o.fileCluster else o.fileCurrentCluster)
      match found with
      | none => some (.volumeCorrupted, o)
      | some (startPos, cluster) =>
          if cluster < fatMinCluster then some (.volumeCorrupted, o)
          else do
            let posDisk := (g.firstClusterPos + (cluster - fatMinCluster) * g.clusterSize +
              position - startPos) % 2 ^ 64
            let run := startPos + g.clusterSize - position
            let run ←
              if fatEndOfFatChain cluster then some run
              else runLength v posLimit rounds cluster run
            some (.success, { o with
              posDisk := posDisk
              fileCurrentCluster := cluster
              position := startPos
              posRem := run })

/-- The place on the disk of a byte of a file. -/
def diskPos (g : Layout) (l : List Nat) (p : Nat) : Nat :=
  g.firstClusterPos + (l[p / g.clusterSize]?.getD 0 - fatMinCluster) * g.clusterSize +
    p % g.clusterSize

/-- "Assumption: OFile->Position is always consistent with OFile->FileCurrentCluster", unless the
latter is the first cluster. -/
def CursorOk (g : Layout) (o : OFile) (l : List Nat) : Prop :=
  o.fileCurrentCluster = o.fileCluster ∨
    ∃ k, o.position = k * g.clusterSize ∧ l[k]? = some o.fileCurrentCluster

section Walk

theorem clusterSize_pos : 0 < g.clusterSize :=
  Nat.two_pow_pos _

/-- The walk arrives at the cluster of the position. -/
theorem seekCluster_spec
    (hchain : Chain (slot v) l)
    (hinside : ∀ a ∈ l, IsCluster g.toGeometry a)
    (hstart : l[0]? = some cluster)
    (hn : n < l.length)
    (hlow : startPos + n * g.clusterSize ≤ position)
    (hhigh : position < startPos + (n + 1) * g.clusterSize)
    (hrounds : n < rounds) :
    seekCluster v position rounds startPos cluster =
      some (some (startPos + n * g.clusterSize, l[n]?.getD 0)) := by
  induction n generalizing l startPos cluster rounds with
  | zero =>
      cases rounds with
      | zero => exact absurd hrounds (Nat.lt_irrefl 0)
      | succ rounds =>
          rw [seekCluster, if_neg (by omega), hstart, Nat.zero_mul, Nat.add_zero]
          rfl
  | succ n ih =>
      cases rounds with
      | zero => exact absurd hrounds (Nat.not_lt_zero _)
      | succ rounds =>
          cases l with
          | nil => exact absurd hn (Nat.not_lt_zero _)
          | cons a l =>
              obtain rfl : a = cluster := Option.some.inj hstart
              have ha := hinside a mem_cons_self
              have hn' : n < l.length := Nat.lt_of_succ_lt_succ hn
              have hnext : l[0]? = some (fatGetFatEntry v a) := by
                cases l with
                | nil => exact absurd hn' (Nat.not_lt_zero _)
                | cons b l => exact congrArg some (follows_entry hchain).symm
              rw [Nat.succ_mul] at hlow
              rw [Nat.succ_mul (n + 1)] at hhigh
              have hstep := ih hchain.tail (fun b hb => hinside b (mem_cons_of_mem a hb)) hnext
                hn' (show startPos + g.clusterSize + n * g.clusterSize ≤ position by omega)
                (by rw [Nat.succ_mul] at hhigh ⊢; omega) (Nat.lt_of_succ_lt_succ hrounds)
              rw [seekCluster, if_pos (by omega), if_neg ha.not_corrupt, hstep,
                getElem?_cons_succ, Nat.succ_mul]
              congr 3
              omega

theorem seekCluster_corrupt
    (hchain : Chain (slot v) l)
    (hinside : ∀ a ∈ l, IsCluster g.toGeometry a)
    (hstart : ∀ a ∈ l[0]?, cluster = a)
    (hempty : l = [] → corruptCluster cluster)
    (hbehind : startPos + (l.length + 1) * g.clusterSize ≤ position)
    (hrounds : l.length < rounds) :
    seekCluster v position rounds startPos cluster = some none := by
  induction l generalizing startPos cluster rounds with
  | nil =>
      cases rounds with
      | zero => exact absurd hrounds (Nat.not_lt_zero _)
      | succ rounds =>
          rw [length_nil, Nat.zero_add, Nat.one_mul] at hbehind
          rw [seekCluster, if_pos hbehind, if_pos (hempty rfl)]
  | cons a l ih =>
      cases rounds with
      | zero => exact absurd hrounds (Nat.not_lt_zero _)
      | succ rounds =>
          obtain rfl : cluster = a := hstart a rfl
          have ha := hinside cluster mem_cons_self
          have hfollows := follows_entry hchain
          rw [length_cons, Nat.succ_mul] at hbehind
          have hstep := @ih rounds (fatGetFatEntry v cluster) (startPos + g.clusterSize)
            hchain.tail (fun b hb => hinside b (mem_cons_of_mem cluster hb))
            (fun b hb => ?_) (fun hnil => ?_) (by omega) (Nat.lt_of_succ_lt_succ hrounds)
          · rw [seekCluster, if_pos (by omega), if_neg ha.not_corrupt, hstep]
          · cases l with
            | nil => cases hb
            | cons c l => exact hfollows.trans (Option.some.inj hb)
          · rw [hnil] at hfollows
            exact Or.inr (Nat.le_of_lt hfollows)

/-- The loop counts the clusters that lie one behind the other. -/
theorem runLength_spec
    (hchain : Chain (slot v) l)
    (hinside : ∀ a ∈ l, IsCluster g.toGeometry a)
    (hstart : l[0]? = some cluster)
    (hrounds : l.length ≤ rounds) :
    ∃ k, k < l.length ∧ runLength v posLimit rounds cluster run = some (run + k * g.clusterSize) ∧
      ∀ i ≤ k, l[i]? = some (cluster + i) := by
  induction l generalizing cluster run rounds with
  | nil => cases hstart
  | cons a l ih =>
      obtain rfl : a = cluster := Option.some.inj hstart
      cases rounds with
      | zero => exact absurd hrounds (Nat.not_succ_le_zero _)
      | succ rounds =>
          have hfirst : ∀ i ≤ 0, (a :: l)[i]? = some (a + i) := by
            intro i hi
            rw [Nat.le_zero.mp hi]
            rfl
          rw [runLength]
          split
          next hnext =>
            cases l with
            | nil =>
                have hend : fatEndOfFatChain (fatGetFatEntry v a) := follows_entry hchain
                have hlt := (hinside a mem_cons_self).lt_two_pow
                rw [hnext.1] at hend
                simp only [fatEndOfFatChain, fatClusterSpecial] at hend
                omega
            | cons b l =>
                have hb : b = a + 1 := (slot_eq_link hchain.1.1).symm.trans hnext.1
                obtain ⟨k, hk, hrun, hlist⟩ := @ih rounds (a + 1) (run + g.clusterSize) hchain.tail
                  (fun c hc => hinside c (mem_cons_of_mem a hc)) (congrArg some hb)
                  (Nat.le_of_succ_le_succ hrounds)
                refine ⟨k + 1, Nat.succ_lt_succ hk, ?_, fun i hi => ?_⟩
                · rw [hrun, Nat.succ_mul]
                  congr 1
                  omega
                · cases i with
                  | zero => exact hfirst 0 (Nat.le_refl 0)
                  | succ i =>
                      rw [getElem?_cons_succ, hlist i (Nat.le_of_succ_le_succ hi)]
                      congr 1
                      omega
          next hnext =>
            exact ⟨0, Nat.succ_pos _, by rw [Nat.zero_mul, Nat.add_zero], hfirst⟩

end Walk

section Position

theorem diskPos_eq
    (hl : l[p / g.clusterSize]? = some cluster) :
    diskPos g l p =
      g.firstClusterPos + (cluster - fatMinCluster) * g.clusterSize + p % g.clusterSize := by
  rw [diskPos, hl, Option.getD_some]

theorem diskPos_lt
    (hinside : ∀ a ∈ l, IsCluster g.toGeometry a)
    (hp : p < l.length * g.clusterSize) :
    diskPos g l p < g.volumeSize := by
  have hpos := @clusterSize_pos g
  have hq : p / g.clusterSize < l.length := (Nat.div_lt_iff_lt_mul hpos).mpr hp
  have hl := getElem?_eq_getElem hq
  have hcluster := hinside _ (getElem_mem hq)
  have hmod := Nat.mod_lt p hpos
  have hmul : (l[p / g.clusterSize] - fatMinCluster + 1) * g.clusterSize ≤
      g.maxCluster * g.clusterSize := by
    refine Nat.mul_le_mul_right _ ?_
    have hlow := hcluster.1
    have hhigh := hcluster.2
    simp only [fatMinCluster] at hlow ⊢
    omega
  have hroom := g.inside
  rw [diskPos_eq hl]
  rw [Nat.succ_mul] at hmul
  omega

theorem diskPos_add
    {k i : Nat}
    (hlist : ∀ j ≤ k, l[p / g.clusterSize + j]? = some (cluster + j))
    (hcluster : fatMinCluster ≤ cluster)
    (hi : p % g.clusterSize + i < (k + 1) * g.clusterSize) :
    diskPos g l (p + i) = diskPos g l p + i := by
  have hpos := @clusterSize_pos g
  have ht : (p % g.clusterSize + i) / g.clusterSize ≤ k :=
    Nat.le_of_lt_succ ((Nat.div_lt_iff_lt_mul hpos).mpr hi)
  have hsum : p + i = p % g.clusterSize + i + p / g.clusterSize * g.clusterSize := by
    have := Nat.div_add_mod' p g.clusterSize
    omega
  have hdiv : (p + i) / g.clusterSize =
      p / g.clusterSize + (p % g.clusterSize + i) / g.clusterSize := by
    rw [hsum, Nat.add_mul_div_right _ _ hpos, Nat.add_comm]
  have hmod : (p + i) % g.clusterSize = (p % g.clusterSize + i) % g.clusterSize := by
    rw [Nat.mod_add_mod]
  have hfirst := hlist 0 (Nat.zero_le k)
  have hnext := hlist _ ht
  rw [← hdiv] at hnext
  have hmul : (cluster + (p % g.clusterSize + i) / g.clusterSize - fatMinCluster) * g.clusterSize =
      (cluster - fatMinCluster) * g.clusterSize +
        (p % g.clusterSize + i) / g.clusterSize * g.clusterSize := by
    rw [← Nat.add_mul, Nat.sub_add_comm hcluster]
  have hsplit := Nat.div_add_mod' (p % g.clusterSize + i) g.clusterSize
  rw [diskPos_eq hnext, diskPos_eq hfirst, hmod, hmul, Nat.add_zero]
  omega

/-- The walk from the cluster of the last access, or from the first one. -/
theorem seek_found
    (hchain : Chain (slot v) l)
    (hinside : ∀ a ∈ l, IsCluster g.toGeometry a)
    (hhead : o.fileCluster = l.head?.getD 0)
    (hcursor : CursorOk g o l)
    (hposition : position < l.length * g.clusterSize)
    (hrounds : l.length < rounds) :
    seekCluster v position rounds
      (if position < o.position ∨ o.fileCluster = o.fileCurrentCluster then 0 else o.position)
      (if position < o.position ∨ o.fileCluster = o.fileCurrentCluster then o.fileCluster
        else o.fileCurrentCluster) =
      some (some (position / g.clusterSize * g.clusterSize,
        l[position / g.clusterSize]?.getD 0)) := by
  have hpos := @clusterSize_pos g
  have hq : position / g.clusterSize < l.length := (Nat.div_lt_iff_lt_mul hpos).mpr hposition
  have hdiv := Nat.div_add_mod' position g.clusterSize
  have hmod := Nat.mod_lt position hpos
  by_cases hrestart : position < o.position ∨ o.fileCluster = o.fileCurrentCluster
  · have hstart : l[0]? = some o.fileCluster := by
      rw [hhead, ← head?_eq_getElem?]
      cases l with
      | nil => exact absurd hq (Nat.not_lt_zero _)
      | cons a l => rfl
    rw [if_pos hrestart, if_pos hrestart, seekCluster_spec hchain hinside hstart hq (by omega)
      (by rw [Nat.succ_mul]; omega) (by omega), Nat.zero_add]
  · obtain ⟨_, hne⟩ := not_or.mp hrestart
    obtain ⟨k, hk, hcur⟩ := hcursor.resolve_left fun heq => hne heq.symm
    have hkq : k ≤ position / g.clusterSize := by
      rw [Nat.le_div_iff_mul_le hpos]
      omega
    obtain ⟨d, hd⟩ := Nat.exists_eq_add_of_le hkq
    have hmul : position / g.clusterSize * g.clusterSize = o.position + d * g.clusterSize := by
      rw [hd, Nat.add_mul, hk]
    rw [if_neg hrestart, if_neg hrestart, @seekCluster_spec g v (l.drop k) d rounds
      o.fileCurrentCluster o.position position (hchain.drop k)
      (fun a ha => hinside a (mem_of_mem_drop ha))
      (by rw [getElem?_drop, Nat.add_zero, hcur]) (by rw [length_drop]; omega) (by omega)
      (by rw [Nat.succ_mul]; omega) (by omega), hmul, getElem?_drop, hd]

/-- The file as `FatOFilePosition` leaves it. -/
structure Positioned (g : Layout) (o o' : OFile) (l : List Nat) (position : Nat) : Prop where
  kept : o' = { o with
    posDisk := diskPos g l position
    fileCurrentCluster := o'.fileCurrentCluster
    position := o'.position
    posRem := o'.posRem }
  cursor : CursorOk g o' l
  posRem_pos : 0 < o'.posRem
  /-- The bytes up to the end of a cluster. -/
  boundary : ∃ q, position + o'.posRem = q * g.clusterSize ∧ position / g.clusterSize < q
  consecutive : ∀ i < o'.posRem, diskPos g l (position + i) = diskPos g l position + i

theorem fatOFilePosition_spec
    (hchain : Chain (slot v) l)
    (hinside : ∀ a ∈ l, IsCluster g.toGeometry a)
    (hroot : o.isFixedRootDir = false)
    (hhead : o.fileCluster = l.head?.getD 0)
    (hcursor : CursorOk g o l)
    (hposition : position < l.length * g.clusterSize)
    (hrounds : l.length < rounds) :
    ∃ o', fatOFilePosition rounds v o position posLimit = some (.success, o') ∧
      Positioned g o o' l position := by
  have hpos := @clusterSize_pos g
  have hq : position / g.clusterSize < l.length := (Nat.div_lt_iff_lt_mul hpos).mpr hposition
  have hdiv := Nat.div_add_mod' position g.clusterSize
  have hmod := Nat.mod_lt position hpos
  obtain ⟨cluster, hcluster⟩ : ∃ cluster, l[position / g.clusterSize]? = some cluster :=
    ⟨_, getElem?_eq_getElem hq⟩
  have hc := hinside cluster (mem_of_getElem? hcluster)
  obtain ⟨k, _, hrun, hlist⟩ := @runLength_spec g v (l.drop (position / g.clusterSize)) rounds
    cluster posLimit (position / g.clusterSize * g.clusterSize + g.clusterSize - position)
    (hchain.drop _) (fun a ha => hinside a (mem_of_mem_drop ha))
    (by rw [getElem?_drop, Nat.add_zero, hcluster])
    (by rw [length_drop]; exact (Nat.sub_le ..).trans hrounds.le)
  have hseek := seek_found hchain hinside hhead hcursor hposition hrounds
  rw [hcluster, Option.getD_some] at hseek
  have hdisk : (g.firstClusterPos + (cluster - fatMinCluster) * g.clusterSize + position -
      position / g.clusterSize * g.clusterSize) % 2 ^ 64 = diskPos g l position := by
    have hlt := diskPos_lt hinside hposition
    have hsize := g.volumeSize_lt
    rw [diskPos_eq hcluster] at hlt ⊢
    rw [Nat.mod_eq_of_lt (by omega)]
    omega
  have hmul : position + (position / g.clusterSize * g.clusterSize + g.clusterSize - position +
      k * g.clusterSize) = (position / g.clusterSize + 1 + k) * g.clusterSize := by
    rw [Nat.add_mul, Nat.add_mul, Nat.one_mul]
    omega
  have hlist' : ∀ j ≤ k, l[position / g.clusterSize + j]? = some (cluster + j) := by
    intro j hj
    have hnext := hlist j hj
    rwa [getElem?_drop] at hnext
  refine ⟨{ o with
      posDisk := diskPos g l position
      fileCurrentCluster := cluster
      position := position / g.clusterSize * g.clusterSize
      posRem := position / g.clusterSize * g.clusterSize + g.clusterSize - position +
        k * g.clusterSize }, ?_, rfl, Or.inr ⟨_, rfl, hcluster⟩, ?_, ⟨_, hmul, ?_⟩,
      fun i hi => diskPos_add hlist' hc.1 ?_⟩
  case refine_1 =>
    rw [fatOFilePosition, hroot]
    simp only [Bool.false_eq_true, if_false, Option.bind_eq_bind, hseek, Option.bind_some,
      Nat.not_lt.mpr hc.1, hc.not_end, hrun, hdisk]
  case refine_2 =>
    dsimp only
    omega
  case refine_3 => omega
  case refine_4 =>
    rw [Nat.succ_mul]
    dsimp only at hi
    omega

/-- A position far behind the chain is refused. -/
theorem fatOFilePosition_corrupt
    (hchain : Chain (slot v) l)
    (hinside : ∀ a ∈ l, IsCluster g.toGeometry a)
    (hroot : o.isFixedRootDir = false)
    (hhead : o.fileCluster = l.head?.getD 0)
    (hcursor : CursorOk g o l)
    (hposition : (l.length + 1) * g.clusterSize ≤ position)
    (hrounds : l.length < rounds) :
    fatOFilePosition rounds v o position posLimit = some (.volumeCorrupted, o) := by
  have hseek : seekCluster v position rounds
      (if position < o.position ∨ o.fileCluster = o.fileCurrentCluster then 0 else o.position)
      (if position < o.position ∨ o.fileCluster = o.fileCurrentCluster then o.fileCluster
        else o.fileCurrentCluster) = some none := by
    by_cases hrestart : position < o.position ∨ o.fileCluster = o.fileCurrentCluster
    · rw [if_pos hrestart, if_pos hrestart]
      refine seekCluster_corrupt hchain hinside (fun a ha => ?_) (fun hnil => ?_) (by omega) hrounds
      · rw [hhead]
        cases l with
        | nil => cases ha
        | cons b l => exact Option.some.inj ha
      · rw [hhead, hnil]
        exact Or.inl rfl
    · obtain ⟨_, hne⟩ := not_or.mp hrestart
      obtain ⟨k, hk, hcur⟩ := hcursor.resolve_left fun heq => hne heq.symm
      have hlt : k < l.length := (List.getElem?_eq_some_iff.mp hcur).1
      have hlength : (l.drop k).length = l.length - k := length_drop
      have hmul : (l.length - k + 1) * g.clusterSize + k * g.clusterSize =
          (l.length + 1) * g.clusterSize := by
        rw [← Nat.add_mul]
        congr 1
        omega
      rw [if_neg hrestart, if_neg hrestart]
      refine seekCluster_corrupt (hchain.drop k)
        (fun a ha => hinside a (mem_of_mem_drop ha)) (fun a ha => ?_) (fun hnil => ?_) ?_ ?_
      · rw [getElem?_drop, Nat.add_zero, hcur] at ha
        exact Option.some.inj ha
      · rw [hnil, length_nil] at hlength
        omega
      · rw [hlength]
        omega
      · omega
  rw [fatOFilePosition, hroot]
  simp only [Bool.false_eq_true, if_false, Option.bind_eq_bind, hseek, Option.bind_some]

end Position

end Fat
end Udk

/-!
## Reading and writing files

The bytes of files, read and written through their handles.  There is no disk error; a transfer
that is not inside the volume has no result, because the volume is in error from then on.
-/

namespace Udk
namespace Fat

variable {g : Layout}

/-- `IO_MODE` for file data. -/
inductive IoMode
  | readData
  | writeData
  deriving DecidableEq

/-- `FAT_IFILE`: a handle for an open file. -/
structure IFile where
  file : Nat
  position : Nat
  readOnly : Bool

/-- A volume with its bytes, as the data cache shows them, its open files and their handles. -/
structure FileSystem (g : Layout) where
  volume : Volume g.toGeometry
  disk : Bytes
  disk_length : disk.length = g.volumeSize
  readOnly : Bool
  files : List OFile
  handles : List IFile

/-- The disk after a write. -/
def FileSystem.write (s : FileSystem g) (offset : Nat) (buffer : Bytes) : FileSystem g :=
  { s with
    disk := copyMem s.disk offset buffer
    disk_length := by rw [copyMem_length, s.disk_length] }

/-- `FatDiskIo`, with the bytes that are in the buffer after it. -/
def fatDiskIo (s : FileSystem g) (mode : IoMode) (offset : Nat) (buffer : Bytes) :
    Option (FileSystem g × Bytes) :=
  if offset + buffer.length ≤ g.volumeSize then
    match mode with
    | .readData => some (s, slice s.disk offset buffer.length)
    | .writeData => some (s.write offset buffer, buffer)
  else none

/-- `FatAccessOFile`, with the part of the buffer that has been accessed. -/
def fatAccessOFile (seek : Nat) (mode : IoMode) :
    Nat → FileSystem g → OFile → Nat → Bytes → Option (EfiStatus × FileSystem g × OFile × Bytes)
  | 0, _, _, _, _ => none
  | rounds + 1, s, o, position, buffer =>
      if buffer.length = 0 then some (.success, s, o, [])
      else do
        let (status, o) ← fatOFilePosition seek s.volume o position buffer.length
        if status ≠ .success then some (status, s, o, [])
        else
          let len := if o.posRem < buffer.length then o.posRem else buffer.length
          let (s, part) ← fatDiskIo s mode o.posDisk (buffer.take len)
          let o := if mode = .writeData then { o with dirty := true } else o
          let (status, s, o, rest) ←
            fatAccessOFile seek mode rounds s o (position + len) (buffer.drop len)
          some (status, s, o, part ++ rest)

/-- `FAT_MAX_ALLOCATE_SIZE`. -/
abbrev fatMaxAllocateSize : Nat := 0xA00000

/-- The loop of `FatWriteZeroPool`. -/
def writeZeros (rounds bufferSize : Nat) :
    Nat → FileSystem g → OFile → Nat → Nat → Option (EfiStatus × FileSystem g × OFile)
  | 0, _, _, _, _ => none
  | writes + 1, s, o, writePos, appendedSize => do
      let writeSize := if bufferSize < appendedSize then bufferSize else appendedSize
      let (status, s, o, part) ←
        fatAccessOFile rounds .writeData rounds s o writePos (List.replicate writeSize 0)
      if status ≠ .success then some (status, s, o)
      else if 0 < appendedSize - writeSize then
        writeZeros rounds bufferSize writes s o (writePos + part.length) (appendedSize - writeSize)
      else some (.success, s, o)

/-- `FatWriteZeroPool`; `allocated` says whether there is memory for the zeros. -/
def fatWriteZeroPool (rounds : Nat) (allocated : Bool) (s : FileSystem g) (o : OFile)
    (writePos : Nat) : Option (EfiStatus × FileSystem g × OFile) :=
  let appendedSize := o.fileSize - writePos
  let bufferSize := if fatMaxAllocateSize < appendedSize then fatMaxAllocateSize else appendedSize
  if allocated then
    writeZeros rounds bufferSize (appendedSize / fatMaxAllocateSize + 1) s o writePos appendedSize
  else some (.outOfResources, s, o)

/-- `FatExpandOFile`. -/
def fatExpandOFile (rounds : Nat) (allocated : Bool) (s : FileSystem g) (o : OFile)
    (expandedSize : Nat) : Option (EfiStatus × FileSystem g × OFile) := do
  let (status, volume, o') ← fatGrowEof rounds s.volume o expandedSize
  if status = .success then
    fatWriteZeroPool rounds allocated { s with volume := volume } o' o.fileSize
  else some (status, { s with volume := volume }, o')

/-- The change of the file size in `FatSetFileInfo`. -/
def resize (rounds : Nat) (allocated : Bool) (s : FileSystem g) (o : OFile) (fileSize : Nat) :
    Option (EfiStatus × FileSystem g × OFile) :=
  if fileSize ≠ o.fileSize then
    if o.fileSize < fileSize then fatExpandOFile rounds allocated s o fileSize
    else do
      let (status, volume, o) ← fatTruncateOFile rounds s.volume o fileSize
      some (status, { s with volume := volume }, o)
  else some (.success, s, o)

/-- `FatSetPosition` for a file. -/
def fatSetPosition (s : FileSystem g) (handle position : Nat) : Option (EfiStatus × FileSystem g) :=
  do
    let h ← s.handles[handle]?
    let o ← s.files[h.file]?
    let position := if position = 2 ^ 64 - 1 then o.fileSize else position
    some (.success, { s with handles := s.handles.set handle { h with position := position } })

/-- The end of `FatIFileAccess`: the bytes are accessed and the position moves behind them. -/
def accessAt (rounds : Nat) (mode : IoMode) (s : FileSystem g) (handle : Nat) (h : IFile)
    (o : OFile) (buffer : Bytes) : Option (EfiStatus × FileSystem g × Bytes) := do
  let (status, s, o, part) ← fatAccessOFile rounds mode rounds s o h.position buffer
  some (status, { s with
    files := s.files.set h.file o
    handles := s.handles.set handle { h with position := (h.position + part.length) % 2 ^ 64 } },
    part)

/-- `FatIFileAccess` for reading a file, with the bytes that have been read. -/
def fatRead (rounds : Nat) (s : FileSystem g) (handle bufferSize : Nat) :
    Option (EfiStatus × FileSystem g × Bytes) := do
  let h ← s.handles[handle]?
  let o ← s.files[h.file]?
  if o.fileSize < h.position then some (.deviceError, s, [])
  else
    let endPosition := (h.position + bufferSize) % 2 ^ 64
    let bufferSize :=
      if o.fileSize < endPosition then bufferSize - (endPosition - o.fileSize) else bufferSize
    accessAt rounds .readData s handle h o (List.replicate bufferSize 0)

/-- `FatIFileAccess` for writing a file, with the bytes that have been written. -/
def fatWrite (rounds : Nat) (s : FileSystem g) (handle : Nat) (buffer : Bytes) :
    Option (EfiStatus × FileSystem g × Bytes) := do
  let h ← s.handles[handle]?
  let o ← s.files[h.file]?
  if s.readOnly then some (.writeProtected, s, [])
  else if h.readOnly then some (.accessDenied, s, [])
  else
    let endPosition := (h.position + buffer.length) % 2 ^ 64
    if o.fileSize < endPosition then do
      let (status, volume, o) ← fatGrowEof rounds s.volume o endPosition
      let s := { s with volume := volume, files := s.files.set h.file o }
      if status ≠ .success then some (status, s, [])
      else accessAt rounds .writeData s handle h o buffer
    else accessAt rounds .writeData s handle h o buffer

end Fat
end Udk
