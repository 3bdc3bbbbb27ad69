import Udk.Fat.FileBytes

/-!
# Runs of file accesses

Reading, writing, positioning and resizing through any handles, in any order: every file behaves
like the string of bytes that have been written to it.
-/

namespace Udk
namespace Fat

open List

variable {g : Layout} {s s' : FileSystem g} {chains others : List (List Nat)} {o o' : OFile}
  {content : Nat → Nat → Option UInt8} {base buffer : Bytes}
  {file handle rounds position size n : Nat}

/-- A call of the file protocol. -/
inductive FileCall
  | read (handle bufferSize : Nat)
  | write (handle : Nat) (buffer : Bytes)
  | setPosition (handle position : Nat)
  | resize (file fileSize : Nat) (allocated : Bool)

/-- The call, with the bytes that have been accessed. -/
def fileStep (rounds : Nat) (s : FileSystem g) :
    FileCall → Option (EfiStatus × FileSystem g × Bytes)
  | .read handle bufferSize => fatRead rounds s handle bufferSize
  | .write handle buffer => fatWrite rounds s handle buffer
  | .setPosition handle position => do
      let (status, s) ← fatSetPosition s handle position
      some (status, s, [])
  | .resize file fileSize allocated => do
      let o ← s.files[file]?
      let (status, s, o) ← resize rounds allocated s o fileSize
      some (status, s.setFile file o, [])

/-- The bytes that the files shall have after a call. -/
def track (s : FileSystem g) (content : Nat → Nat → Option UInt8) (status : EfiStatus) :
    FileCall → Nat → Nat → Option UInt8
  | .read _ _ => content
  | .write handle buffer =>
      match s.handles[handle]? with
      | some h => if status = .success then wrote content h.file h.position buffer else content
      | none => content
  | .setPosition _ _ => content
  | .resize file fileSize _ =>
      match s.files[file]? with
      | some o =>
          if fileSize ≤ o.fileSize then truncated content file fileSize
          else if status = .success then
            wrote content file o.fileSize (List.replicate (fileSize - o.fileSize) 0)
          else content
      | none => content

/-- A call with the bytes that the files shall have. -/
def trackedStep (rounds : Nat) (x : FileSystem g × (Nat → Nat → Option UInt8)) (call : FileCall) :
    Option (FileSystem g × (Nat → Nat → Option UInt8)) :=
  (fileStep rounds x.1 call).map fun result => (result.2.1, track x.1 x.2 result.1 call)

/-- The growth of a file does not find a cluster twice. -/
def Grows (s : FileSystem g) (o : OFile) (newSize : Nat) : Prop :=
  o.fileSize < newSize → newSize ≤ 0xFFFFFFFF →
    ¬ LinksItself s.volume (neededClusters g.toGeometry o newSize)

/-- The calls with a file or a handle that is there, a buffer that fits into memory, and a growth
that does not find a cluster twice. -/
def Accepted (s : FileSystem g) : FileCall → Prop
  | .read handle bufferSize => handle < s.handles.length ∧ bufferSize < 2 ^ 63
  | .write handle buffer => ∃ h o, s.handles[handle]? = some h ∧ s.files[h.file]? = some o ∧
      buffer.length < 2 ^ 63 ∧ (s.readOnly = false → h.readOnly = false →
        Grows s o ((h.position + buffer.length) % 2 ^ 64))
  | .setPosition handle position => handle < s.handles.length ∧ position < 2 ^ 64
  | .resize file fileSize _ => ∃ o, s.files[file]? = some o ∧ Grows s o fileSize

section Zeros

theorem wrote_append
    (content : Nat → Nat → Option UInt8)
    (file position : Nat)
    (bs bs' : Bytes) :
    wrote (wrote content file position bs) file (position + bs.length) bs' =
      wrote content file position (bs ++ bs') := by
  funext f p
  rw [wrote, wrote, wrote, length_append]
  by_cases hf : f = file
  · by_cases hlow : position ≤ p
    · by_cases hfirst : p < position + bs.length
      · rw [if_neg (by omega), if_pos (by omega), if_pos (by omega),
          getElem?_append_left (by omega)]
      · by_cases hsecond : p < position + bs.length + bs'.length
        · rw [if_pos (by omega), if_pos (by omega), getElem?_append_right (by omega)]
          congr 1
          omega
        · rw [if_neg (by omega), if_neg (by omega), if_neg (by omega)]
    · rw [if_neg (by omega), if_neg (by omega), if_neg (by omega)]
  · rw [if_neg (fun h => hf h.1), if_neg (fun h => hf h.1), if_neg (fun h => hf h.1)]

theorem writeZeros_spec
    {bufferSize writes writePos appendedSize : Nat}
    (hrounds : g.maxCluster + 2 < rounds)
    (hrep : Represents (s.setFile file o) chains others content base)
    (hfile : file < s.files.length)
    (hroom : writePos + appendedSize ≤ o.fileSize)
    (hwrites : appendedSize ≤ bufferSize * writes)
    (hpos : 0 < writes) :
    ∃ s' o', writeZeros rounds bufferSize writes s o writePos appendedSize =
        some (.success, s', o') ∧
      Represents (s'.setFile file o') chains others
        (wrote content file writePos (List.replicate appendedSize 0)) base := by
  induction writes generalizing s o content writePos appendedSize with
  | zero => exact absurd hpos (Nat.lt_irrefl 0)
  | succ writes ih =>
      obtain ⟨writeSize, hsize, hle, hrest⟩ : ∃ writeSize,
          (if bufferSize < appendedSize then bufferSize else appendedSize) = writeSize ∧
            writeSize ≤ appendedSize ∧ (writeSize < appendedSize → writeSize = bufferSize) := by
        refine ⟨_, rfl, ?_⟩
        split
        · exact ⟨by omega, fun _ => rfl⟩
        · exact ⟨Nat.le_refl _, fun h => absurd h (Nat.lt_irrefl _)⟩
      obtain ⟨s₁, o₁, part, hrun, hfileSize, hlength, hfiles, hhandles, hrep₁, -⟩ :=
        @Represents.access g s chains others o content base (List.replicate writeSize 0) file rounds
          writePos .writeData hrounds hrep hfile (by rw [length_replicate]; omega)
      have hnext := hrep₁ s₁.handles (by
        rw [hhandles]
        intro h hh
        have hold := hrep.sound.handle h hh
        rwa [FileSystem.setFile, length_set] at hold)
      rw [length_replicate] at hlength
      rw [writeZeros]
      simp only [Option.bind_eq_bind, hsize, hrun, Option.bind_some, ne_eq, not_true_eq_false,
        if_false, hlength]
      split
      next hmore =>
        have hbuffer := hrest (by omega)
        have hmul : bufferSize * (writes + 1) = bufferSize * writes + bufferSize := Nat.mul_succ ..
        have hwritesPos : 0 < writes := by
          by_contra hzero
          have hnone := Nat.eq_zero_of_not_pos hzero
          subst hnone
          rw [Nat.mul_zero] at hmul
          omega
        obtain ⟨s₂, o₂, hrun', hrep₂⟩ := @ih s₁ o₁ _ (writePos + writeSize)
          (appendedSize - writeSize) hnext (hfiles ▸ hfile) (by omega) (by omega) hwritesPos
        refine ⟨s₂, o₂, hrun', ?_⟩
        have happend := wrote_append content file writePos (List.replicate writeSize 0)
          (List.replicate (appendedSize - writeSize) 0)
        rw [length_replicate, replicate_append_replicate, Nat.add_sub_cancel' hle]
          at happend
        rw [← happend]
        exact hrep₂
      next hmore =>
        have hall : writeSize = appendedSize := by omega
        refine ⟨s₁, o₁, rfl, ?_⟩
        rw [← hall]
        exact hnext

theorem fatExpandOFile_spec
    {allocated : Bool}
    (hrounds : g.maxCluster + 2 < rounds)
    (hrep : Represents s chains others content base)
    (ho : s.files[file]? = some o)
    (hsize : o.fileSize < size)
    (hgrows : Grows s o size) :
    ∃ status s' o' chains', fatExpandOFile rounds allocated s o size = some (status, s', o') ∧
      Represents (s'.setFile file o') chains' others
        (if status = .success then
          wrote content file o.fileSize (List.replicate (size - o.fileSize) 0) else content)
        base := by
  obtain ⟨status, v, o₁, chains', hrun, hrep₁, hdone, -⟩ :=
    hrep.grow hrounds ho hsize (hgrows hsize)
  have hfile : file < s.files.length := (List.getElem?_eq_some_iff.mp ho).1
  rw [fatExpandOFile]
  simp only [Option.bind_eq_bind, hrun, Option.bind_some]
  by_cases hstatus : status = .success
  · have hnew := hdone hstatus
    rw [if_pos hstatus, fatWriteZeroPool]
    cases allocated with
    | false =>
        refine ⟨.outOfResources, _, o₁, chains', rfl, ?_⟩
        rw [if_neg (by decide)]
        exact hrep₁
    | true =>
        have hrep₂ : Represents (FileSystem.setFile { s with volume := v } file o₁) chains' others
            content base := hrep₁
        obtain ⟨s', o', hzeros, hrep'⟩ := @writeZeros_spec g { s with volume := v } chains' others
          o₁ content base file rounds
          (if fatMaxAllocateSize < o₁.fileSize - o.fileSize then fatMaxAllocateSize
            else o₁.fileSize - o.fileSize)
          ((o₁.fileSize - o.fileSize) / fatMaxAllocateSize + 1) o.fileSize
          (o₁.fileSize - o.fileSize) hrounds hrep₂ hfile (by omega) (by
            split
            · rw [Nat.mul_succ, Nat.mul_comm]
              have hdiv := Nat.div_add_mod' (o₁.fileSize - o.fileSize) fatMaxAllocateSize
              have hmod := Nat.mod_lt (o₁.fileSize - o.fileSize)
                (show 0 < fatMaxAllocateSize by decide)
              omega
            · exact Nat.le_mul_of_pos_right _ (Nat.succ_pos _)) (Nat.succ_pos _)
        rw [hnew] at hzeros hrep'
        refine ⟨.success, s', o', chains', ?_, ?_⟩
        · simp only [if_true, hnew, hzeros]
        · rw [if_pos rfl]
          exact hrep'
  · refine ⟨status, { s with volume := v }, o₁, chains', ?_, ?_⟩
    · rw [if_neg hstatus]
    · rw [if_neg hstatus]
      exact hrep₁

end Zeros

section Handles

variable {h : IFile} {mode : IoMode}

section

variable (hrep : Represents s chains others content base)
include hrep

theorem Represents.forget
    {content' : Nat → Nat → Option UInt8}
    (hless : ∀ f p b, content' f p = some b → content f p = some b) :
    Represents s chains others content' base :=
  ⟨hrep.sound, fun f q l p b hq hl hb => hrep.shown f q l p b hq hl (hless f p b hb), hrep.kept⟩

theorem Represents.moved
    (hh : s.handles[handle]? = some h)
    (hposition : position < 2 ^ 64) :
    ∀ h' ∈ s.handles.set handle { h with position := position },
      h'.file < s.files.length ∧ h'.position < 2 ^ 64 := by
  intro h' hmem
  rcases mem_or_eq_of_mem_set hmem with hold | rfl
  · exact hrep.sound.handle h' hold
  · exact ⟨(hrep.sound.handle h (mem_of_getElem? hh)).1, hposition⟩

theorem Represents.withHandles
    {handles : List IFile}
    (hall : ∀ h ∈ handles, h.file < s.files.length ∧ h.position < 2 ^ 64) :
    Represents { s with handles := handles } chains others content base :=
  ⟨⟨hrep.sound.consistent, hrep.sound.isFile, hall⟩, hrep.shown, hrep.kept⟩

end

variable (hrounds : g.maxCluster + 2 < rounds)
include hrounds

theorem accessAt_spec
    (hrep : Represents s chains others content base)
    (hh : s.handles[handle]? = some h)
    (ho : s.files[h.file]? = some o)
    (hend : h.position + buffer.length ≤ o.fileSize) :
    ∃ s' part, accessAt rounds mode s handle h o buffer = some (.success, s', part) ∧
      part.length = buffer.length ∧
      Represents s' chains others (accessed mode content h.file h.position buffer) base ∧
      (mode = .readData → ∀ i b, i < buffer.length →
        content h.file (h.position + i) = some b → part[i]? = some b) := by
  have hfile : h.file < s.files.length := (List.getElem?_eq_some_iff.mp ho).1
  obtain ⟨s₁, o₁, part, hrun, -, hlength, _, hhandles, hrep₁, hread⟩ :=
    @Represents.access g s chains others o content base buffer h.file rounds h.position mode
      hrounds (by rw [setFile_self ho]; exact hrep) hfile hend
  have hnext := hrep₁ _ (hrep.moved hh (Nat.mod_lt (h.position + part.length) (by decide)))
  rw [← hhandles] at hnext
  refine ⟨_, part, ?_, hlength, hnext, hread⟩
  rw [accessAt]
  simp only [Option.bind_eq_bind, hrun, Option.bind_some]
  rfl

theorem accessAt_refused
    (hrep : Represents s chains others content base)
    (hh : s.handles[handle]? = some h)
    (ho : s.files[h.file]? = some o)
    (hposition : 2 ^ 33 ≤ h.position)
    (hbuffer : 0 < buffer.length) :
    ∃ s', accessAt rounds mode s handle h o buffer = some (.volumeCorrupted, s', []) ∧
      Represents s' chains others content base := by
  have hrefused := @Represents.access_refused g s chains others o content base buffer h.file rounds
    h.position mode hrounds hrep ho hposition hbuffer
  have hmoved := hrep.withHandles
    (hrep.moved hh (Nat.mod_lt (h.position + ([] : Bytes).length) (by decide)))
  refine ⟨_, ?_, hmoved⟩
  rw [accessAt]
  simp only [Option.bind_eq_bind, hrefused, Option.bind_some, set_self ho]

theorem writeAt_spec
    (hrep : Represents s chains others content base)
    (hh : s.handles[handle]? = some h)
    (ho : s.files[h.file]? = some o)
    (hbuffer : buffer.length < 2 ^ 63)
    (hend : (h.position + buffer.length) % 2 ^ 64 ≤ o.fileSize) :
    ∃ status s' part, accessAt rounds .writeData s handle h o buffer = some (status, s', part) ∧
      Represents s' chains others
        (if status = .success then wrote content h.file h.position buffer else content) base := by
  have hposition := (hrep.sound.handle h (mem_of_getElem? hh)).2
  by_cases hwrap : h.position + buffer.length < 2 ^ 64
  · rw [Nat.mod_eq_of_lt hwrap] at hend
    obtain ⟨s', part, hrun, -, hrep', -⟩ :=
      @accessAt_spec g s chains others o content base buffer handle rounds h .writeData hrounds hrep
        hh ho hend
    exact ⟨.success, s', part, hrun, hrep'⟩
  · obtain ⟨s', hrun, hrep'⟩ :=
      @accessAt_refused g s chains others o content base buffer handle rounds h .writeData hrounds
        hrep hh ho (by omega) (by omega)
    exact ⟨.volumeCorrupted, s', [], hrun, hrep'⟩

theorem fatWrite_spec
    (hrep : Represents s chains others content base)
    (haccepted : Accepted s (.write handle buffer)) :
    ∃ status s' data chains', fatWrite rounds s handle buffer = some (status, s', data) ∧
      Represents s' chains' others (track s content status (.write handle buffer)) base := by
  obtain ⟨h, o, hh, ho, hbuffer, hgrows⟩ := haccepted
  simp only [fatWrite, Option.bind_eq_bind, hh, ho, Option.bind_some, track]
  by_cases hprotected : s.readOnly = true
  · rw [if_pos hprotected]
    exact ⟨_, s, _, chains, rfl, hrep⟩
  by_cases hdenied : h.readOnly = true
  · rw [if_neg hprotected, if_pos hdenied]
    exact ⟨_, s, _, chains, rfl, hrep⟩
  rw [if_neg hprotected, if_neg hdenied]
  have hgrows' := hgrows (Bool.eq_false_iff.mpr hprotected) (Bool.eq_false_iff.mpr hdenied)
  by_cases hmore : o.fileSize < (h.position + buffer.length) % 2 ^ 64
  · simp only [hmore, if_true]
    obtain ⟨status, v, o₁, chains₁, hrun, hrep₁, hdone, -⟩ :=
      hrep.grow hrounds ho hmore (hgrows' hmore)
    simp only [hrun, Option.bind_some, ne_eq]
    by_cases hstatus : status = .success
    · have hfile : h.file < s.files.length := (List.getElem?_eq_some_iff.mp ho).1
      obtain ⟨status', s', part, haccess, hrep'⟩ := @writeAt_spec g
        { s with volume := v, files := s.files.set h.file o₁ } chains₁ others o₁ content base buffer
        handle rounds h hrounds hrep₁ hh (getElem?_set_self hfile) hbuffer
        (hdone hstatus).ge
      rw [if_neg (not_not.mpr hstatus)]
      exact ⟨status', s', part, chains₁, haccess, hrep'⟩
    · rw [if_pos hstatus]
      refine ⟨status, _, [], chains₁, rfl, ?_⟩
      rw [if_neg hstatus]
      exact hrep₁
  · simp only [hmore, if_false]
    obtain ⟨status, s', part, haccess, hrep'⟩ :=
      writeAt_spec hrounds hrep hh ho hbuffer (Nat.le_of_not_lt hmore)
    exact ⟨status, s', part, chains, haccess, hrep'⟩

theorem fatRead_spec
    (hrep : Represents s chains others content base)
    (hh : s.handles[handle]? = some h)
    (ho : s.files[h.file]? = some o)
    (hn : n < 2 ^ 63)
    (hposition : h.position ≤ o.fileSize) :
    ∃ s' data, fatRead rounds s handle n = some (.success, s', data) ∧
      Represents s' chains others content base ∧
      data.length = min n (o.fileSize - h.position) ∧
      ∀ i b, i < data.length → content h.file (h.position + i) = some b → data[i]? = some b := by
  obtain ⟨-, -, -, -, -, hsmall⟩ := hrep.sound.chainOf ho
  have hwrap : (h.position + n) % 2 ^ 64 = h.position + n := Nat.mod_eq_of_lt (by omega)
  have hsize : (if o.fileSize < (h.position + n) % 2 ^ 64 then
      n - ((h.position + n) % 2 ^ 64 - o.fileSize) else n) = min n (o.fileSize - h.position) := by
    rw [hwrap]
    split
    · omega
    · omega
  obtain ⟨s', data, hrun, hlength, hrep', hread⟩ :=
    @accessAt_spec g s chains others o content base
      (List.replicate (min n (o.fileSize - h.position)) 0) handle rounds h .readData hrounds hrep
      hh ho (by rw [length_replicate]; omega)
  rw [length_replicate] at hlength hread
  refine ⟨s', data, ?_, hrep', hlength, fun i b hi => hread rfl i b (hlength ▸ hi)⟩
  simp only [fatRead, Option.bind_eq_bind, hh, ho, Option.bind_some]
  rw [if_neg (Nat.not_lt.mpr hposition), hsize]
  exact hrun

end Handles

section Run

/-- A call that is accepted keeps all bytes. -/
theorem fileStep_represents
    {call : FileCall}
    (hrounds : g.maxCluster + 2 < rounds)
    (hrep : Represents s chains others content base)
    (haccepted : Accepted s call) :
    ∃ status s' data chains', fileStep rounds s call = some (status, s', data) ∧
      Represents s' chains' others (track s content status call) base := by
  cases call with
  | read handle n =>
      obtain ⟨hhandle, hn⟩ := haccepted
      obtain ⟨h, hh⟩ : ∃ h, s.handles[handle]? = some h := ⟨_, getElem?_eq_getElem hhandle⟩
      obtain ⟨o, ho⟩ : ∃ o, s.files[h.file]? = some o :=
        ⟨_, getElem?_eq_getElem (hrep.sound.handle h (mem_of_getElem? hh)).1⟩
      by_cases hposition : h.position ≤ o.fileSize
      · obtain ⟨s', data, hrun, hrep', -, -⟩ := fatRead_spec hrounds hrep hh ho hn hposition
        exact ⟨.success, s', data, chains, hrun, hrep'⟩
      · refine ⟨.deviceError, s, [], chains, ?_, hrep⟩
        simp only [fileStep, fatRead, Option.bind_eq_bind, hh, ho, Option.bind_some]
        rw [if_pos (Nat.lt_of_not_le hposition)]
  | write handle buffer => exact fatWrite_spec hrounds hrep haccepted
  | setPosition handle position =>
      obtain ⟨hhandle, hposition⟩ := haccepted
      obtain ⟨h, hh⟩ : ∃ h, s.handles[handle]? = some h := ⟨_, getElem?_eq_getElem hhandle⟩
      obtain ⟨o, ho⟩ : ∃ o, s.files[h.file]? = some o :=
        ⟨_, getElem?_eq_getElem (hrep.sound.handle h (mem_of_getElem? hh)).1⟩
      obtain ⟨-, -, -, -, -, hsmall⟩ := hrep.sound.chainOf ho
      have hnew : (if position = 2 ^ 64 - 1 then o.fileSize else position) < 2 ^ 64 := by
        split
        · omega
        · exact hposition
      refine ⟨.success, _, [], chains, ?_, hrep.withHandles (hrep.moved hh hnew)⟩
      simp only [fileStep, fatSetPosition, Option.bind_eq_bind, hh, ho, Option.bind_some]
  | resize file size allocated =>
      obtain ⟨o, ho, hgrows⟩ := haccepted
      simp only [fileStep, Option.bind_eq_bind, ho, Option.bind_some, track, resize]
      by_cases hsame : size = o.fileSize
      · refine ⟨.success, s.setFile file o, [], chains, ?_, ?_⟩
        · rw [if_neg (not_not.mpr hsame)]
          rfl
        · rw [setFile_self ho, if_pos hsame.le]
          refine hrep.forget fun f p b hb => ?_
          rw [truncated] at hb
          split at hb
          · cases hb
          · exact hb
      by_cases hmore : o.fileSize < size
      · obtain ⟨status, s', o', chains', hrun, hrep'⟩ :=
          @fatExpandOFile_spec g s chains others o content base file rounds size allocated hrounds
            hrep ho hmore hgrows
        refine ⟨status, s'.setFile file o', [], chains', ?_, ?_⟩
        · rw [if_pos hsame, if_pos hmore, hrun]
          rfl
        · rw [if_neg (Nat.not_le.mpr hmore)]
          exact hrep'
      · obtain ⟨v, o', chains', hrun, hrep'⟩ := hrep.shrink hrounds ho (Nat.le_of_not_lt hmore)
        refine ⟨.success, FileSystem.setFile { s with volume := v } file o', [], chains', ?_, ?_⟩
        · rw [if_pos hsame, if_neg hmore, hrun]
          rfl
        · rw [if_pos (Nat.le_of_not_lt hmore)]
          exact hrep'

/-- Each file shows the bytes that have been written to it after any run, and reading gives them;
the files that are not open keep theirs. -/
theorem files_are_bytes
    {content' : Nat → Nat → Option UInt8}
    {trace : List ((FileSystem g × (Nat → Nat → Option UInt8)) × FileCall)}
    (hrounds : g.maxCluster + 2 < rounds)
    (hrep : Represents s chains others content base)
    (hrun : Run (fun x call x' => trackedStep rounds x call = some x') (s, content) trace
      (s', content'))
    (haccepted : ∀ x ∈ trace, Accepted x.1.1 x.2) :
    (∃ chains', Represents s' chains' others content' base) ∧
      ∀ handle h o n, s'.handles[handle]? = some h → s'.files[h.file]? = some o → n < 2 ^ 63 →
        h.position ≤ o.fileSize → ∃ s'' data,
          fatRead rounds s' handle n = some (.success, s'', data) ∧
          data.length = min n (o.fileSize - h.position) ∧
          ∀ i b, i < data.length → content' h.file (h.position + i) = some b →
            data[i]? = some b := by
  obtain ⟨chains', hrep'⟩ := @Run.invariant _ _ _
    (fun x => ∃ chains, Represents x.1 chains others x.2 base) (fun x call => Accepted x.1 call)
    (fun x call x' hx hcall hstep => by
      obtain ⟨chains, hx⟩ := hx
      obtain ⟨status, s'', data, chains', hstep', hx'⟩ := fileStep_represents hrounds hx hcall
      rw [trackedStep, hstep', Option.map_some] at hstep
      cases hstep
      exact ⟨chains', hx'⟩) _ _ trace hrun haccepted ⟨chains, hrep⟩
  refine ⟨⟨chains', hrep'⟩, fun handle h o n hh ho hn hposition => ?_⟩
  obtain ⟨s'', data, hread, -, hlength, hbytes⟩ := fatRead_spec hrounds hrep' hh ho hn hposition
  exact ⟨s'', data, hread, hlength, hbytes⟩

end Run

section Sample

/-- A FAT12 volume with two clusters. -/
def twoClusters : Layout where
  fatType := .fat12
  maxCluster := 2
  clusterAlignment := 9
  fatSize := 512
  fits := by decide
  room := by decide
  rootPos := 1024
  firstClusterPos := 1536
  volumeSize := 2560
  inside := by decide
  volumeSize_lt := by decide
  alignment_le := by decide

/-- An open file of so many bytes. -/
def sampleFile (fileSize fileCluster : Nat) : OFile where
  fileSize := fileSize
  fileCluster := fileCluster
  fileCurrentCluster := fileCluster
  fileLastCluster := 0
  position := 0
  posDisk := 0
  posRem := 0
  isFixedRootDir := false
  dirty := false

/-- Two empty files with handles, and one that has the second cluster. -/
def sampleSystem : FileSystem twoClusters where
  volume := {
    fat := [0xF8, 0xFF, 0xFF, 0x00, 0xF0, 0xFF] ++ List.replicate 506 0
    fat_length := by rw [length_append, length_replicate]; rfl
    freeInfoValid := false
    clusterCount := 0
    nextCluster := 2
    fatDirty := false
    dirtyValue := 0 }
  disk := List.replicate 2560 0
  disk_length := length_replicate
  readOnly := false
  files := [sampleFile 0 0, sampleFile 0 0, sampleFile 512 3]
  handles := [⟨0, 0, false⟩, ⟨1, 0, false⟩]

theorem sample_chains :
    LinkedTable.Occupies (slot sampleSystem.volume) (IsCluster twoClusters.toGeometry)
      ([[], [], [3]] ++ []) := by
  have hfree : slot sampleSystem.volume 2 = .free := slot_eq_free.mpr (by decide +kernel)
  have hlast : slot sampleSystem.volume 3 = .last := by
    have hentry : fatGetFatEntry sampleSystem.volume 3 = fatClusterLast := by decide +kernel
    rw [slot, hentry, slotOf_last]
  refine ⟨fun l hl => ?_, nodup_singleton 3, fun a ha => ?_, fun a ha hnot => ?_⟩
  case refine_1 =>
    simp only [append_nil, mem_cons, not_mem_nil, or_false] at hl
    rcases hl with rfl | rfl | rfl
    · exact ⟨trivial, by simp⟩
    · exact ⟨trivial, by simp⟩
    · refine ⟨trivial, fun a ha => ?_⟩
      cases ha
      exact hlast
  case refine_2 =>
    obtain rfl := mem_singleton.mp ha
    exact ⟨by decide, by decide⟩
  case refine_3 =>
    have hlow : 2 ≤ a := ha.1
    have hhigh : a ≤ 3 := ha.2
    have hne : a ≠ 3 := fun heq => hnot (mem_singleton.mpr heq)
    have htwo : a = 2 := by omega
    rw [htwo]
    exact hfree

theorem sample_represents :
    Represents sampleSystem [[], [], [3]] [] (fun _ _ => none) sampleSystem.disk := by
  refine ⟨⟨⟨rfl, fun file o l ho hl => ?_, sample_chains, Nat.le_refl 2⟩,
    fun file o l ho _ => ?_, fun h hh => ?_⟩,
    fun _ _ _ _ _ _ _ hb => absurd hb nofun, fun _ hl => absurd hl not_mem_nil⟩
  case refine_1 =>
    match file with
    | 0 | 1 =>
        cases ho
        cases hl
        exact ⟨rfl, rfl, Or.inl rfl⟩
    | 2 =>
        cases ho
        cases hl
        exact ⟨by decide, rfl, Or.inl rfl⟩
    | n + 3 => cases hl
  case refine_2 =>
    have hfile : o ∈ sampleSystem.files := mem_of_getElem? ho
    simp only [sampleSystem, mem_cons, not_mem_nil, or_false] at hfile
    rcases hfile with rfl | rfl | rfl
    · exact ⟨rfl, Or.inl rfl, by decide⟩
    · exact ⟨rfl, Or.inl rfl, by decide⟩
    · exact ⟨rfl, Or.inl rfl, by decide⟩
  case refine_3 =>
    simp only [sampleSystem, mem_cons, not_mem_nil, or_false] at hh
    rcases hh with rfl | rfl
    · exact ⟨by decide, by decide⟩
    · exact ⟨by decide, by decide⟩

/-- A write that finds its cluster is read back. -/
theorem files_are_bytes_sample :
    ∃ x, trackedStep 10 (sampleSystem, fun _ _ => none) (.write 0 [97, 98]) = some x ∧
      (∃ chains', Represents x.1 chains' [] x.2 sampleSystem.disk) ∧
      ∀ handle h o n, x.1.handles[handle]? = some h → x.1.files[h.file]? = some o → n < 2 ^ 63 →
        h.position ≤ o.fileSize → ∃ s'' data,
          fatRead 10 x.1 handle n = some (.success, s'', data) ∧
          data.length = min n (o.fileSize - h.position) ∧
          ∀ i b, i < data.length → x.2 h.file (h.position + i) = some b → data[i]? = some b := by
  have haccepted : Accepted sampleSystem (.write 0 [97, 98]) :=
    ⟨_, _, rfl, rfl, by decide, fun _ _ _ _ => by decide +kernel⟩
  obtain ⟨status, s', data, -, hstep, -⟩ :=
    @fileStep_represents twoClusters sampleSystem _ _ _ _ 10 _ (by decide) sample_represents
      haccepted
  have htracked : trackedStep 10 (sampleSystem, fun _ _ => none) (.write 0 [97, 98]) =
      some (s', track sampleSystem (fun _ _ => none) status (.write 0 [97, 98])) := by
    rw [trackedStep, hstep, Option.map_some]
  refine ⟨_, htracked, files_are_bytes (by decide) sample_represents (Run.single htracked)
    fun x hx => ?_⟩
  rw [mem_singleton.mp hx]
  exact haccepted

/-- Both files are written at an offset for which one cluster more is needed than there is. -/
def sampleCalls : List FileCall :=
  [.setPosition 0 1023, .write 0 [97], .resize 2 0 true, .setPosition 1 1023, .write 1 [98],
    .setPosition 0 1023]

/-- The byte of the first file is written over by the write to the second one. -/
theorem bytes_overwritten :
    Represents sampleSystem [[], [], [3]] [] (fun _ _ => none) sampleSystem.disk ∧
      ∃ x, sampleCalls.foldlM (trackedStep 10) (sampleSystem, fun _ _ => none) = some x ∧
        x.2 0 1023 = some 97 ∧
        (fatRead 10 x.1 0 1).map (fun result => (result.1, result.2.2)) =
          some (.success, [98]) := by
  have hresult : (sampleCalls.foldlM (trackedStep 10) (sampleSystem, fun _ _ => none)).map
      (fun x => (x.2 0 1023, (fatRead 10 x.1 0 1).map fun result => (result.1, result.2.2))) =
        some (some 97, some (.success, [98])) := by
    decide +kernel
  obtain ⟨x, hx, hbytes⟩ := Option.map_eq_some_iff.mp hresult
  obtain ⟨htracked, hread⟩ := Prod.mk.inj hbytes
  exact ⟨sample_represents, x, hx, htracked, hread⟩

end Sample

end Fat
end Udk
