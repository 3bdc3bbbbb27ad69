import Udk.Fat.FilePosition

/-!
# The bytes of a file on the disk

`FatAccessOFile` reads and writes exactly the bytes that belong to the positions of the file.
-/

namespace Udk
namespace Fat

open LinkedTable List

variable {g : Layout} {s s' : FileSystem g} {l l' : List Nat} {o o' : OFile}
  {rounds seek position p p' i : Nat} {buffer bs mem : Bytes} {mode : IoMode}

section Bytes

theorem copyMem_inside
    (hroom : p + bs.length ≤ mem.length)
    (hi : i < bs.length) :
    (copyMem mem p bs)[p + i]? = bs[i]? := by
  rw [copyMem, overlay_getElem?, if_pos (by omega), getElem?_eq_getElem (by omega),
    Option.bind_some, Nat.add_sub_cancel_left, getElem?_eq_getElem hi, Option.map_some]

theorem copyMem_outside
    (hout : ∀ j < bs.length, i ≠ p + j) :
    (copyMem mem p bs)[i]? = mem[i]? := by
  rw [copyMem, overlay_getElem?, if_neg]
  rintro ⟨hle, hlt⟩
  exact hout (i - p) (by omega) (by omega)

theorem slice_getElem?
    {width : Nat}
    (hi : i < width) :
    (slice mem p width)[i]? = mem[p + i]? := by
  rw [slice, getElem?_take_of_lt hi, getElem?_drop]

end Bytes

section Places

theorem diskPos_inj
    (hinside : ∀ a ∈ l, IsCluster g.toGeometry a)
    (hinside' : ∀ a ∈ l', IsCluster g.toGeometry a)
    (hp : p < l.length * g.clusterSize)
    (hp' : p' < l'.length * g.clusterSize)
    (heq : diskPos g l p = diskPos g l' p') :
    p % g.clusterSize = p' % g.clusterSize ∧
      ∃ a, l[p / g.clusterSize]? = some a ∧ l'[p' / g.clusterSize]? = some a := by
  have hpos := @clusterSize_pos g
  obtain ⟨a, ha⟩ : ∃ a, l[p / g.clusterSize]? = some a :=
    ⟨_, getElem?_eq_getElem ((Nat.div_lt_iff_lt_mul hpos).mpr hp)⟩
  obtain ⟨b, hb⟩ : ∃ b, l'[p' / g.clusterSize]? = some b :=
    ⟨_, getElem?_eq_getElem ((Nat.div_lt_iff_lt_mul hpos).mpr hp')⟩
  have ha₂ := (hinside a (mem_of_getElem? ha)).1
  have hb₂ := (hinside' b (mem_of_getElem? hb)).1
  rw [diskPos_eq ha, diskPos_eq hb] at heq
  have hsum : p % g.clusterSize + (a - fatMinCluster) * g.clusterSize =
      p' % g.clusterSize + (b - fatMinCluster) * g.clusterSize := by omega
  have hmod := congrArg (· % g.clusterSize) hsum
  have hdiv := congrArg (· / g.clusterSize) hsum
  simp only [Nat.add_mul_mod_self_right, Nat.mod_mod, Nat.add_mul_div_right _ _ hpos,
    Nat.div_eq_of_lt (Nat.mod_lt _ hpos), Nat.zero_add] at hmod hdiv
  refine ⟨hmod, a, ha, ?_⟩
  have hab : a = b := by omega
  rw [hb, hab]

theorem diskPos_inj_self
    (hinside : ∀ a ∈ l, IsCluster g.toGeometry a)
    (hnodup : l.Nodup)
    (hp : p < l.length * g.clusterSize)
    (hp' : p' < l.length * g.clusterSize)
    (heq : diskPos g l p = diskPos g l p') :
    p = p' := by
  obtain ⟨hmod, a, ha, ha'⟩ := diskPos_inj hinside hinside hp hp' heq
  have hdiv : p / g.clusterSize = p' / g.clusterSize :=
    (getElem?_inj (List.getElem?_eq_some_iff.mp ha).1 hnodup).mp (ha.trans ha'.symm)
  rw [← Nat.div_add_mod' p g.clusterSize, ← Nat.div_add_mod' p' g.clusterSize, hdiv, hmod]

end Places

section Access

/-- What an access may change in an open file. -/
structure Accessed (g : Layout) (o o' : OFile) (l : List Nat) : Prop where
  fileSize : o'.fileSize = o.fileSize
  fileCluster : o'.fileCluster = o.fileCluster
  fileLastCluster : o'.fileLastCluster = o.fileLastCluster
  isFixedRootDir : o'.isFixedRootDir = o.isFixedRootDir
  cursor : CursorOk g o' l

/-- The disk after bytes of a file have been written. -/
structure Written (g : Layout) (disk disk' : Bytes) (l : List Nat) (position : Nat)
    (buffer : Bytes) : Prop where
  there : ∀ i < buffer.length, disk'[diskPos g l (position + i)]? = buffer[i]?
  elsewhere : ∀ q, (∀ i < buffer.length, q ≠ diskPos g l (position + i)) → disk'[q]? = disk[q]?

/-- What an access does with the bytes. -/
def Transferred (s s' : FileSystem g) (l : List Nat) (position : Nat) (buffer part : Bytes) :
    IoMode → Prop
  | .readData => s' = s ∧ part.length = buffer.length ∧
      ∀ i < buffer.length, part[i]? = s.disk[diskPos g l (position + i)]?
  | .writeData => part = buffer ∧ Written g s.disk s'.disk l position buffer ∧
      s' = { s with disk := s'.disk, disk_length := s'.disk_length }

section

variable (hinside : ∀ a ∈ l, IsCluster g.toGeometry a)
include hinside

theorem fatDiskIo_spec
    (hconsecutive : ∀ i < buffer.length, diskPos g l (position + i) = diskPos g l position + i)
    (hpos : 0 < buffer.length)
    (hend : position + buffer.length ≤ l.length * g.clusterSize) :
    ∃ s' part, fatDiskIo s mode (diskPos g l position) buffer = some (s', part) ∧
      Transferred s s' l position buffer part mode := by
  have hroom : diskPos g l position + buffer.length ≤ g.volumeSize := by
    have hlast := @diskPos_lt g l (position + (buffer.length - 1)) hinside (by omega)
    rw [hconsecutive _ (by omega)] at hlast
    omega
  cases mode with
  | readData =>
      refine ⟨s, slice s.disk (diskPos g l position) buffer.length, ?_, rfl, ?_, fun i hi => ?_⟩
      · rw [fatDiskIo, if_pos hroom]
      · rw [slice_length, s.disk_length]
        omega
      · rw [slice_getElem? hi, hconsecutive i hi]
  | writeData =>
      refine ⟨s.write (diskPos g l position) buffer, buffer, ?_, rfl,
        ⟨fun i hi => ?_, fun q hq => ?_⟩, rfl⟩
      · rw [fatDiskIo, if_pos hroom]
      · rw [hconsecutive i hi]
        exact copyMem_inside (by rw [s.disk_length]; exact hroom) hi
      · exact copyMem_outside fun j hj heq => hq j hj (heq.trans (hconsecutive j hj).symm)

theorem written_append
    {disk disk' disk'' : Bytes}
    {len : Nat}
    (hnodup : l.Nodup)
    (hend : position + buffer.length ≤ l.length * g.clusterSize)
    (hlen : len ≤ buffer.length)
    (hfirst : Written g disk disk' l position (buffer.take len))
    (hrest : Written g disk' disk'' l (position + len) (buffer.drop len)) :
    Written g disk disk'' l position buffer := by
  have htake : (buffer.take len).length = len := by
    rw [length_take, Nat.min_eq_left hlen]
  have hdrop : (buffer.drop len).length = buffer.length - len := length_drop
  refine ⟨fun i hi => ?_, fun q hq => ?_⟩
  case refine_1 =>
    by_cases hil : i < len
    · rw [hrest.elsewhere, hfirst.there i (by omega), getElem?_take_of_lt hil]
      intro j hj heq
      have hij := diskPos_inj_self hinside hnodup (by omega) (by omega) heq
      omega
    · have hthere := hrest.there (i - len) (by omega)
      rw [getElem?_drop, show position + len + (i - len) = position + i by omega,
        show len + (i - len) = i by omega] at hthere
      exact hthere
  case refine_2 =>
    rw [hrest.elsewhere q, hfirst.elsewhere q]
    · exact fun i hi => hq i (by omega)
    · intro i hi
      rw [Nat.add_assoc]
      exact hq (len + i) (by omega)

theorem Transferred.append
    {s'' : FileSystem g}
    {part rest : Bytes}
    {len : Nat}
    (hnodup : l.Nodup)
    (hend : position + buffer.length ≤ l.length * g.clusterSize)
    (hlen : len ≤ buffer.length)
    (hfirst : Transferred s s' l position (buffer.take len) part mode)
    (hrest : Transferred s' s'' l (position + len) (buffer.drop len) rest mode) :
    Transferred s s'' l position buffer (part ++ rest) mode := by
  cases mode with
  | readData =>
      obtain ⟨rfl, hpart, hread⟩ := hfirst
      obtain ⟨rfl, hrestLength, hreadRest⟩ := hrest
      rw [length_take, Nat.min_eq_left hlen] at hpart hread
      rw [length_drop] at hrestLength hreadRest
      refine ⟨rfl, by rw [length_append]; omega, fun i hi => ?_⟩
      by_cases hil : i < len
      · rw [getElem?_append_left (by omega), hread i hil]
      · rw [getElem?_append_right (by omega), hpart, hreadRest (i - len) (by omega)]
        congr 2
        omega
  | writeData =>
      obtain ⟨rfl, hwritten, hs⟩ := hfirst
      obtain ⟨rfl, hwrittenRest, hs'⟩ := hrest
      refine ⟨take_append_drop .., written_append hinside hnodup hend hlen hwritten
        hwrittenRest, ?_⟩
      rw [hs', hs]

end

theorem Positioned.accessed
    (hpositioned : Positioned g o o' l position) :
    Accessed g o o' l := by
  refine ⟨?_, ?_, ?_, ?_, hpositioned.cursor⟩
  all_goals rw [hpositioned.kept]

theorem transferred_nil
    (hempty : buffer.length = 0) :
    Transferred s s l position buffer [] mode := by
  cases mode with
  | readData =>
      refine ⟨rfl, hempty.symm, fun i hi => ?_⟩
      rw [hempty] at hi
      exact absurd hi (Nat.not_lt_zero i)
  | writeData =>
      refine ⟨(eq_nil_of_length_eq_zero hempty).symm, ⟨fun i hi => ?_, fun q _ => rfl⟩, rfl⟩
      rw [hempty] at hi
      exact absurd hi (Nat.not_lt_zero i)

theorem Transferred.volume
    {part : Bytes}
    (htransfer : Transferred s s' l position buffer part mode) :
    s'.volume = s.volume := by
  cases mode with
  | readData => rw [htransfer.1]
  | writeData => rw [htransfer.2.2]

theorem accessed_refl
    (hcursor : CursorOk g o l) :
    Accessed g o o l :=
  ⟨rfl, rfl, rfl, rfl, hcursor⟩

theorem Accessed.trans
    {o'' : OFile}
    (hfirst : Accessed g o o' l)
    (hsecond : Accessed g o' o'' l) :
    Accessed g o o'' l :=
  ⟨hsecond.fileSize.trans hfirst.fileSize, hsecond.fileCluster.trans hfirst.fileCluster,
    hsecond.fileLastCluster.trans hfirst.fileLastCluster,
    hsecond.isFixedRootDir.trans hfirst.isFixedRootDir, hsecond.cursor⟩

theorem fatAccessOFile_spec
    (hchain : Chain (slot s.volume) l)
    (hinside : ∀ a ∈ l, IsCluster g.toGeometry a)
    (hnodup : l.Nodup)
    (hroot : o.isFixedRootDir = false)
    (hhead : o.fileCluster = l.head?.getD 0)
    (hcursor : CursorOk g o l)
    (hend : position + buffer.length ≤ l.length * g.clusterSize)
    (hseek : l.length < seek)
    (hrounds : 0 < rounds)
    (hleft : 0 < buffer.length → l.length - position / g.clusterSize < rounds) :
    ∃ s' o' part, fatAccessOFile seek mode rounds s o position buffer =
        some (.success, s', o', part) ∧
      Transferred s s' l position buffer part mode ∧ Accessed g o o' l := by
  induction rounds generalizing s o position buffer with
  | zero => exact absurd hrounds (Nat.lt_irrefl 0)
  | succ rounds ih =>
      rw [fatAccessOFile]
      by_cases hempty : buffer.length = 0
      · rw [if_pos hempty]
        exact ⟨s, o, [], rfl, transferred_nil hempty, accessed_refl hcursor⟩
      · have hpos := @clusterSize_pos g
        have hq : position / g.clusterSize < l.length :=
          (Nat.div_lt_iff_lt_mul hpos).mpr (by omega)
        obtain ⟨o₁, hposition, hpositioned⟩ := @fatOFilePosition_spec g s.volume l o seek position
          buffer.length hchain hinside hroot hhead hcursor (by omega) hseek
        obtain ⟨len, hlen, hle, hrem, hshort⟩ : ∃ len,
            (if o₁.posRem < buffer.length then o₁.posRem else buffer.length) = len ∧
              len ≤ buffer.length ∧ len ≤ o₁.posRem ∧ (len < buffer.length → len = o₁.posRem) := by
          refine ⟨_, rfl, ?_⟩
          split
          · exact ⟨by omega, Nat.le_refl _, fun _ => rfl⟩
          · exact ⟨Nat.le_refl _, by omega, fun h => absurd h (Nat.lt_irrefl _)⟩
        have hpart : (buffer.take len).length = len := by
          rw [length_take, Nat.min_eq_left hle]
        have hremPos := hpositioned.posRem_pos
        have hlenPos : 0 < len := by
          by_contra hzero
          have := hshort (by omega)
          omega
        obtain ⟨s₁, part, hio, htransfer⟩ := @fatDiskIo_spec g s l position (buffer.take len) mode
          hinside (fun i hi => hpositioned.consecutive i (by omega)) (by omega) (by omega)
        obtain ⟨o₂, ho₂, haccessed⟩ : ∃ o₂,
            (if mode = .writeData then { o₁ with dirty := true } else o₁) = o₂ ∧
              Accessed g o o₂ l := by
          have hsame := hpositioned.accessed
          refine ⟨_, rfl, ?_⟩
          split
          · exact ⟨hsame.fileSize, hsame.fileCluster, hsame.fileLastCluster, hsame.isFixedRootDir,
              hsame.cursor⟩
          · exact hsame
        have hleft' : 0 < (buffer.drop len).length →
            l.length - (position + len) / g.clusterSize < rounds := by
          intro hrest
          rw [length_drop] at hrest
          obtain ⟨q, hbound, hnext⟩ := hpositioned.boundary
          rw [hshort (by omega), hbound, Nat.mul_div_cancel _ hpos]
          have hold := hleft (Nat.pos_of_ne_zero hempty)
          generalize position / g.clusterSize = p at hnext hold hq
          omega
        have hroundsPos : 0 < rounds := by
          have hold := hleft (Nat.pos_of_ne_zero hempty)
          generalize position / g.clusterSize = p at hold hq
          omega
        obtain ⟨s₂, o₃, rest, hrun, hrest, haccessed'⟩ := @ih s₁ o₂ (position + len)
          (buffer.drop len) (htransfer.volume ▸ hchain) (haccessed.isFixedRootDir.trans hroot)
          (haccessed.fileCluster.trans hhead) haccessed.cursor
          (by rw [length_drop]; omega) hroundsPos hleft'
        refine ⟨s₂, o₃, part ++ rest, ?_, htransfer.append hinside hnodup hend hle hrest,
          haccessed.trans haccessed'⟩
        have hdisk : o₁.posDisk = diskPos g l position := by rw [hpositioned.kept]
        rw [hdisk] at ho₂
        rw [if_neg hempty]
        simp only [Option.bind_eq_bind, hposition, Option.bind_some, ne_eq, not_true_eq_false,
          if_false, hlen, hdisk, hio, ho₂, hrun]

end Access

end Fat
end Udk
