import Udk.PropertiesTable.History
import Udk.Tiling

/-!
# The records of one image

`SetNewRecord` writes the records of an image one behind the other.  If each code section
has data in front of it, no record is skipped: two for each section, and they show the
code sections on data.
-/

namespace Udk
namespace PropertiesTable

open Tiling List

/-- Type and attributes of a descriptor. -/
abbrev MemoryLabel := UInt32 × UInt64

/-- A descriptor as a range of bytes. -/
instance : Cell EfiMemoryDescriptor MemoryLabel where
  first d := d.physicalStart
  last d := d.physicalStart + d.numberOfPages * efiPageSize - 1
  label d := (d.type, d.attr)

/-- The label of a code page. -/
def codeLabel (attr : UInt64) : MemoryLabel :=
  (efiRuntimeServicesCode, (attr &&& ~~~efiMemoryXp) ||| efiMemoryRo)

/-- The label of a data page. -/
def dataLabel (attr : UInt64) : MemoryLabel :=
  (efiRuntimeServicesData, attr ||| efiMemoryXp)

/-- The address lies in the pages of a code section. -/
def inSections (sections : List CodeSection) (x : Nat) : Bool :=
  sections.any fun s => decide (s.codeSegmentBase ≤ x) && decide (x < s.pageEnd)

/-- Code sections on data. -/
def splitLabel (attr : UInt64) (code : Nat → Bool) (x : Nat) : Option MemoryLabel :=
  some (if code x then codeLabel attr else dataLabel attr)

/-- Each code section has data in front of it. -/
def SectionsGapped : Nat → List CodeSection → Prop
  | _, [] => True
  | lo, s :: rest => lo < s.codeSegmentBase ∧ SectionsGapped s.pageEnd rest

/-- Where the last of the code sections ends. -/
def sectionsEnd : Nat → List CodeSection → Nat
  | lo, [] => lo
  | _, s :: rest => sectionsEnd s.pageEnd rest

section Wrote

/-- The records have been written from an index on, and nothing else. -/
structure Wrote (b : MapBuffer) (k : Int) (ds : List EfiMemoryDescriptor) (b' : MapBuffer) :
    Prop where
  contents : ∀ (i : Nat) (d : EfiMemoryDescriptor), ds[i]? = some d → b'.slots (k + i) = d
  frame : ∀ j, j < k ∨ k + ds.length ≤ j → b'.slots j = b.slots j
  writes : ∀ w ∈ b'.writes,
    w ∈ b.writes ∨ w.indexOld = b.indexOld ∧ k ≤ w.index ∧ w.index < k + ds.length
  indexOld : b'.indexOld = b.indexOld

variable {b b' b'' : MapBuffer} {k : Int} {ds ds' : List EfiMemoryDescriptor}
  {d d' : EfiMemoryDescriptor}

theorem Wrote.refl (b : MapBuffer) (k : Int) : Wrote b k [] b where
  contents i d h := by simp at h
  frame j _ := rfl
  writes w hw := Or.inl hw
  indexOld := rfl

theorem contents_snoc
    (hcontents : ∀ (i : Nat) (d : EfiMemoryDescriptor), i < ds.length → ds[i]? = some d →
      b.slots (k + i) = d)
    (d : EfiMemoryDescriptor) :
    ∀ (i : Nat) (e : EfiMemoryDescriptor), (ds ++ [d])[i]? = some e →
      (b.write (k + ds.length) d).slots (k + i) = e := by
  intro i e he
  simp only [MapBuffer.write]
  rcases Nat.lt_trichotomy i ds.length with hi | hi | hi
  · rw [getElem?_append_left hi] at he
    rw [Function.update_of_ne (by omega)]
    exact hcontents i e hi he
  · subst hi
    rw [getElem?_concat_length, Option.some_inj] at he
    rw [Function.update_self, he]
  · rw [getElem?_eq_none (by simp only [length_append, length_singleton]; omega)]
      at he
    exact absurd he (by simp)

theorem Wrote.snoc
    (h : Wrote b k ds b')
    (d : EfiMemoryDescriptor) :
    Wrote b k (ds ++ [d]) (b'.write (k + ds.length) d) := by
  constructor
  · exact contents_snoc (fun i e _ he => h.contents i e he) d
  · intro j hj
    simp only [length_append, length_singleton] at hj
    simp only [MapBuffer.write]
    rw [Function.update_of_ne (by omega)]
    exact h.frame j (by omega)
  · intro w hw
    simp only [length_append, length_singleton]
    rcases mem_cons.mp hw with rfl | hw
    · refine Or.inr ⟨h.indexOld, ?_, ?_⟩
      · simp only
        omega
      · simp only
        omega
    · rcases h.writes w hw with hold | ⟨hold, hle, hlt⟩
      · exact Or.inl hold
      · exact Or.inr ⟨hold, hle, by omega⟩
  · exact h.indexOld

theorem Wrote.append
    (h : Wrote b k ds b')
    (h' : Wrote b' (k + ds.length) ds' b'') :
    Wrote b k (ds ++ ds') b'' := by
  constructor
  · intro i e he
    rcases Nat.lt_or_ge i ds.length with hi | hi
    · rw [getElem?_append_left hi] at he
      rw [h'.frame _ (Or.inl (by omega))]
      exact h.contents i e he
    · rw [getElem?_append_right hi] at he
      have hslot := h'.contents _ e he
      rw [← hslot]
      congr 1
      omega
  · intro j hj
    simp only [length_append] at hj
    rw [h'.frame j (by omega), h.frame j (by omega)]
  · intro w hw
    simp only [length_append]
    rcases h'.writes w hw with hw | ⟨hold, hle, hlt⟩
    · rcases h.writes w hw with hw | ⟨hold, hle, hlt⟩
      · exact Or.inl hw
      · exact Or.inr ⟨hold, hle, by omega⟩
    · exact Or.inr ⟨hold.trans h.indexOld, by omega, by omega⟩
  · exact h'.indexOld.trans h.indexOld

/-- The last record written again. -/
theorem Wrote.rewriteLast
    (h : Wrote b k (ds ++ [d]) b')
    (d' : EfiMemoryDescriptor) :
    Wrote b k (ds ++ [d']) (b'.write (k + ds.length) d') := by
  have hlen : (ds ++ [d']).length = (ds ++ [d]).length := by
    simp only [length_append, length_singleton]
  constructor
  · exact contents_snoc
      (fun i e hi he => h.contents i e (by rw [getElem?_append_left hi]; exact he)) d'
  · intro j hj
    rw [hlen] at hj
    simp only [length_append, length_singleton] at hj
    simp only [MapBuffer.write]
    rw [Function.update_of_ne (by omega)]
    exact h.frame j (by simp only [length_append, length_singleton]; omega)
  · intro w hw
    rw [hlen]
    rcases mem_cons.mp hw with rfl | hw
    · refine Or.inr ⟨h.indexOld, ?_, ?_⟩
      · simp only
        omega
      · simp only [length_append, length_singleton]
        omega
    · exact h.writes w hw
  · exact h.indexOld

theorem Wrote.last
    (h : Wrote b k (ds ++ [d]) b') :
    b'.slots (k + ds.length) = d :=
  h.contents ds.length d getElem?_concat_length

end Wrote

section SetNewRecord

variable {f : Nat → Option MemoryLabel} {attr : UInt64} {lo hi stop : Nat}
  {sections : List CodeSection} {s : CodeSection}
  {st : NewRecordState} {x : Nat} {rest : List CodeSection}

theorem sub64_of_le
    {a b : Nat}
    (h : b ≤ a)
    (ha : a < 2 ^ 64) :
    sub64 a b = a - b := by
  rw [sub64]
  omega

theorem pages_between
    (hlo : Aligned lo)
    (hhi : Aligned hi)
    (hle : lo ≤ hi)
    (hfits : hi < 2 ^ 64) :
    efiSizeToPages (sub64 hi lo) * efiPageSize = hi - lo := by
  rw [sub64_of_le hle hfits]
  exact efiSizeToPages_aligned (hhi.sub hlo)

theorem pages_between_ne_zero
    (hlt : lo < hi)
    (hfits : hi < 2 ^ 64) :
    efiSizeToPages (sub64 hi lo) ≠ 0 := by
  rw [sub64_of_le hlt.le hfits]
  exact (efiSizeToPages_pos (by omega)).ne'

theorem codeSectionEnd_eq
    (h : s.pageEnd < 2 ^ 64) :
    codeSectionEnd s = s.pageEnd := by
  rw [CodeSection.pageEnd] at h
  rw [codeSectionEnd, efiPagesToSize, Nat.mod_eq_of_lt (by omega), add64, Nat.mod_eq_of_lt h,
    CodeSection.pageEnd]

theorem dataRecord_tiles
    (hlo : Aligned lo)
    (hhi : Aligned hi)
    (hlt : lo < hi)
    (hfits : hi < 2 ^ 64)
    (hf : ∀ x, lo ≤ x → x < hi → f x = some (dataLabel attr)) :
    Tiles f lo [dataRecord attr lo hi] hi := by
  have hpages := pages_between hlo hhi hlt.le hfits
  have hlast : Cell.last (dataRecord attr lo hi) = hi - 1 := by
    simp only [Cell.last, dataRecord, hpages]
    omega
  refine tiles_singleton.mpr ⟨rfl, ?_, ?_, ?_⟩
  · rw [hlast]
    exact Nat.le_sub_one_of_lt hlt
  · intro x hx hx'
    rw [hlast] at hx'
    exact hf x hx (by omega)
  · omega

theorem codeRecord_tiles
    (hsize : 0 < s.codeSegmentSize)
    (hf : ∀ x, s.codeSegmentBase ≤ x → x < s.pageEnd → f x = some (codeLabel attr)) :
    Tiles f s.codeSegmentBase [codeRecord attr s] s.pageEnd := by
  have hpos := efiSizeToPages_pos hsize
  have hend : s.codeSegmentBase < s.pageEnd := by
    rw [CodeSection.pageEnd, efiPageSize_eq]
    omega
  have hlast : Cell.last (codeRecord attr s) = s.pageEnd - 1 := rfl
  refine tiles_singleton.mpr ⟨rfl, ?_, ?_, ?_⟩
  · rw [hlast]
    exact Nat.le_sub_one_of_lt hend
  · intro x hx hx'
    rw [hlast] at hx'
    exact hf x hx (by omega)
  · omega

theorem put_of_pages
    {d : EfiMemoryDescriptor}
    (h : d.numberOfPages ≠ 0) :
    st.put d =
      { st with
        buffer := st.buffer.write st.newRecord d
        newRecord := st.newRecord + 1
        newRecordCount := st.newRecordCount + 1 } := by
  simp only [NewRecordState.put, if_pos h]

theorem SectionsWithin.sectionsEnd_le
    (h : SectionsWithin lo sections hi) :
    sectionsEnd lo sections ≤ hi := by
  induction sections generalizing lo with
  | nil => exact h
  | cons s rest ih => exact ih h.2.2.2

theorem SectionsWithin.le_sectionsEnd
    (h : SectionsWithin lo sections hi) :
    lo ≤ sectionsEnd lo sections := by
  induction sections generalizing lo with
  | nil => exact le_rfl
  | cons s rest ih =>
      have hbase := h.1
      have hrest := ih h.2.2.2
      simp only [CodeSection.pageEnd] at hrest
      simp only [sectionsEnd, CodeSection.pageEnd]
      omega

theorem pageEnd_aligned
    (h : Aligned s.codeSegmentBase) :
    Aligned s.pageEnd :=
  h.add (aligned_pages _)

theorem SectionsWithin.sectionsEnd_aligned
    (h : SectionsWithin lo sections hi)
    (hlo : Aligned lo) :
    Aligned (sectionsEnd lo sections) := by
  induction sections generalizing lo with
  | nil => exact hlo
  | cons s rest ih => exact ih h.2.2.2 (pageEnd_aligned h.2.1)

theorem SectionsWithin.inSections_below
    (h : SectionsWithin lo sections hi)
    (hx : x < lo) :
    inSections sections x = false := by
  induction sections generalizing lo with
  | nil => rfl
  | cons s rest ih =>
      obtain ⟨hbase, -, _, hrest⟩ := h
      have hpage : lo ≤ s.pageEnd := by
        rw [CodeSection.pageEnd]
        omega
      have htail := ih hrest (by omega)
      simp only [inSections, any_cons, Bool.or_eq_false_iff] at htail ⊢
      refine ⟨?_, htail⟩
      rw [decide_eq_false (by omega), Bool.false_and]

theorem SectionsWithin.inSections_behind
    (h : SectionsWithin lo sections hi)
    (hx : sectionsEnd lo sections ≤ x) :
    inSections sections x = false := by
  induction sections generalizing lo with
  | nil => rfl
  | cons s rest ih =>
      have hend := h.2.2.2.le_sectionsEnd
      have htail := ih h.2.2.2 hx
      simp only [sectionsEnd] at hx
      simp only [inSections, any_cons, Bool.or_eq_false_iff] at htail ⊢
      refine ⟨?_, htail⟩
      have hnot : ¬ x < s.pageEnd := by omega
      rw [decide_eq_false hnot, Bool.and_false]

theorem inSections_cons_of_mem
    (h : s.codeSegmentBase ≤ x)
    (h' : x < s.pageEnd) :
    inSections (s :: rest) x = true := by
  simp only [inSections, any_cons, decide_eq_true h, decide_eq_true h', Bool.and_self,
    Bool.true_or]

theorem inSections_cons_of_le
    (h : s.pageEnd ≤ x) :
    inSections (s :: rest) x = inSections rest x := by
  have hnot : ¬ x < s.pageEnd := by omega
  simp only [inSections, any_cons, decide_eq_false hnot, Bool.and_false, Bool.false_or]

/-- The last record written has a type. -/
def LastIs (type : UInt32) (ds : List EfiMemoryDescriptor) : Prop :=
  ∃ front d, ds = front ++ [d] ∧ d.type = type

theorem LastIs.append
    {type : UInt32} {ds ds' : List EfiMemoryDescriptor}
    (h : LastIs type ds') :
    LastIs type (ds ++ ds') := by
  obtain ⟨front, d, rfl, hd⟩ := h
  exact ⟨ds ++ front, d, (append_assoc _ _ _).symm, hd⟩

/-- What the loop of `SetNewRecord` has done from a state on. -/
structure NewRecords (attr : UInt64) (lo : Nat) (sections : List CodeSection)
    (st st' : NewRecordState) (ds : List EfiMemoryDescriptor) : Prop where
  wrote : Wrote st.buffer st.newRecord ds st'.buffer
  newRecord : st'.newRecord = st.newRecord + ds.length
  newRecordCount : st'.newRecordCount = st.newRecordCount + ds.length
  physicalStart : st'.physicalStart = sectionsEnd lo sections
  length : ds.length = 2 * sections.length
  tiles : Tiles (splitLabel attr (inSections sections)) lo ds (sectionsEnd lo sections)
  code : sections ≠ [] → LastIs efiRuntimeServicesCode ds

theorem newRecords_nil
    (h : st.physicalStart = lo) :
    NewRecords attr lo [] st st [] where
  wrote := Wrote.refl _ _
  newRecord := by simp
  newRecordCount := by simp
  physicalStart := h
  length := rfl
  tiles := rfl
  code hne := absurd rfl hne

/-- The records of a section and those behind them. -/
theorem NewRecords.cons
    {rest : List CodeSection} {st st' : NewRecordState} {ds : List EfiMemoryDescriptor}
    (hwithin : SectionsWithin lo (s :: rest) hi)
    (hgap : lo < s.codeSegmentBase)
    (hlo : Aligned lo)
    (hfits : hi < 2 ^ 64)
    (h : NewRecords attr s.pageEnd rest
      { buffer := (st.buffer.write st.newRecord (dataRecord attr lo s.codeSegmentBase)).write
          (st.newRecord + 1) (codeRecord attr s)
        newRecord := st.newRecord + 1 + 1
        newRecordCount := st.newRecordCount + 1 + 1
        physicalStart := s.pageEnd } st' ds) :
    NewRecords attr lo (s :: rest) st st'
      (dataRecord attr lo s.codeSegmentBase :: codeRecord attr s :: ds) := by
  obtain ⟨-, hbase, hsize, hrest⟩ := hwithin
  have hend := hrest.le
  have hpage : s.codeSegmentBase ≤ s.pageEnd := by
    rw [CodeSection.pageEnd]
    omega
  have hwrote := ((Wrote.refl st.buffer st.newRecord).snoc
    (dataRecord attr lo s.codeSegmentBase)).snoc (codeRecord attr s)
  simp only [nil_append, length_nil, length_singleton, Nat.cast_zero, add_zero,
    Nat.cast_one, singleton_append] at hwrote
  constructor
  · change Wrote _ _ ([dataRecord attr lo s.codeSegmentBase, codeRecord attr s] ++ ds) _
    refine hwrote.append ?_
    have hat : st.newRecord + ([dataRecord attr lo s.codeSegmentBase, codeRecord attr s].length : Nat)
        = st.newRecord + 1 + 1 := by
      simp only [length_cons, length_nil]
      omega
    rw [hat]
    exact h.wrote
  · rw [h.newRecord]
    simp only [length_cons]
    omega
  · rw [h.newRecordCount]
    simp only [length_cons]
    omega
  · exact h.physicalStart
  · simp only [length_cons, h.length]
    omega
  · have hdata : Tiles (splitLabel attr (inSections (s :: rest))) lo
        [dataRecord attr lo s.codeSegmentBase] s.codeSegmentBase := by
      refine dataRecord_tiles hlo hbase hgap (by omega) fun x _ hx => ?_
      have hfrom : SectionsWithin s.codeSegmentBase (s :: rest) hi :=
        ⟨le_rfl, hbase, hsize, hrest⟩
      have hnone : inSections (s :: rest) x = false := hfrom.inSections_below hx
      simp only [splitLabel, hnone, Bool.false_eq_true, if_false]
    have hcode : Tiles (splitLabel attr (inSections (s :: rest))) s.codeSegmentBase
        [codeRecord attr s] s.pageEnd := by
      refine codeRecord_tiles hsize fun x hx hx' => ?_
      simp only [splitLabel, inSections_cons_of_mem hx hx', if_true]
    have hrests : Tiles (splitLabel attr (inSections (s :: rest))) s.pageEnd ds
        (sectionsEnd s.pageEnd rest) := by
      refine h.tiles.congr fun x hx _ => ?_
      simp only [splitLabel, inSections_cons_of_le hx]
    exact (hdata.append hcode).append hrests
  · intro _
    by_cases hnil : rest = []
    · have hds : ds = [] := by
        refine length_eq_zero_iff.mp ?_
        rw [h.length, hnil]
        rfl
      rw [hds]
      exact ⟨[dataRecord attr lo s.codeSegmentBase], codeRecord attr s, rfl, rfl⟩
    · exact @LastIs.append _ [dataRecord attr lo s.codeSegmentBase, codeRecord attr s] _ (h.code hnil)

/-- The loop of `SetNewRecord` over sections with data in front of each. -/
theorem setNewRecordLoop_spec
    (hwithin : SectionsWithin lo sections hi)
    (hgapped : SectionsGapped lo sections)
    (hlo : Aligned lo)
    (hhi : hi ≤ stop)
    (hfits : stop < 2 ^ 64)
    (hstart : st.physicalStart = lo) :
    ∃ ds, NewRecords attr lo sections st (setNewRecordLoop attr stop sections st) ds := by
  induction sections generalizing lo st with
  | nil => exact ⟨[], newRecords_nil hstart⟩
  | cons s rest ih =>
      obtain ⟨hgap, hgaps⟩ := hgapped
      obtain ⟨hle, hbase, hsize, hrest⟩ := hwithin
      have hend := hrest.le
      have hpage : s.codeSegmentBase ≤ s.pageEnd := by
        rw [CodeSection.pageEnd]
        omega
      have hdataPages : (dataRecord attr lo s.codeSegmentBase).numberOfPages ≠ 0 :=
        pages_between_ne_zero hgap (by omega)
      have hcodePages : (codeRecord attr s).numberOfPages ≠ 0 := (efiSizeToPages_pos hsize).ne'
      rw [setNewRecordLoop, hstart, if_pos hle]
      simp only [put_of_pages hdataPages, put_of_pages hcodePages,
        codeSectionEnd_eq (show s.pageEnd < 2 ^ 64 by omega)]
      split
      case isTrue hzero =>
        -- the loop is left only where nothing can follow
        have hstop : stop ≤ s.pageEnd := by
          by_contra hlt
          exact pages_between_ne_zero (not_le.mp hlt) hfits hzero
        have hnil : rest = [] := by
          cases rest with
          | nil => rfl
          | cons t rest =>
              have hlt := hgaps.1
              have ht := hrest.2.2.2.le
              simp only [CodeSection.pageEnd] at ht hlt hstop hpage
              omega
        subst hnil
        exact ⟨_, NewRecords.cons ⟨hle, hbase, hsize, hrest⟩ hgap hlo (by omega)
          (newRecords_nil rfl)⟩
      case isFalse =>
        refine Exists.elim (ih hrest hgaps (pageEnd_aligned hbase) ?_) fun ds hds =>
          ⟨_, NewRecords.cons ⟨hle, hbase, hsize, hrest⟩ hgap hlo (by omega) hds⟩
        rfl

end SetNewRecord

end PropertiesTable
end Udk
