import Udk.PropertiesTable.MemoryMap
import Udk.Runs

/-!
# Histories of image records

Whatever images are inserted and removed, as long as each is page aligned and disjoint
from those recorded, the records are sorted, disjoint and have their code sections in
order within the image.
-/

namespace Udk
namespace PropertiesTable

open List

/-- An address on a page boundary. -/
def Aligned (a : Nat) : Prop := a % efiPageSize = 0

/-- The pages of a code section end here. -/
def CodeSection.pageEnd (s : CodeSection) : Nat :=
  s.codeSegmentBase + efiSizeToPages s.codeSegmentSize * efiPageSize

/-- The code sections follow each other on page boundaries between two addresses. -/
def SectionsWithin : Nat → List CodeSection → Nat → Prop
  | lo, [], hi => lo ≤ hi
  | lo, s :: rest, hi =>
      lo ≤ s.codeSegmentBase ∧ Aligned s.codeSegmentBase ∧ 0 < s.codeSegmentSize ∧
        SectionsWithin s.pageEnd rest hi

/-- A record of an image with page aligned code sections in order. -/
structure RecordOk (r : ImageRecord) : Prop where
  aligned : Aligned r.imageBase
  alignedSize : Aligned r.imageSize
  fits : r.imageBase + r.imageSize < 2 ^ 64
  count : r.codeSegmentCount = r.codeSegmentList.length
  nonempty : r.codeSegmentList ≠ []
  sections : SectionsWithin r.imageBase r.codeSegmentList (r.imageBase + r.imageSize)

/-- The records are in order and their images are disjoint. -/
structure DataOk (data : PrivateData) : Prop where
  records : ∀ r ∈ data.imageRecordList, RecordOk r
  sorted : data.imageRecordList.Pairwise
    (fun a b => a.imageBase + a.imageSize ≤ b.imageBase)
  count : data.imageRecordCount = data.imageRecordList.length
  enabled : data.nonExecutablePeData = true

/-- A page aligned runtime image with page aligned code sections, away from the images
recorded. -/
structure ImageOk (data : PrivateData) (image : RuntimeImage) : Prop where
  aligned : Aligned image.imageBase
  alignedSize : Aligned image.imageSize
  fits : image.imageBase + image.imageSize ≤ 2 ^ 64
  alignment : image.sectionAlignment % runtimePageAllocationAlignment = 0
  hasCode : codeSections image ≠ []
  sections : ∀ header ∈ image.sections, header.isCode = true →
    Aligned header.virtualAddress ∧ image.imageBase + header.virtualAddress < 2 ^ 64 ∧
      header.sizeOfRawData < 2 ^ 32
  disjoint : ∀ r ∈ data.imageRecordList, r.imageBase + r.imageSize ≤ image.imageBase ∨
    image.imageBase + image.imageSize ≤ r.imageBase

/-- A call on the image records. -/
inductive RecordCall where
  | insert (image : RuntimeImage) (pool : RecordPool)
  | remove (image : RuntimeImage)
deriving DecidableEq

/-- A call of the history; what is inserted is an image as above. -/
inductive RecordStep : PrivateData → RecordCall → PrivateData → Prop
  | insert {data : PrivateData} {image : RuntimeImage} (pool : RecordPool)
      (h : ImageOk data image) :
      RecordStep data (.insert image pool) (insertImageRecord data image pool)
  | remove (data : PrivateData) (image : RuntimeImage) :
      RecordStep data (.remove image) (removeImageRecord data image)

/-- No image is recorded. -/
def initialData : PrivateData where
  imageRecordCount := 0
  codeSegmentCountMax := 0
  imageRecordList := []
  nonExecutablePeData := true

section Pages

theorem efiPageSize_eq : efiPageSize = 4096 := rfl

theorem efiSizeToPages_eq
    (size : Nat) :
    efiSizeToPages size = (size + 4095) / 4096 := by
  have h : efiSizeToPages size = size / 4096 + if size % 4096 ≠ 0 then 1 else 0 := rfl
  rw [h]
  split <;> omega

theorem efiSizeToPages_aligned
    {size : Nat}
    (h : Aligned size) :
    efiSizeToPages size * efiPageSize = size := by
  simp only [Aligned, efiPageSize_eq] at h
  rw [efiSizeToPages_eq, efiPageSize_eq]
  omega

theorem efiSizeToPages_le
    {size bound : Nat}
    (hbound : Aligned bound)
    (h : size ≤ bound) :
    efiSizeToPages size * efiPageSize ≤ bound := by
  simp only [Aligned, efiPageSize_eq] at hbound
  rw [efiSizeToPages_eq, efiPageSize_eq]
  omega

theorem efiSizeToPages_pos
    {size : Nat}
    (h : 0 < size) :
    0 < efiSizeToPages size := by
  rw [efiSizeToPages_eq]
  omega

theorem aligned_pages (n : Nat) : Aligned (n * efiPageSize) :=
  Nat.mul_mod_left n efiPageSize

theorem Aligned.add
    {a b : Nat}
    (ha : Aligned a)
    (hb : Aligned b) :
    Aligned (a + b) := by
  simp only [Aligned, efiPageSize_eq] at *
  omega

theorem Aligned.sub
    {a b : Nat}
    (ha : Aligned a)
    (hb : Aligned b) :
    Aligned (a - b) := by
  simp only [Aligned, efiPageSize_eq] at *
  omega

theorem Aligned.pageEnd_le
    {s : CodeSection} {b : Nat}
    (hs : Aligned s.codeSegmentBase)
    (hb : Aligned b)
    (h : s.codeSegmentBase + s.codeSegmentSize ≤ b) :
    s.pageEnd ≤ b := by
  have := efiSizeToPages_le (hb.sub hs) (show s.codeSegmentSize ≤ b - s.codeSegmentBase by omega)
  rw [CodeSection.pageEnd]
  omega

end Pages

section Valid

/-- The check of the code sections, for sections on page boundaries of an image that the
address space holds: they follow each other within the image. -/
theorem codeSectionsValid_within
    {image : ImageRecord} {last : Option CodeSection} {sections : List CodeSection} {lo : Nat}
    (haligned : Aligned image.imageBase)
    (halignedSize : Aligned image.imageSize)
    (hfits : image.imageBase + image.imageSize ≤ 2 ^ 64)
    (hsections : ∀ s ∈ sections, Aligned s.codeSegmentBase ∧ s.codeSegmentSize < 2 ^ 32)
    (hlast : ∀ s, last = some s → Aligned s.codeSegmentBase ∧
      s.codeSegmentBase + s.codeSegmentSize < 2 ^ 64 ∧ lo = s.pageEnd ∧
      s.pageEnd ≤ image.imageBase + image.imageSize)
    (hnone : last = none → lo = image.imageBase)
    (h : codeSectionsValid image last sections = true) :
    SectionsWithin lo sections (image.imageBase + image.imageSize) ∧
      (sections ≠ [] → image.imageBase + image.imageSize < 2 ^ 64) := by
  induction sections generalizing last lo with
  | nil =>
      refine ⟨?_, fun hne => absurd rfl hne⟩
      cases hl : last with
      | none =>
          have := hnone hl
          simp only [SectionsWithin]
          omega
      | some s =>
          have := hlast s hl
          simp only [SectionsWithin]
          omega
  | cons s rest ih =>
      obtain ⟨hs, hwidth⟩ := hsections s mem_cons_self
      simp only [codeSectionsValid.eq_def image last (s :: rest)] at h
      split_ifs at h with hsize hbase hmax hend
      -- the check bounds the end of the section, so the end of the image has not wrapped
      have hsum : s.codeSegmentBase + s.codeSegmentSize < 2 ^ 64 := by
        simp only [sub64, maxAddress] at hmax
        omega
      have hwithin : s.codeSegmentBase + s.codeSegmentSize ≤
          image.imageBase + image.imageSize ∧ image.imageBase + image.imageSize < 2 ^ 64 := by
        simp only [add64] at hend
        omega
      have hpageEnd : s.pageEnd ≤ image.imageBase + image.imageSize :=
        hs.pageEnd_le (haligned.add halignedSize) hwithin.1
      have hrest : ∀ t ∈ rest, Aligned t.codeSegmentBase ∧ t.codeSegmentSize < 2 ^ 32 :=
        fun t ht => hsections t (mem_cons_of_mem _ ht)
      have hnext : ∀ t, some s = some t → Aligned t.codeSegmentBase ∧
          t.codeSegmentBase + t.codeSegmentSize < 2 ^ 64 ∧ s.pageEnd = t.pageEnd ∧
          t.pageEnd ≤ image.imageBase + image.imageSize := by
        intro t ht
        rw [← Option.some_inj.mp ht]
        exact ⟨hs, hsum, rfl, hpageEnd⟩
      refine ⟨⟨?_, hs, by omega, ?_⟩, fun _ => hwithin.2⟩
      · cases hl : last with
        | none =>
            have := hnone hl
            omega
        | some t =>
            obtain ⟨ht, htsum, hlo, -⟩ := hlast t hl
            rw [hl] at h
            simp only at h
            split_ifs at h with horder
            rw [hlo]
            refine ht.pageEnd_le hs ?_
            simp only [add64] at horder
            omega
      · have hvalid : codeSectionsValid image (some s) rest = true := by
          cases hl : last with
          | none =>
              rw [hl] at h
              exact h
          | some t =>
              rw [hl] at h
              simp only at h
              split_ifs at h
              exact h
        exact (ih hrest hnext (fun hc => by simp at hc) hvalid).1

end Valid

section Records

variable {data data' : PrivateData} {image : RuntimeImage} {record : ImageRecord}

theorem SectionsWithin.le
    {lo hi : Nat} {sections : List CodeSection}
    (h : SectionsWithin lo sections hi) :
    lo ≤ hi := by
  induction sections generalizing lo with
  | nil => exact h
  | cons s rest ih =>
      have hbase := h.1
      have hrest := ih h.2.2.2
      simp only [CodeSection.pageEnd] at hrest
      omega

theorem RecordOk.size_pos
    (h : RecordOk record) :
    0 < record.imageSize := by
  have hsections := h.sections
  cases hl : record.codeSegmentList with
  | nil => exact absurd hl h.nonempty
  | cons s rest =>
      rw [hl] at hsections
      obtain ⟨hbase, -, hsize, hrest⟩ := hsections
      have hend := hrest.le
      have hpages := efiSizeToPages_pos hsize
      simp only [CodeSection.pageEnd, efiPageSize_eq] at hend
      omega

/-- Two images apart from each other. -/
def ImageRecord.Apart (a b : ImageRecord) : Prop :=
  a.imageBase + a.imageSize ≤ b.imageBase ∨ b.imageBase + b.imageSize ≤ a.imageBase

/-- The record that `InsertImageRecord` builds. -/
theorem recordOk_insert
    (h : ImageOk data image)
    (hrecord : record =
      { imageBase := image.imageBase
        imageSize := image.imageSize
        codeSegmentCount := (codeSections image).length
        codeSegmentList := exchangeSort CodeSection.codeSegmentBase (codeSections image) })
    (hvalid : isImageRecordCodeSectionValid record = true) :
    RecordOk record := by
  have hperm := exchangeSort_perm CodeSection.codeSegmentBase (codeSections image)
  have hlist : record.codeSegmentList =
      exchangeSort CodeSection.codeSegmentBase (codeSections image) := by
    rw [hrecord]
  have hbase : record.imageBase = image.imageBase := by
    rw [hrecord]
  have hsize : record.imageSize = image.imageSize := by
    rw [hrecord]
  have hnonempty : record.codeSegmentList ≠ [] := by
    rw [hlist]
    exact fun hnil => h.hasCode (nil_perm.mp (hnil ▸ hperm))
  have hsections : ∀ s ∈ record.codeSegmentList,
      Aligned s.codeSegmentBase ∧ s.codeSegmentSize < 2 ^ 32 := by
    intro s hs
    rw [hlist] at hs
    obtain ⟨header, hheader, rfl⟩ := mem_map.mp (hperm.mem_iff.mp hs)
    obtain ⟨hmem, hcode⟩ := mem_filter.mp hheader
    obtain ⟨haligned, hfits, hwidth⟩ := h.sections header hmem hcode
    refine ⟨?_, hwidth⟩
    have hsum : add64 image.imageBase header.virtualAddress =
        image.imageBase + header.virtualAddress := Nat.mod_eq_of_lt hfits
    simp only [hsum]
    exact h.aligned.add haligned
  have hwithin := codeSectionsValid_within (hbase ▸ h.aligned) (hsize ▸ h.alignedSize)
    (by rw [hbase, hsize]; exact h.fits) hsections (by simp) (fun _ => rfl) hvalid
  exact
    { aligned := hbase ▸ h.aligned
      alignedSize := hsize ▸ h.alignedSize
      fits := hwithin.2 hnonempty
      count := by rw [hlist, hperm.length_eq, hrecord]
      nonempty := hnonempty
      sections := hwithin.1 }

theorem DataOk.recordImage
    (h : DataOk data)
    (hrecord : RecordOk record)
    (hapart : ∀ r ∈ data.imageRecordList, r.Apart record) :
    DataOk (recordImage data record) := by
  have hperm : (sortImageRecord (data.imageRecordList ++ [record])).Perm
      (data.imageRecordList ++ [record]) := exchangeSort_perm _ _
  have hrecords : ∀ r ∈ sortImageRecord (data.imageRecordList ++ [record]), RecordOk r := by
    intro r hr
    rcases mem_append.mp (hperm.mem_iff.mp hr) with hr | hr
    · exact h.records r hr
    · exact mem_singleton.mp hr ▸ hrecord
  have happ : (data.imageRecordList ++ [record]).Pairwise ImageRecord.Apart := by
    refine pairwise_append.mpr ⟨h.sorted.imp Or.inl, pairwise_singleton _ _, ?_⟩
    intro a ha b hb
    exact mem_singleton.mp hb ▸ hapart a ha
  have hpairwise := (hperm.pairwise_iff (fun hab => hab.symm)).mpr happ
  have hsorted := exchangeSort_sorted ImageRecord.imageBase (data.imageRecordList ++ [record])
  refine ⟨hrecords, ?_, ?_, h.enabled⟩
  · refine (hpairwise.and hsorted).imp_of_mem fun {a b} _ hb hab => ?_
    have hsize := (hrecords b hb).size_pos
    rcases hab.1 with h1 | h1
    · exact h1
    · have hbase := hab.2
      omega
  · have hlen := hperm.length_eq
    simp only [length_append, length_singleton] at hlen
    simp only [PropertiesTable.recordImage, h.count, hlen]

theorem DataOk.insert
    (h : DataOk data)
    (himage : ImageOk data image)
    (pool : RecordPool) :
    DataOk (insertImageRecord data image pool) := by
  have hsame : setPropertiesTableSectionAlignment data image.sectionAlignment = data := by
    rw [setPropertiesTableSectionAlignment, if_neg (by rw [himage.alignment]; exact fun h => h rfl)]
  have hcode : (codeSections image).length ≠ 0 :=
    fun h => himage.hasCode (length_eq_zero_iff.mp h)
  simp only [insertImageRecord, hsame]
  split_ifs with hpool hpe halign hroom hvalid
  · exact h
  · exact h
  · exact h
  · exact h
  · exact h
  · refine h.recordImage (recordOk_insert himage rfl ?_) fun r hr => ?_
    · simpa using hvalid
    · exact himage.disjoint r hr

theorem DataOk.remove
    (h : DataOk data)
    (image : RuntimeImage) :
    DataOk (removeImageRecord data image) := by
  simp only [removeImageRecord]
  split
  · exact h
  · rename_i r hfind
    have hmem := mem_of_find?_eq_some hfind
    have hr := find?_some hfind
    have hsub := @eraseP_sublist _ (fun record : ImageRecord =>
      image.imageBase == record.imageBase && image.imageSize == record.imageSize)
      data.imageRecordList
    refine ⟨fun a ha => h.records a (hsub.mem ha), h.sorted.sublist hsub, ?_, h.enabled⟩
    have hlen : (data.imageRecordList.eraseP fun record : ImageRecord =>
        image.imageBase == record.imageBase && image.imageSize == record.imageSize).length =
        data.imageRecordList.length - 1 := length_eraseP_of_mem hmem hr
    simp only [hlen, h.count]

theorem recordRun_ok
    {trace : List (PrivateData × RecordCall)}
    (h : Run RecordStep initialData trace data) :
    DataOk data := by
  have hkeep : ∀ s a s', DataOk s → True → RecordStep s a s' → DataOk s' := by
    intro s a s' hs _ hstep
    cases hstep with
    | insert pool himage => exact hs.insert himage pool
    | remove image => exact hs.remove image
  have hinitial : DataOk initialData :=
    ⟨fun r hr => absurd hr not_mem_nil, List.Pairwise.nil, rfl, rfl⟩
  exact h.invariant hkeep (fun _ _ => trivial) hinitial

end Records

end PropertiesTable
end Udk
