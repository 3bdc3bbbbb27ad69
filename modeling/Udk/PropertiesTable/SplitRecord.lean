import Udk.PropertiesTable.NewRecords

/-!
# Splitting one descriptor

`SplitRecord` and `GetMaxSplitRecordCount` walk the images of a descriptor alike.  If each
code section has data in front of it and each image data behind its last section, the
number of records is the one computed in advance, and they show the code sections of all
images on data.
-/

namespace Udk
namespace PropertiesTable

open Tiling List

/-- The address lies in the pages of a recorded code section. -/
def inCode (records : List ImageRecord) (x : Nat) : Bool :=
  records.any fun image => inSections image.codeSegmentList x

/-- The recorded images between two addresses. -/
def imagesIn (records : List ImageRecord) (lo hi : Nat) : List ImageRecord :=
  records.filter fun image =>
    decide (lo ≤ image.imageBase) && decide (image.imageBase + image.imageSize ≤ hi)

/-- The records that the images take at most. -/
def splitCount (images : List ImageRecord) : Nat :=
  (images.map fun image => 2 * image.codeSegmentCount + 1).sum

/-- Behind `lo`, each code section of the images has data in front of it and each image
data behind its last section, for the last image up to `stop`. -/
def ImagesGapped (stop : Nat) : Nat → List ImageRecord → Prop
  | _, [] => True
  | lo, image :: rest =>
      SectionsGapped lo image.codeSegmentList ∧
        sectionsEnd lo image.codeSegmentList <
          (if rest = [] then stop else image.imageBase + image.imageSize) ∧
        ImagesGapped stop (image.imageBase + image.imageSize) rest

/-- The records are in order. -/
structure RecordsOk (records : List ImageRecord) : Prop where
  each : ∀ r ∈ records, RecordOk r
  sorted : records.Pairwise (fun a b => a.imageBase + a.imageSize ≤ b.imageBase)

/-- No recorded image reaches over the address. -/
def Clean (records : List ImageRecord) (p : Nat) : Prop :=
  ∀ r ∈ records, r.imageBase + r.imageSize ≤ p ∨ p ≤ r.imageBase

section Walk

variable {records images rest : List ImageRecord} {image r : ImageRecord} {lo hi p x : Nat}

theorem RecordOk.imageEnd_eq
    (h : RecordOk image) :
    image.imageEnd = image.imageBase + image.imageSize :=
  Nat.mod_eq_of_lt h.fits

theorem getImageRecordByAddress_eq
    (hrecords : RecordsOk records)
    (hle : lo ≤ hi)
    (hfits : hi < 2 ^ 64) :
    getImageRecordByAddress records lo (sub64 hi lo) = (imagesIn records lo hi).head? := by
  rw [imagesIn, head?_filter, getImageRecordByAddress, sub64_of_le hle hfits]
  refine find?_congr fun r hr => ?_
  have hend : add64 lo (hi - lo) = hi := by
    rw [add64, Nat.add_sub_cancel' hle, Nat.mod_eq_of_lt hfits]
  rw [hend, (hrecords.each r hr).imageEnd_eq]

instance : Std.Symm ImageRecord.Apart where
  symm _ _ h := h.symm

theorem RecordsOk.eq_or_apart
    (hrecords : RecordsOk records)
    {a b : ImageRecord}
    (ha : a ∈ records)
    (hb : b ∈ records) :
    a = b ∨ a.Apart b := by
  have hpairwise : records.Pairwise ImageRecord.Apart := hrecords.sorted.imp Or.inl
  by_cases heq : a = b
  · exact Or.inl heq
  · exact Or.inr (hpairwise.forall ha hb heq)

theorem imagesIn_cons
    (hrecords : RecordsOk records)
    (h : imagesIn records lo hi = image :: rest) :
    image ∈ records ∧ lo ≤ image.imageBase ∧ image.imageBase + image.imageSize ≤ hi ∧
      imagesIn records (image.imageBase + image.imageSize) hi = rest := by
  have hmem : image ∈ imagesIn records lo hi := h ▸ mem_cons_self
  simp only [imagesIn, mem_filter, Bool.and_eq_true, decide_eq_true_eq] at hmem
  obtain ⟨himage, hlo, hhi⟩ := hmem
  refine ⟨himage, hlo, hhi, ?_⟩
  have hpos := (hrecords.each image himage).size_pos
  have hsorted : (image :: rest).Pairwise
      (fun a b => a.imageBase + a.imageSize ≤ b.imageBase) :=
    h ▸ hrecords.sorted.sublist filter_sublist
  have hagain : imagesIn records (image.imageBase + image.imageSize) hi =
      (imagesIn records lo hi).filter
        fun r => decide (image.imageBase + image.imageSize ≤ r.imageBase) := by
    rw [imagesIn, imagesIn, filter_filter]
    refine filter_congr fun r _ => ?_
    rw [Bool.eq_iff_iff]
    simp only [Bool.and_eq_true, decide_eq_true_eq]
    omega
  rw [hagain, h, filter_cons_of_neg (by simp only [decide_eq_true_eq]; omega)]
  refine filter_eq_self.mpr fun r hr => ?_
  exact decide_eq_true ((pairwise_cons.mp hsorted).1 r hr)

theorem RecordOk.bounds_of_inSections
    (h : RecordOk image)
    (hx : inSections image.codeSegmentList x = true) :
    image.imageBase ≤ x ∧ x < image.imageBase + image.imageSize := by
  constructor
  · by_contra hlt
    rw [h.sections.inSections_below (not_le.mp hlt)] at hx
    exact absurd hx (by simp)
  · by_contra hge
    have hend := h.sections.sectionsEnd_le
    rw [h.sections.inSections_behind (by omega)] at hx
    exact absurd hx (by simp)

variable (hrecords : RecordsOk records)
include hrecords

theorem inCode_eq_of_first
    (h : imagesIn records lo hi = image :: rest)
    (hclean : Clean records lo)
    (hcleanHi : Clean records hi)
    (hlo : lo ≤ x)
    (hx : x < image.imageBase + image.imageSize) :
    inCode records x = inSections image.codeSegmentList x := by
  obtain ⟨himage, -, hhi, hrest⟩ := imagesIn_cons hrecords h
  rw [Bool.eq_iff_iff]
  constructor
  · intro hcode
    obtain ⟨r, hr, hin⟩ := any_eq_true.mp hcode
    obtain ⟨hbase, hend⟩ := (hrecords.each r hr).bounds_of_inSections hin
    have hfrom : lo ≤ r.imageBase := by
      have := hclean r hr
      omega
    have hto : r.imageBase + r.imageSize ≤ hi := by
      have := hcleanHi r hr
      omega
    have hmem : r ∈ imagesIn records lo hi := by
      simp only [imagesIn, mem_filter, Bool.and_eq_true, decide_eq_true_eq]
      exact ⟨hr, hfrom, hto⟩
    rw [h] at hmem
    rcases mem_cons.mp hmem with rfl | hmem
    · exact hin
    · rw [← hrest] at hmem
      simp only [imagesIn, mem_filter, Bool.and_eq_true, decide_eq_true_eq] at hmem
      omega
  · exact fun hin => any_eq_true.mpr ⟨image, himage, hin⟩

theorem inCode_eq_false
    (h : imagesIn records lo hi = [])
    (hclean : Clean records lo)
    (hcleanHi : Clean records hi)
    (hlo : lo ≤ x)
    (hx : x < hi) :
    inCode records x = false := by
  by_contra hcode
  rw [Bool.not_eq_false] at hcode
  obtain ⟨r, hr, hin⟩ := any_eq_true.mp hcode
  obtain ⟨hbase, hend⟩ := (hrecords.each r hr).bounds_of_inSections hin
  have hmem : r ∈ imagesIn records lo hi := by
    have h1 := hclean r hr
    have h2 := hcleanHi r hr
    simp only [imagesIn, mem_filter, Bool.and_eq_true, decide_eq_true_eq]
    exact ⟨hr, by omega, by omega⟩
  rw [h] at hmem
  exact absurd hmem not_mem_nil

theorem RecordsOk.clean_end
    (himage : image ∈ records) :
    Clean records (image.imageBase + image.imageSize) := by
  intro r hr
  rcases hrecords.eq_or_apart hr himage with rfl | h | h
  · exact Or.inl le_rfl
  · exact Or.inl (by omega)
  · exact Or.inr h

/-- `GetMaxSplitRecordCount` adds up the records of the images of the range. -/
theorem maxSplitLoop_spec
    {turns count : Nat}
    (himages : imagesIn records lo hi = images)
    (hle : lo ≤ hi)
    (hfits : hi < 2 ^ 64)
    (hturns : images.length < turns) :
    maxSplitLoop records hi turns lo count = some (count + splitCount images) := by
  induction images generalizing lo turns count with
  | nil =>
      cases turns with
      | zero => exact absurd hturns (Nat.not_lt_zero _)
      | succ turns =>
          rw [maxSplitLoop, getImageRecordByAddress_eq hrecords hle hfits, himages]
          rfl
  | cons image rest ih =>
      obtain ⟨himage, -, hend, hrest⟩ := imagesIn_cons hrecords himages
      cases turns with
      | zero => exact absurd hturns (Nat.not_lt_zero _)
      | succ turns =>
          have hcount : splitCount (image :: rest) =
              2 * image.codeSegmentCount + 1 + splitCount rest := rfl
          rw [maxSplitLoop, getImageRecordByAddress_eq hrecords hle hfits, himages]
          simp only [head?_cons, (hrecords.each image himage).imageEnd_eq]
          split
          case isTrue hlt =>
            rw [ih hrest hend (by simpa using hturns), hcount]
            congr 1
            omega
          case isFalse hge =>
            -- the image ends where the descriptor does, so no image is behind it
            have hnil : rest = [] := by
              cases rest with
              | nil => rfl
              | cons t rest =>
                  obtain ⟨ht, hbase, htend, -⟩ := imagesIn_cons hrecords hrest
                  have hpos := (hrecords.each t ht).size_pos
                  omega
            rw [hcount, hnil]
            rfl

end Walk

section SplitRecord

variable {records images rest : List ImageRecord} {image : ImageRecord} {attr : UInt64}
  {lo stop p : Nat} {b : MapBuffer} {k : Int} {oldRecord : EfiMemoryDescriptor}
  {done : List EfiMemoryDescriptor}

theorem SectionsWithin.mono
    {lo' hi : Nat} {sections : List CodeSection}
    (h : SectionsWithin lo sections hi)
    (hle : lo' ≤ lo) :
    SectionsWithin lo' sections hi := by
  cases sections with
  | nil => exact hle.trans h
  | cons s rest => exact ⟨hle.trans h.1, h.2⟩

/-- The records of an image, from an address in front of it to its end. -/
structure ImageRecords (attr : UInt64) (image : ImageRecord) (p : Nat) (b : MapBuffer) (k : Int)
    (result : MapBuffer × Nat) (ds : List EfiMemoryDescriptor) : Prop where
  wrote : Wrote b k ds result.1
  count : result.2 = ds.length
  tiles : Tiles (splitLabel attr (inSections image.codeSegmentList)) p ds
    (image.imageBase + image.imageSize)
  last :
    sectionsEnd p image.codeSegmentList < image.imageBase + image.imageSize ∧
        ds.length = 2 * image.codeSegmentCount + 1 ∧ LastIs efiRuntimeServicesData ds ∨
      sectionsEnd p image.codeSegmentList = image.imageBase + image.imageSize ∧
        ds.length = 2 * image.codeSegmentCount ∧ LastIs efiRuntimeServicesCode ds

/-- `SetNewRecord` on an image with data in front of each code section. -/
theorem setNewRecord_spec
    (himage : RecordOk image)
    (hgapped : SectionsGapped p image.codeSegmentList)
    (hp : p ≤ image.imageBase)
    (haligned : Aligned p)
    (hend : image.imageBase + image.imageSize ≤ stop)
    (hfits : stop < 2 ^ 64)
    (hstart : oldRecord.physicalStart = p)
    (hstop : oldRecord.physicalEnd = stop)
    (hattr : oldRecord.attr = attr) :
    ∃ ds, ImageRecords attr image p b k (setNewRecord image b k oldRecord) ds := by
  have hwithin := himage.sections.mono hp
  obtain ⟨ds, hds⟩ := @setNewRecordLoop_spec attr p _ stop image.codeSegmentList
    ⟨b, k, 0, oldRecord.physicalStart⟩ hwithin hgapped haligned hend hfits hstart
  have hlen := hds.length
  rw [← himage.count] at hlen
  have hrecord : setNewRecord image b k oldRecord =
      (let st := setNewRecordLoop attr stop image.codeSegmentList
        ⟨b, k, 0, oldRecord.physicalStart⟩
      if st.physicalStart < image.imageEnd then
        (st.buffer.write st.newRecord (dataRecord attr st.physicalStart image.imageEnd),
          st.newRecordCount + 1)
      else (st.buffer, st.newRecordCount)) := by
    rw [setNewRecord, hstop, hattr]
  have hle := hwithin.sectionsEnd_le
  rw [hrecord]
  simp only [hds.physicalStart, himage.imageEnd_eq, hds.newRecord, hds.newRecordCount]
  split
  case isTrue hlt =>
    refine ⟨ds ++ [dataRecord attr (sectionsEnd p image.codeSegmentList)
      (image.imageBase + image.imageSize)], hds.wrote.snoc _, ?_, hds.tiles.append ?_, ?_⟩
    · simp only [length_append, length_singleton]
      omega
    · refine dataRecord_tiles (hwithin.sectionsEnd_aligned haligned)
        (himage.aligned.add himage.alignedSize) hlt (by omega) fun x hx _ => ?_
      simp only [splitLabel, hwithin.inSections_behind hx, Bool.false_eq_true, if_false]
    · refine Or.inl ⟨hlt, ?_, ds, _, rfl, rfl⟩
      simp only [length_append, length_singleton, hlen]
  case isFalse hge =>
    have heq : sectionsEnd p image.codeSegmentList = image.imageBase + image.imageSize := by
      omega
    refine ⟨ds, hds.wrote, by simp, heq ▸ hds.tiles, ?_⟩
    exact Or.inr ⟨heq, hlen, hds.code himage.nonempty⟩

/-- What the loop of `SplitRecord` has done when it stands at an address with images to
come: the records written show the code sections on data, and those to come fit in, one
less if the last image has no data behind its code. -/
structure Splitting (records : List ImageRecord) (attr : UInt64) (lo stop p : Nat)
    (b : MapBuffer) (k : Int) (images : List ImageRecord) (total : Nat)
    (st : SplitState) (done : List EfiMemoryDescriptor) : Prop where
  wrote : Wrote b k done st.buffer
  newRecord : st.newRecord = k + done.length
  totalNewRecordCount : st.totalNewRecordCount = done.length
  start : st.tempRecord.physicalStart = p
  pages : st.tempRecord.numberOfPages = efiSizeToPages (sub64 stop p)
  attr_eq : st.tempRecord.attr = attr
  tiles : Tiles (splitLabel attr (inCode records)) lo done p
  hasImage : done ≠ [] → st.hasImage = true
  count :
    done.length + splitCount images = total ∧ (done = [] ∨ LastIs efiRuntimeServicesData done) ∨
      images = [] ∧ done.length + 1 = total ∧ p < stop ∧ LastIs efiRuntimeServicesCode done

theorem tiles_extendLast
    {f : Nat → Option MemoryLabel} {mid hi : Nat} {front : List EfiMemoryDescriptor}
    {d e : EfiMemoryDescriptor}
    (h : Tiles f lo (front ++ [d]) mid)
    (hstart : e.physicalStart = d.physicalStart)
    (htype : e.type = d.type)
    (hattr : e.attr = d.attr)
    (hend : Cell.last e + 1 = hi)
    (hle : mid ≤ hi)
    (hf : ∀ x, mid ≤ x → x < hi → f x = some (d.type, d.attr)) :
    Tiles f lo (front ++ [e]) hi := by
  obtain ⟨start, hfront, hlast⟩ := tiles_append.mp h
  obtain ⟨hfirst, hcell, hshow, hmid⟩ := tiles_singleton.mp hlast
  refine hfront.append (tiles_singleton.mpr ⟨hstart.trans hfirst, ?_, fun x hx hx' => ?_, hend⟩)
  · have hfirst' : Cell.first e = Cell.first d := hstart
    omega
  · have hlabel : Cell.label e = (d.type, d.attr) := by
      simp only [Cell.label, htype, hattr]
    rw [hlabel]
    rcases Nat.lt_or_ge x mid with hlt | hge
    · have hfirst' : Cell.first e = Cell.first d := hstart
      exact hshow x (by omega) (by omega)
    · exact hf x hge (by omega)

theorem codeType_ne_dataType : efiRuntimeServicesCode ≠ efiRuntimeServicesData := by
  decide

theorem attr_of_dataType
    {d : EfiMemoryDescriptor} {x : Nat} {code : Nat → Bool}
    (h : splitLabel attr code x = some (Cell.label d))
    (htype : d.type = efiRuntimeServicesData) :
    (d.type, d.attr) = dataLabel attr := by
  rw [splitLabel, Option.some_inj] at h
  split at h
  · have hcode : efiRuntimeServicesCode = d.type := congrArg Prod.fst h
    exact absurd (hcode.trans htype) codeType_ne_dataType
  · exact h.symm

/-- The rest of the descriptor behind its last image becomes data. -/
theorem Splitting.trailing
    {total : Nat} {st : SplitState}
    (h : Splitting records attr lo stop p b k [] total st done)
    (hdone : done ≠ [])
    (hp : p ≤ stop)
    (haligned : Aligned p)
    (halignedStop : Aligned stop)
    (hfits : stop < 2 ^ 64)
    (hcode : ∀ x, p ≤ x → x < stop → inCode records x = false) :
    ∃ ds, Wrote b k ds (splitTrailing stop st).buffer ∧
      (splitTrailing stop st).totalNewRecordCount = ds.length ∧ ds.length = total ∧
        Tiles (splitLabel attr (inCode records)) lo ds stop := by
  have hdata : ∀ x, p ≤ x → x < stop →
      splitLabel attr (inCode records) x = some (dataLabel attr) := by
    intro x hx hx'
    simp only [splitLabel, hcode x hx hx', Bool.false_eq_true, if_false]
  rcases Nat.lt_or_eq_of_le hp with hlt | heq
  · have hgo : stop > st.tempRecord.physicalStart ∧ st.hasImage = true :=
      ⟨h.start ▸ hlt, h.hasImage hdone⟩
    rw [splitTrailing, if_pos hgo]
    rcases h.count with ⟨hcount, hlast⟩ | ⟨-, hcount, -, hlast⟩
    · obtain ⟨front, d, hfront, htype⟩ := hlast.resolve_left hdone
      have hat : st.newRecord - 1 = k + front.length := by
        rw [h.newRecord, hfront]
        simp only [length_append, length_singleton]
        omega
      have hwrote := h.wrote
      have htiles := h.tiles
      rw [hfront] at hwrote htiles
      obtain ⟨start, _, hcell⟩ := tiles_append.mp htiles
      obtain ⟨_, hle, hshow, hmid⟩ := tiles_singleton.mp hcell
      have hlabel := attr_of_dataType (hshow _ le_rfl hle) htype
      have hends : d.physicalStart + d.numberOfPages * efiPageSize = p := by
        have hmid' : d.physicalStart + d.numberOfPages * efiPageSize - 1 + 1 = p := hmid
        simp only [Aligned, efiPageSize_eq] at haligned hmid' ⊢
        omega
      have hstartAligned : Aligned d.physicalStart := by
        simp only [Aligned, efiPageSize_eq] at haligned hends ⊢
        omega
      have hpages := pages_between hstartAligned halignedStop (by omega) hfits
      rw [hat, hwrote.last, if_pos htype]
      refine ⟨front ++ [{ d with
        numberOfPages := efiSizeToPages (sub64 stop d.physicalStart) }],
        hwrote.rewriteLast _, ?_, ?_, tiles_extendLast htiles rfl rfl rfl ?_ hp ?_⟩
      · rw [h.totalNewRecordCount, hfront]
        simp only [length_append, length_singleton]
      · have hlen : done.length = total := hcount
        rw [← hlen, hfront]
        simp only [length_append, length_singleton]
      · simp only [Cell.last, hpages]
        omega
      · intro x hx hx'
        rw [hlabel]
        exact hdata x hx hx'
    · obtain ⟨front, d, hfront, htype⟩ := hlast
      have hat : st.newRecord - 1 = k + front.length := by
        rw [h.newRecord, hfront]
        simp only [length_append, length_singleton]
        omega
      have hwrote := h.wrote
      rw [hfront] at hwrote
      have hnot : d.type ≠ efiRuntimeServicesData := htype ▸ codeType_ne_dataType
      rw [hat, hwrote.last, if_neg hnot]
      have hrecord : ({ type := efiRuntimeServicesData
                        physicalStart := st.tempRecord.physicalStart
                        virtualStart := 0
                        numberOfPages := st.tempRecord.numberOfPages
                        attr := st.tempRecord.attr ||| efiMemoryXp } : EfiMemoryDescriptor) =
          dataRecord attr p stop := by
        rw [h.start, h.pages, h.attr_eq]
        rfl
      rw [hrecord, h.newRecord]
      refine ⟨done ++ [dataRecord attr p stop], h.wrote.snoc _, ?_, ?_, h.tiles.append ?_⟩
      · simp only [length_append, length_singleton, h.totalNewRecordCount]
      · simp only [length_append, length_singleton, hcount]
      · exact dataRecord_tiles haligned halignedStop hlt hfits hdata
  · have hstay : ¬(stop > st.tempRecord.physicalStart ∧ st.hasImage = true) := by
      rw [h.start]
      omega
    rw [splitTrailing, if_neg hstay]
    rcases h.count with ⟨hcount, -⟩ | ⟨-, -, hlt, -⟩
    · exact ⟨done, h.wrote, h.totalNewRecordCount, hcount, heq ▸ h.tiles⟩
    · omega

/-- The state behind an image. -/
def SplitState.next (stop : Nat) (image : ImageRecord) (st : SplitState) : SplitState :=
  let result := setNewRecord image st.buffer st.newRecord st.tempRecord
  { buffer := result.1
    newRecord := st.newRecord + result.2
    totalNewRecordCount := st.totalNewRecordCount + result.2
    tempRecord := { st.tempRecord with
      physicalStart := image.imageEnd
      numberOfPages := efiSizeToPages (sub64 stop image.imageEnd) }
    hasImage := true }

/-- A turn of the loop of `SplitRecord`. -/
theorem Splitting.next
    (hrecords : RecordsOk records)
    (himages : imagesIn records p stop = image :: rest)
    (hclean : Clean records p)
    (hcleanStop : Clean records stop)
    {total : Nat} {st : SplitState} {done : List EfiMemoryDescriptor}
    (h : Splitting records attr lo stop p b k (image :: rest) total st done)
    (hgapped : ImagesGapped stop p (image :: rest))
    (hp : p ≤ stop)
    (haligned : Aligned p)
    (halignedStop : Aligned stop)
    (hfits : stop < 2 ^ 64) :
    ∃ done', done' ≠ [] ∧ Splitting records attr lo stop (image.imageBase + image.imageSize) b k
      rest total (st.next stop image) done' := by
  obtain ⟨himage, hbase, hend, -⟩ := imagesIn_cons hrecords himages
  have hok := hrecords.each image himage
  obtain ⟨hsections, hlast, -⟩ := hgapped
  have hstop : st.tempRecord.physicalEnd = stop := by
    have hpages := pages_between haligned halignedStop hp hfits
    rw [EfiMemoryDescriptor.physicalEnd, h.start, h.pages, efiPagesToSize, hpages, add64]
    omega
  obtain ⟨ds, hds⟩ := @setNewRecord_spec image attr stop p st.buffer st.newRecord
    st.tempRecord hok hsections hbase haligned hend hfits h.start hstop h.attr_eq
  have hne : ds ≠ [] := by
    intro hnil
    rcases hds.last with ⟨-, -, front, d, hfront, -⟩ | ⟨-, -, front, d, hfront, -⟩
    · exact absurd (hnil ▸ hfront) (by simp)
    · exact absurd (hnil ▸ hfront) (by simp)
  refine ⟨done ++ ds, by simp [hne], ?_⟩
  constructor
  · refine h.wrote.append ?_
    rw [← h.newRecord]
    exact hds.wrote
  · have hrecord := h.newRecord
    simp only [SplitState.next, hds.count, length_append]
    omega
  · simp only [SplitState.next, h.totalNewRecordCount, hds.count, length_append]
  · exact hok.imageEnd_eq
  · simp only [SplitState.next, hok.imageEnd_eq]
  · exact h.attr_eq
  · refine h.tiles.append (hds.tiles.congr fun x hx hx' => ?_)
    rw [splitLabel, splitLabel,
      inCode_eq_of_first hrecords himages hclean hcleanStop hx hx']
  · exact fun _ => rfl
  · have hcount : splitCount (image :: rest) =
        2 * image.codeSegmentCount + 1 + splitCount rest := rfl
    rcases h.count with ⟨htotal, -⟩ | ⟨hnil, -⟩
    · rcases hds.last with ⟨-, hlen, hdata⟩ | ⟨heq, hlen, hcode⟩
      · refine Or.inl ⟨?_, Or.inr hdata.append⟩
        rw [length_append]
        omega
      · -- no data behind the code of this image: it is the last one, and data follows
        rw [heq] at hlast
        split at hlast
        case isTrue hnil =>
          refine Or.inr ⟨hnil, ?_, hlast, hcode.append⟩
          rw [hcount, hnil] at htotal
          rw [length_append, hlen]
          exact htotal ▸ by simp only [splitCount, map_nil, sum_nil]; omega
        case isFalse => exact absurd hlast (lt_irrefl _)
    · exact absurd hnil (by simp)

/-- The loop of `SplitRecord` over the images of the range. -/
theorem splitRecordLoop_spec
    (hrecords : RecordsOk records)
    (hcleanStop : Clean records stop)
    (halignedStop : Aligned stop)
    (hfits : stop < 2 ^ 64)
    {total turns : Nat} {st : SplitState}
    (himages : imagesIn records p stop = images)
    (hclean : Clean records p)
    (h : Splitting records attr lo stop p b k images total st done)
    (hgapped : ImagesGapped stop p images)
    (hp : p ≤ stop)
    (haligned : Aligned p)
    (hsome : done ≠ [] ∨ images ≠ [])
    (hturns : images.length < turns) :
    ∃ st' ds, splitRecordLoop records stop turns st = some st' ∧ Wrote b k ds st'.buffer ∧
      st'.totalNewRecordCount = ds.length ∧ ds.length = total ∧
        Tiles (splitLabel attr (inCode records)) lo ds stop := by
  induction images generalizing p st done turns with
  | nil =>
      cases turns with
      | zero => exact absurd hturns (Nat.not_lt_zero _)
      | succ turns =>
          have hdone := hsome.resolve_right (fun hne => hne rfl)
          obtain ⟨ds, hwrote, hcount, htotal, htiles⟩ :=
            h.trailing hdone hp haligned halignedStop hfits
              fun x hx hx' => inCode_eq_false hrecords himages hclean hcleanStop hx hx'
          refine ⟨splitTrailing stop st, ds, ?_, hwrote, hcount, htotal, htiles⟩
          rw [splitRecordLoop]
          simp only [h.start, getImageRecordByAddress_eq hrecords hp hfits, himages,
            head?_nil]
  | cons image rest ih =>
      obtain ⟨himage, _, hend, hrest⟩ := imagesIn_cons hrecords himages
      have hok := hrecords.each image himage
      obtain ⟨done', hne, hnext⟩ := h.next hrecords himages hclean hcleanStop hgapped hp
        haligned halignedStop hfits
      cases turns with
      | zero => exact absurd hturns (Nat.not_lt_zero _)
      | succ turns =>
          have hturn : splitRecordLoop records stop (turns + 1) st =
              if image.imageEnd < stop then
                splitRecordLoop records stop turns (st.next stop image)
              else some (st.next stop image) := by
            rw [splitRecordLoop]
            simp only [h.start, getImageRecordByAddress_eq hrecords hp hfits, himages,
              head?_cons]
            rfl
          rw [hturn, hok.imageEnd_eq]
          split
          case isTrue hlt =>
            exact ih hrest (hrecords.clean_end himage) hnext hgapped.2.2 hend
              (hok.aligned.add hok.alignedSize) (Or.inl hne) (by simpa using hturns)
          case isFalse hge =>
            have heq : image.imageBase + image.imageSize = stop := by omega
            rw [heq] at hnext hrest
            have hnil : rest = [] := by
              cases rest with
              | nil => rfl
              | cons t rest =>
                  obtain ⟨ht, htbase, htend, -⟩ := imagesIn_cons hrecords hrest
                  have hpos := (hrecords.each t ht).size_pos
                  omega
            rcases hnext.count with ⟨hcount, -⟩ | ⟨-, -, hlt, -⟩
            · refine ⟨_, done', rfl, hnext.wrote, hnext.totalNewRecordCount, ?_, hnext.tiles⟩
              rw [hnil] at hcount
              exact hcount
            · exact absurd hlt (lt_irrefl _)

end SplitRecord

end PropertiesTable
end Udk
