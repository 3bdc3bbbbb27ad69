import Udk.PropertiesTable.SplitRecord

/-!
# Splitting the table

The loop of `SplitTable` fills the buffer from its end.  As long as the records of the
descriptors fit into the room that was computed in advance, each descriptor is split
behind those that are still to be processed, and the descriptors of the result stand at
the end of the buffer without gap.
-/

namespace Udk
namespace PropertiesTable

open Tiling List

/-- Where the pages of a descriptor end. -/
def EfiMemoryDescriptor.stop (d : EfiMemoryDescriptor) : Nat :=
  d.physicalStart + d.numberOfPages * efiPageSize

/-- A page aligned descriptor. -/
structure DescriptorOk (d : EfiMemoryDescriptor) : Prop where
  aligned : Aligned d.physicalStart
  pages : 0 < d.numberOfPages
  fits : d.stop ≤ 2 ^ 64

/-- The recorded images that lie in a descriptor. -/
def EfiMemoryDescriptor.images (records : List ImageRecord) (d : EfiMemoryDescriptor) :
    List ImageRecord :=
  imagesIn records d.physicalStart d.stop

/-- The new records that a descriptor takes. -/
def newRecordCount (records : List ImageRecord) (d : EfiMemoryDescriptor) : Nat :=
  splitCount (d.images records) - 1

/-- A descriptor that can be split: no image reaches over its bounds, and if there is one,
each code section has data in front of it, each image data behind its last section, and
the descriptor ends below the end of the address space. -/
structure Splittable (records : List ImageRecord) (d : EfiMemoryDescriptor) : Prop where
  ok : DescriptorOk d
  start : Clean records d.physicalStart
  stop : Clean records d.stop
  gapped : ImagesGapped d.stop d.physicalStart (d.images records)
  below : d.images records ≠ [] → d.stop < 2 ^ 64

/-- What the records of a descriptor show. -/
def mapLabel (records : List ImageRecord) (d : EfiMemoryDescriptor) (x : Nat) :
    Option MemoryLabel :=
  if d.images records = [] then some (d.type, d.attr)
  else splitLabel d.attr (inCode records) x

section Turn

variable {records : List ImageRecord} {d : EfiMemoryDescriptor} {b b' : MapBuffer} {k : Int}
  {turns : Nat}

theorem DescriptorOk.alignedStop
    (h : DescriptorOk d) :
    Aligned d.stop :=
  h.aligned.add (aligned_pages _)

theorem DescriptorOk.start_lt
    (h : DescriptorOk d) :
    d.physicalStart < d.stop := by
  have := h.pages
  rw [EfiMemoryDescriptor.stop, efiPageSize_eq]
  omega

theorem DescriptorOk.tiles
    {f : Nat → Option MemoryLabel}
    (h : DescriptorOk d)
    (hf : ∀ x, f x = some (d.type, d.attr)) :
    Tiles f d.physicalStart [d] d.stop := by
  have hlt := h.start_lt
  have hlast : Cell.last d = d.stop - 1 := rfl
  have hfirst : Cell.first d = d.physicalStart := rfl
  exact tiles_singleton.mpr ⟨hfirst, by omega, fun x _ _ => hf x, by omega⟩

theorem DescriptorOk.physicalEnd_eq
    (h : DescriptorOk d) :
    d.physicalEnd = d.stop % 2 ^ 64 := by
  have hfits := h.fits
  simp only [EfiMemoryDescriptor.stop, efiPageSize_eq] at hfits
  simp only [EfiMemoryDescriptor.physicalEnd, add64, efiPagesToSize, EfiMemoryDescriptor.stop,
    efiPageSize_eq]
  omega

theorem getImageRecordByAddress_none
    (hrecords : RecordsOk records)
    (h : DescriptorOk d)
    (himages : d.images records = []) :
    getImageRecordByAddress records d.physicalStart (sub64 d.physicalEnd d.physicalStart) =
      none := by
  have hlt := h.start_lt
  rcases Nat.lt_or_eq_of_le h.fits with hfits | hfits
  · rw [h.physicalEnd_eq, Nat.mod_eq_of_lt hfits,
      getImageRecordByAddress_eq hrecords hlt.le hfits]
    rw [EfiMemoryDescriptor.images] at himages
    rw [himages]
    rfl
  · rw [getImageRecordByAddress, find?_eq_none]
    intro r hr
    have hok := hrecords.each r hr
    have hpos := hok.size_pos
    have hzero : add64 d.physicalStart (sub64 d.physicalEnd d.physicalStart) = 0 := by
      rw [h.physicalEnd_eq, hfits]
      simp only [add64, sub64]
      omega
    rw [hzero, hok.imageEnd_eq]
    simp only [Bool.and_eq_true, decide_eq_true_eq]
    omega

theorem getMaxSplitRecordCount_spec
    (hrecords : RecordsOk records)
    (h : Splittable records d)
    (hturns : records.length < turns) :
    getMaxSplitRecordCount turns records d = some (newRecordCount records d) := by
  by_cases himages : d.images records = []
  · cases turns with
    | zero => exact absurd hturns (Nat.not_lt_zero _)
    | succ turns =>
        rw [getMaxSplitRecordCount, maxSplitLoop]
        simp only [getImageRecordByAddress_none hrecords h.ok himages, newRecordCount, himages]
        rfl
  · have hbelow := h.below himages
    have hlen : (d.images records).length < turns :=
      (length_filter_le _ _).trans_lt hturns
    have hloop := @maxSplitLoop_spec records (d.images records) d.physicalStart d.stop hrecords
      turns 0 rfl h.ok.start_lt.le hbelow hlen
    rw [getMaxSplitRecordCount, h.ok.physicalEnd_eq, Nat.mod_eq_of_lt hbelow, hloop]
    simp only [Option.map_some, newRecordCount, Nat.zero_add]
    by_cases hzero : splitCount (d.images records) = 0
    · rw [if_neg (fun hne => hne hzero), hzero]
    · rw [if_pos hzero]

theorem newRecordCount_pos
    (hrecords : RecordsOk records)
    (himages : d.images records ≠ []) :
    newRecordCount records d + 1 = splitCount (d.images records) ∧
      newRecordCount records d ≠ 0 := by
  cases hl : d.images records with
  | nil => exact absurd hl himages
  | cons image rest =>
      obtain ⟨himage, -⟩ := imagesIn_cons hrecords hl
      have hok := hrecords.each image himage
      have hlen := length_pos_of_ne_nil hok.nonempty
      have hcount : splitCount (image :: rest) =
          2 * image.codeSegmentCount + 1 + splitCount rest := rfl
      have := hok.count
      rw [newRecordCount, hl, hcount]
      omega

theorem DescriptorOk.pages_eq
    (h : DescriptorOk d)
    (hfits : d.stop < 2 ^ 64) :
    d.numberOfPages = efiSizeToPages (sub64 d.stop d.physicalStart) := by
  have hpages := pages_between h.aligned h.alignedStop h.start_lt.le hfits
  rw [EfiMemoryDescriptor.stop, efiPageSize_eq] at hpages ⊢
  omega

/-- `SplitRecord` writes the records of the descriptor one behind the other. -/
theorem splitRecord_spec
    (hrecords : RecordsOk records)
    {oldRecord : Int}
    (hd : b.slots oldRecord = d)
    (h : Splittable records d)
    (hturns : records.length < turns) :
    ∃ b' ds, splitRecord turns records b oldRecord k (newRecordCount records d) =
        some (b', newRecordCount records d) ∧
      Wrote b k ds b' ∧ ds.length = newRecordCount records d + 1 ∧
        Tiles (mapLabel records d) d.physicalStart ds d.stop := by
  by_cases himages : d.images records = []
  · have hcount : newRecordCount records d = 0 := by
      rw [newRecordCount, himages]
      rfl
    have hwrote := (Wrote.refl b k).snoc d
    simp only [nil_append, length_nil, Nat.cast_zero, add_zero] at hwrote
    refine ⟨b.write k d, [d], ?_, hwrote, by rw [hcount]; rfl, ?_⟩
    · rw [hcount, splitRecord, if_pos rfl, hd]
    · exact h.ok.tiles fun x => by rw [mapLabel, if_pos himages]
  · have hbelow := h.below himages
    obtain ⟨htotal, hne⟩ := newRecordCount_pos hrecords himages
    have hlen : (d.images records).length < turns :=
      (length_filter_le _ _).trans_lt hturns
    have hstart : Splitting records d.attr d.physicalStart d.stop d.physicalStart b k
        (d.images records) (splitCount (d.images records)) ⟨b, k, 0, d, false⟩ [] :=
      { wrote := Wrote.refl b k
        newRecord := by simp
        totalNewRecordCount := rfl
        start := rfl
        pages := h.ok.pages_eq hbelow
        attr_eq := rfl
        tiles := rfl
        hasImage := fun hnil => absurd rfl hnil
        count := Or.inl ⟨by simp, Or.inl rfl⟩ }
    obtain ⟨st, ds, hloop, hwrote, hcount, hds, htiles⟩ :=
      splitRecordLoop_spec hrecords h.stop h.ok.alignedStop hbelow rfl h.start hstart h.gapped
        h.ok.start_lt.le h.ok.aligned (Or.inr himages) hlen
    refine ⟨st.buffer, ds, ?_, hwrote, by omega, ?_⟩
    · rw [splitRecord, if_neg hne]
      simp only [hd, h.ok.physicalEnd_eq, Nat.mod_eq_of_lt hbelow, hloop, Option.map_some]
      congr 2
      omega
    · refine htiles.congr fun x _ _ => ?_
      rw [mapLabel, if_neg himages]

theorem Wrote.copyMem_self
    {ds : List EfiMemoryDescriptor} {n : Nat}
    (h : Wrote b k ds b')
    (hn : n ≤ ds.length) :
    Wrote b k ds (b'.copyMem k k n) := by
  have hslots : (b'.copyMem k k n).slots = b'.slots := by
    funext i
    simp only [MapBuffer.copyMem]
    split
    · congr 1
      omega
    · rfl
  constructor
  · rw [hslots]
    exact h.contents
  · rw [hslots]
    exact h.frame
  · intro w hw
    simp only [MapBuffer.copyMem, mem_append, mem_map, List.mem_range] at hw
    rcases hw with ⟨i, hi, rfl⟩ | hw
    · exact Or.inr ⟨h.indexOld, by simp only; omega, by simp only; omega⟩
    · exact h.writes w hw
  · exact h.indexOld

theorem splitTableTurn_spec
    (hrecords : RecordsOk records)
    {i : Nat} {st : SplitTableState}
    (hd : st.buffer.slots i = d)
    (h : Splittable records d)
    (hturns : records.length < turns) :
    ∃ b' ds, splitTableTurn turns records i st =
        some ⟨b', st.indexNew - newRecordCount records d - 1,
          st.totalSplitRecordCount + newRecordCount records d⟩ ∧
      Wrote { st.buffer with indexOld := i } (st.indexNew - newRecordCount records d) ds b' ∧
      ds.length = newRecordCount records d + 1 ∧
        Tiles (mapLabel records d) d.physicalStart ds d.stop := by
  obtain ⟨b', ds, hsplit, hwrote, hlen, htiles⟩ :=
    @splitRecord_spec records d { st.buffer with indexOld := i }
      (st.indexNew - newRecordCount records d) turns hrecords i hd h hturns
  refine ⟨b'.copyMem (st.indexNew - newRecordCount records d)
    (st.indexNew - newRecordCount records d) (newRecordCount records d), ds, ?_,
    hwrote.copyMem_self (by omega), hlen, htiles⟩
  rw [splitTableTurn]
  simp only [hd, getMaxSplitRecordCount_spec hrecords h hturns, Option.bind_some, hsplit,
    Option.map_some, sub_add_cancel]

end Turn

section Loop

variable {records : List ImageRecord} {map : List EfiMemoryDescriptor} {additional turns i : Nat}
  {st : SplitTableState} {parts : List (List EfiMemoryDescriptor)}

/-- The new records that a list of descriptors takes. -/
def newRecordCounts (records : List ImageRecord) (map : List EfiMemoryDescriptor) : Nat :=
  (map.map (newRecordCount records)).sum

/-- A write within a buffer of so many descriptors that spares those still to be
processed. -/
def SlotWrite.Inside (capacity : Nat) (w : SlotWrite) : Prop :=
  0 ≤ w.indexOld ∧ w.indexOld ≤ w.index ∧ w.index < capacity

/-- What the loop of `SplitTable` has done when the descriptors below an index are still to
be processed. -/
structure TableSplit (records : List ImageRecord) (map : List EfiMemoryDescriptor)
    (additional i : Nat) (st : SplitTableState) (parts : List (List EfiMemoryDescriptor)) :
    Prop where
  pending : ∀ j d, j < i → map[j]? = some d → st.buffer.slots j = d
  tiles : List.Forall₂
    (fun d ds => Tiles (mapLabel records d) d.physicalStart ds d.stop) (map.drop i) parts
  contents : ∀ (j : Nat) d, parts.flatten[j]? = some d →
    st.buffer.slots (st.indexNew + 1 + j) = d
  indexNew : st.indexNew + 1 + parts.flatten.length = map.length + additional
  length : parts.flatten.length + i = map.length + st.totalSplitRecordCount
  room : newRecordCounts records (map.take i) + st.totalSplitRecordCount ≤ additional
  writes : ∀ w ∈ st.buffer.writes, w.Inside (map.length + additional)
  indexOld : st.buffer.indexOld = i

/-- A turn splits the last descriptor that is still to be processed. -/
theorem TableSplit.turn
    (hrecords : RecordsOk records)
    (hmap : ∀ d ∈ map, Splittable records d)
    (hturns : records.length < turns)
    (hi : i < map.length)
    (h : TableSplit records map additional (i + 1) st parts) :
    ∃ st' parts', splitTableTurn turns records i st = some st' ∧
      TableSplit records map additional i st' parts' := by
  have hget : map[i]? = some map[i] := getElem?_eq_getElem hi
  have hd := h.pending i map[i] (Nat.lt_succ_self i) hget
  have hsplittable := hmap map[i] (getElem_mem hi)
  obtain ⟨b', ds, hturn, hwrote, hlen, htiles⟩ :=
    splitTableTurn_spec hrecords hd hsplittable hturns
  have htake : newRecordCounts records (map.take (i + 1)) =
      newRecordCounts records (map.take i) + newRecordCount records map[i] := by
    simp only [newRecordCounts, ← take_concat_get' map i hi, map_append,
      sum_append, map_cons, map_nil, sum_singleton]
  have hroom := h.room
  have hindex := h.indexNew
  have hlength := h.length
  rw [htake] at hroom
  refine ⟨_, ds :: parts, hturn, ?_⟩
  constructor
  · intro j d hj hjd
    simp only
    rw [hwrote.frame j (Or.inl (by omega))]
    exact h.pending j d (by omega) hjd
  · rw [drop_eq_getElem_cons hi]
    exact List.Forall₂.cons htiles h.tiles
  · intro j d hj
    rw [flatten_cons] at hj
    simp only
    rcases Nat.lt_or_ge j ds.length with hlt | hge
    · rw [getElem?_append_left hlt] at hj
      rw [← hwrote.contents j d hj]
      congr 1
      omega
    · rw [getElem?_append_right hge] at hj
      rw [hwrote.frame _ (Or.inr (by omega)), ← h.contents _ d hj]
      simp only
      congr 1
      omega
  · rw [flatten_cons, length_append]
    simp only
    omega
  · rw [flatten_cons, length_append]
    simp only
    omega
  · simp only
    omega
  · intro w hw
    rcases hwrote.writes w hw with hw | ⟨hold, hle, hlt⟩
    · exact h.writes w hw
    · simp only at hold
      refine ⟨?_, ?_, ?_⟩
      · omega
      · omega
      · omega
  · exact hwrote.indexOld

theorem splitTableLoop_spec
    (hrecords : RecordsOk records)
    (hmap : ∀ d ∈ map, Splittable records d)
    (hturns : records.length < turns)
    (hi : i ≤ map.length)
    (h : TableSplit records map additional i st parts) :
    ∃ st' parts', splitTableLoop turns records i st = some st' ∧
      TableSplit records map additional 0 st' parts' := by
  induction i generalizing st parts with
  | zero => exact ⟨st, parts, rfl, h⟩
  | succ i ih =>
      obtain ⟨st', parts', hturn, hnext⟩ := h.turn hrecords hmap hturns hi
      rw [splitTableLoop, hturn]
      exact ih (Nat.le_of_succ_le hi) hnext

theorem MapBuffer.ofMap_slots
    {rest : Int → EfiMemoryDescriptor} {j : Nat} {d : EfiMemoryDescriptor}
    (h : map[j]? = some d) :
    (MapBuffer.ofMap map rest).slots j = d := by
  have hnonneg : (0 : Int) ≤ j := Int.natCast_nonneg j
  simp only [MapBuffer.ofMap, if_pos hnonneg, Int.toNat_natCast, h, Option.getD_some]

theorem tableSplit_start
    (rest : Int → EfiMemoryDescriptor)
    (hroom : newRecordCounts records map ≤ additional) :
    TableSplit records map additional map.length
      ⟨MapBuffer.ofMap map rest, (map.length : Int) - 1 + additional, 0⟩ [] where
  pending j d _ hj := MapBuffer.ofMap_slots hj
  tiles := by
    rw [drop_length]
    exact List.Forall₂.nil
  contents j d hj := by simp at hj
  indexNew := by
    simp only [flatten_nil, length_nil, Nat.cast_zero]
    omega
  length := by simp
  room := by
    rw [take_length]
    exact hroom
  writes w hw := absurd hw not_mem_nil
  indexOld := rfl

theorem TableSplit.moved
    (h : TableSplit records map additional 0 st parts) :
    (st.buffer.copyMem 0 ((additional : Int) - st.totalSplitRecordCount)
        (map.length + st.totalSplitRecordCount)).segment 0
        (map.length + st.totalSplitRecordCount) = parts.flatten := by
  have hlength := h.length
  have hindex := h.indexNew
  refine ext_getElem? fun i => ?_
  simp only [MapBuffer.segment, getElem?_map, MapBuffer.copyMem]
  rcases Nat.lt_or_ge i parts.flatten.length with hi | hi
  · have hin : (0 : Int) ≤ 0 + i ∧
        (0 : Int) + i < 0 + ((map.length + st.totalSplitRecordCount : Nat) : Int) := by
      omega
    rw [getElem?_range (by omega), Option.map_some, if_pos hin,
      getElem?_eq_getElem hi, Option.some_inj,
      ← h.contents i _ (getElem?_eq_getElem hi)]
    congr 1
    omega
  · rw [getElem?_eq_none (by simp only [length_range]; omega),
      getElem?_eq_none hi, Option.map_none]

theorem TableSplit.moved_writes
    (h : TableSplit records map additional 0 st parts) :
    ∀ w ∈ (st.buffer.copyMem 0 ((additional : Int) - st.totalSplitRecordCount)
        (map.length + st.totalSplitRecordCount)).writes, w.Inside (map.length + additional) := by
  have hroom := h.room
  intro w hw
  simp only [MapBuffer.copyMem, mem_append, mem_map, List.mem_range] at hw
  rcases hw with ⟨i, hi, rfl⟩ | hw
  · have hold := h.indexOld
    simp only [SlotWrite.Inside]
    omega
  · exact h.writes w hw

end Loop

end PropertiesTable
end Udk
