import Udk.PropertiesTable.SplitTable

/-!
# The memory map of the properties table

What `CoreGetMemoryMapPropertiesTable` returns on success: the same pages as before, in
order, with the code sections of the recorded images as read-only code on data that is not
executable.
-/

namespace Udk
namespace PropertiesTable

open Tiling List

/-- An address lies in a descriptor. -/
def EfiMemoryDescriptor.Holds (d : EfiMemoryDescriptor) (x : Nat) : Prop :=
  d.physicalStart ≤ x ∧ x < d.stop

/-- A memory map of disjoint page aligned descriptors, with each recorded image inside a
descriptor of runtime code. -/
structure MapOk (records : List ImageRecord) (map : List EfiMemoryDescriptor) : Prop where
  each : ∀ d ∈ map, DescriptorOk d
  disjoint : map.Pairwise (fun a b => a.stop ≤ b.physicalStart ∨ b.stop ≤ a.physicalStart)
  inside : ∀ r ∈ records, ∃ d ∈ map, d.type = efiRuntimeServicesCode ∧
    d.physicalStart ≤ r.imageBase ∧ r.imageBase + r.imageSize ≤ d.stop

/-- The records that the descriptors take fit into the room computed from the records, and
in each descriptor with images each code section has data in front of it, each image data
behind its last section, and the descriptor ends below the end of the address space. -/
structure SplitFits (data : PrivateData) (map : List EfiMemoryDescriptor) : Prop where
  room : newRecordCounts data.imageRecordList map ≤ additionalRecordCount data
  gapped : ∀ d ∈ map, ImagesGapped d.stop d.physicalStart (d.images data.imageRecordList)
  below : ∀ d ∈ map, d.images data.imageRecordList ≠ [] → d.stop < 2 ^ 64

/-- The memory map is split exactly. -/
structure SplitExact (records : List ImageRecord) (map out : List EfiMemoryDescriptor) :
    Prop where
  each : ∀ d ∈ out, DescriptorOk d
  sorted : out.Pairwise (fun a b => a.stop ≤ b.physicalStart)
  covers : ∀ x, (∃ d ∈ out, d.Holds x) ↔ ∃ m ∈ map, m.Holds x
  code : ∀ d ∈ out, ∀ x, d.Holds x → inCode records x = true →
    d.type = efiRuntimeServicesCode ∧ d.attr &&& efiMemoryRo = efiMemoryRo ∧
      d.attr &&& efiMemoryXp = 0
  data : ∀ m ∈ map, m.images records ≠ [] → ∀ d ∈ out, ∀ x, m.Holds x → d.Holds x →
    inCode records x = false →
      d.type = efiRuntimeServicesData ∧ d.attr &&& efiMemoryXp = efiMemoryXp
  others : ∀ m ∈ map, m.images records = [] → ∀ d ∈ out, ∀ x, m.Holds x → d.Holds x →
    d.type = m.type

/-- Every write stays inside the buffer and spares the descriptors still to be
processed. -/
def WritesInside (memoryMapSize descriptorSize : Nat) (b : MapBuffer) : Prop :=
  ∀ w ∈ b.writes, 0 ≤ w.indexOld ∧ w.indexOld ≤ w.index ∧
    (w.index + 1) * descriptorSize ≤ memoryMapSize

section View

variable {records : List ImageRecord} {map l : List EfiMemoryDescriptor}
  {parts : List (List EfiMemoryDescriptor)} {d m : EfiMemoryDescriptor} {x lo hi : Nat}

/-- What the split memory map shows. -/
def mapView (records : List ImageRecord) (map : List EfiMemoryDescriptor) (x : Nat) :
    Option MemoryLabel :=
  (map.find? fun d => decide (d.physicalStart ≤ x) && decide (x < d.stop)).bind
    fun d => mapLabel records d x

theorem mapView_cons :
    mapView records (d :: map) x =
      if d.physicalStart ≤ x ∧ x < d.stop then mapLabel records d x else mapView records map x := by
  simp only [mapView, find?_cons]
  by_cases h : d.physicalStart ≤ x ∧ x < d.stop
  · rw [if_pos h, decide_eq_true h.1, decide_eq_true h.2]
    rfl
  · rw [if_neg h]
    have hfalse : (decide (d.physicalStart ≤ x) && decide (x < d.stop)) = false := by
      rw [← Bool.decide_and]
      exact decide_eq_false h
    rw [hfalse]

theorem mapView_eq_none
    (h : ∀ d ∈ map, ¬d.Holds x) :
    mapView records map x = none := by
  induction map with
  | nil => rfl
  | cons d map ih =>
      have hd : ¬(d.physicalStart ≤ x ∧ x < d.stop) := h d mem_cons_self
      rw [mapView_cons, if_neg hd]
      exact ih fun e he => h e (mem_cons_of_mem _ he)

theorem mapView_eq
    (hdisjoint : map.Pairwise
      (fun a b => a.stop ≤ b.physicalStart ∨ b.stop ≤ a.physicalStart))
    (hm : m ∈ map)
    (hx : m.Holds x) :
    mapView records map x = mapLabel records m x := by
  induction map with
  | nil => exact absurd hm not_mem_nil
  | cons d map ih =>
      obtain ⟨hd, hrest⟩ := pairwise_cons.mp hdisjoint
      rw [mapView_cons]
      rcases mem_cons.mp hm with rfl | hm
      · exact if_pos hx
      · have hnot : ¬(d.physicalStart ≤ x ∧ x < d.stop) := by
          have hapart := hd m hm
          have hlo := hx.1
          have hhi := hx.2
          omega
        rw [if_neg hnot]
        exact ih hrest hm

/-- The cells of a tiling of aligned bounds are page aligned and not empty. -/
theorem partition_aligned
    (h : Partition lo l hi)
    (hlo : Aligned lo)
    (hhi : Aligned hi) :
    ∀ e ∈ l, Aligned e.physicalStart ∧ 0 < e.numberOfPages := by
  -- a cell without pages would leave the rest off the page boundaries
  have hoff : ∀ (l : List EfiMemoryDescriptor) (lo : Nat), Partition lo l hi → lo % 4096 = 1 →
      False := by
    intro l
    induction l with
    | nil =>
        intro lo h hmod
        have heq : lo = hi := h
        simp only [Aligned, efiPageSize_eq] at hhi
        omega
    | cons e es ih =>
        intro lo h hmod
        obtain ⟨hfirst, hle, hrest⟩ := h
        refine ih _ hrest ?_
        simp only [Cell.first, Cell.last, efiPageSize_eq] at hfirst hle ⊢
        omega
  induction l generalizing lo with
  | nil => exact fun e he => absurd he not_mem_nil
  | cons c cs ih =>
      obtain ⟨hfirst, hle, hrest⟩ := h
      have hstart : c.physicalStart = lo := hfirst
      have hpages : 0 < c.numberOfPages := by
        by_contra hzero
        refine hoff cs _ hrest ?_
        simp only [Aligned, efiPageSize_eq] at hlo
        simp only [Cell.first, Cell.last, efiPageSize_eq] at hle ⊢
        omega
      have hnext : Aligned (Cell.last c + 1) := by
        simp only [Aligned, efiPageSize_eq] at hlo
        simp only [Cell.last, Aligned, efiPageSize_eq]
        omega
      intro e he
      rcases mem_cons.mp he with rfl | he
      · exact ⟨hstart ▸ hlo, hpages⟩
      · exact ih hrest hnext e he

theorem tiles_descriptorOk
    {f : Nat → Option MemoryLabel}
    (h : Tiles f lo l hi)
    (hlo : Aligned lo)
    (hhi : Aligned hi)
    (hfits : hi ≤ 2 ^ 64) :
    ∀ e ∈ l, DescriptorOk e := by
  intro e he
  obtain ⟨haligned, hpages⟩ := partition_aligned h.partition hlo hhi e he
  have hlast := (h.mem_bounds he).2.2
  refine ⟨haligned, hpages, ?_⟩
  simp only [Cell.last] at hlast
  rw [EfiMemoryDescriptor.stop]
  omega

theorem parts_shows
    (hparts : List.Forall₂
      (fun d ds => Tiles (mapLabel records d) d.physicalStart ds d.stop) map parts)
    (heach : ∀ d ∈ map, DescriptorOk d)
    (hdisjoint : map.Pairwise
      (fun a b => a.stop ≤ b.physicalStart ∨ b.stop ≤ a.physicalStart)) :
    Shows (mapView records map) parts.flatten ∧ ∀ e ∈ parts.flatten, DescriptorOk e := by
  induction hparts with
  | nil => exact ⟨shows_nil, fun e he => absurd he not_mem_nil⟩
  | @cons d ds map parts htiles _ ih =>
      obtain ⟨hd, hrest⟩ := pairwise_cons.mp hdisjoint
      obtain ⟨hshows, hok⟩ := ih (fun e he => heach e (mem_cons_of_mem _ he)) hrest
      have hdok := heach d mem_cons_self
      have hview : mapView records (d :: map) = fun x =>
          if d.physicalStart ≤ x ∧ x < d.stop then mapLabel records d x
          else mapView records map x := funext fun x => mapView_cons
      rw [flatten_cons, hview]
      refine ⟨htiles.shows_append hshows fun x hx hx' => mapView_eq_none fun e he hin => ?_,
        fun e he => ?_⟩
      · have hapart := hd e he
        have hlo := hin.1
        have hhi := hin.2
        omega
      · rcases mem_append.mp he with he | he
        · exact tiles_descriptorOk htiles hdok.aligned hdok.alignedStop hdok.fits e he
        · exact hok e he

end View

section Enforce

variable {d : EfiMemoryDescriptor} {attr : UInt64}

/-- `EnforceMemoryMapAttribute` on a label. -/
def enforceLabel (label : MemoryLabel) : MemoryLabel :=
  if label.1 = efiRuntimeServicesData ∨ label.1 = efiMemoryMappedIo ∨
      label.1 = efiMemoryMappedIoPortSpace then (label.1, label.2 ||| efiMemoryXp)
  else label

theorem enforceAttribute_physicalStart :
    (enforceAttribute d).physicalStart = d.physicalStart := by
  rw [enforceAttribute]
  split <;> rfl

theorem enforceAttribute_numberOfPages :
    (enforceAttribute d).numberOfPages = d.numberOfPages := by
  rw [enforceAttribute]
  split <;> rfl

theorem enforceAttribute_stop :
    (enforceAttribute d).stop = d.stop := by
  rw [EfiMemoryDescriptor.stop, enforceAttribute_physicalStart, enforceAttribute_numberOfPages,
    EfiMemoryDescriptor.stop]

theorem enforceAttribute_label :
    Cell.label (enforceAttribute d) = enforceLabel (Cell.label d) := by
  simp only [enforceAttribute, enforceLabel, Cell.label]
  split <;> rfl

theorem enforceLabel_type (label : MemoryLabel) :
    (enforceLabel label).1 = label.1 := by
  rw [enforceLabel]
  split <;> rfl

theorem DescriptorOk.enforce
    (h : DescriptorOk d) :
    DescriptorOk (enforceAttribute d) where
  aligned := by
    rw [enforceAttribute_physicalStart]
    exact h.aligned
  pages := by
    rw [enforceAttribute_numberOfPages]
    exact h.pages
  fits := by
    rw [enforceAttribute_stop]
    exact h.fits

theorem enforceLabel_code :
    enforceLabel (codeLabel attr) = codeLabel attr := by
  have hnot : ¬(efiRuntimeServicesCode = efiRuntimeServicesData ∨
      efiRuntimeServicesCode = efiMemoryMappedIo ∨
      efiRuntimeServicesCode = efiMemoryMappedIoPortSpace) := by
    decide
  exact if_neg hnot

theorem or_and_self (a bit : UInt64) :
    (a ||| bit) &&& bit = bit := by
  refine UInt64.toBitVec_inj.mp (BitVec.eq_of_getLsbD_eq fun i _ => ?_)
  simp only [UInt64.toBitVec_and, UInt64.toBitVec_or, BitVec.getLsbD_and, BitVec.getLsbD_or]
  cases bit.toBitVec.getLsbD i <;> simp

theorem codeLabel_readOnly :
    (codeLabel attr).2 &&& efiMemoryRo = efiMemoryRo :=
  or_and_self _ _

theorem codeLabel_executable :
    (codeLabel attr).2 &&& efiMemoryXp = 0 := by
  have hbits : efiMemoryRo &&& efiMemoryXp = 0 := by decide
  refine UInt64.toBitVec_inj.mp (BitVec.eq_of_getLsbD_eq fun i hi => ?_)
  have hbit := congrArg (fun v : UInt64 => v.toBitVec.getLsbD i) hbits
  simp only [UInt64.toBitVec_and, BitVec.getLsbD_and] at hbit
  simp only [codeLabel, UInt64.toBitVec_and, UInt64.toBitVec_or, UInt64.toBitVec_not,
    BitVec.getLsbD_and, BitVec.getLsbD_or, BitVec.getLsbD_not]
  cases hxp : efiMemoryXp.toBitVec.getLsbD i with
  | false => simp
  | true =>
      rw [hxp] at hbit
      simpa [hi] using hbit

theorem enforceLabel_data :
    (enforceLabel (dataLabel attr)).2 &&& efiMemoryXp = efiMemoryXp := by
  have hlabel : enforceLabel (dataLabel attr) =
      (efiRuntimeServicesData, (attr ||| efiMemoryXp) ||| efiMemoryXp) := if_pos (Or.inl rfl)
  rw [hlabel]
  exact or_and_self _ _

end Enforce

section Merge

variable {l pre rest out : List EfiMemoryDescriptor} {e : EfiMemoryDescriptor}

/-- A list of descriptors in order that shows the same labels as another one. -/
structure Coarser (l out : List EfiMemoryDescriptor) : Prop where
  each : ∀ e ∈ out, DescriptorOk e
  from_ : ∀ e ∈ out, ∀ x, e.Holds x →
    ∃ d ∈ l, d.Holds x ∧ d.type = e.type ∧ d.attr = e.attr
  onto : ∀ d ∈ l, ∀ x, d.Holds x → ∃ e ∈ out, e.Holds x
  sorted : out.Pairwise (fun a b => a.stop ≤ b.physicalStart)

theorem DescriptorOk.holds_start
    {d : EfiMemoryDescriptor}
    (h : DescriptorOk d) :
    d.Holds d.physicalStart :=
  ⟨le_rfl, h.start_lt⟩

theorem Coarser.cons
    (h : Coarser rest out)
    (hok : DescriptorOk e)
    (hfrom : ∀ x, e.Holds x → ∃ d ∈ pre, d.Holds x ∧ d.type = e.type ∧ d.attr = e.attr)
    (honto : ∀ d ∈ pre, ∀ x, d.Holds x → e.Holds x)
    (hbefore : ∀ d ∈ rest, e.stop ≤ d.physicalStart) :
    Coarser (pre ++ rest) (e :: out) where
  each := forall_mem_cons.mpr ⟨hok, h.each⟩
  from_ c hc x hx := by
    rcases mem_cons.mp hc with rfl | hc
    · obtain ⟨d, hd, hmem⟩ := hfrom x hx
      exact ⟨d, mem_append_left _ hd, hmem⟩
    · obtain ⟨d, hd, hmem⟩ := h.from_ c hc x hx
      exact ⟨d, mem_append_right _ hd, hmem⟩
  onto d hd x hx := by
    rcases mem_append.mp hd with hd | hd
    · exact ⟨e, mem_cons_self, honto d hd x hx⟩
    · obtain ⟨c, hc, hmem⟩ := h.onto d hd x hx
      exact ⟨c, mem_cons_of_mem _ hc, hmem⟩
  sorted := by
    refine pairwise_cons.mpr ⟨fun c hc => ?_, h.sorted⟩
    obtain ⟨d, hd, hmem, -⟩ := h.from_ c hc _ (h.each c hc).holds_start
    exact (hbefore d hd).trans hmem.1

/-- `MergeMemoryMap` keeps what descriptors in order show. -/
theorem mergeMemoryMap_coarser
    (heach : ∀ d ∈ l, DescriptorOk d)
    (hsorted : l.Pairwise (fun a b => a.stop ≤ b.physicalStart)) :
    Coarser l (mergeMemoryMap l) := by
  induction l using mergeMemoryMap.induct with
  | case1 =>
      exact ⟨fun e he => absurd he not_mem_nil, fun e he => absurd he not_mem_nil,
        fun d hd => absurd hd not_mem_nil, List.Pairwise.nil⟩
  | case2 d =>
      exact ⟨heach, fun e he x hx => ⟨e, he, hx, rfl, rfl⟩, fun e he x hx => ⟨e, he, hx⟩,
        hsorted⟩
  | case3 d next rest hmerge ih =>
      obtain ⟨htype, hattr, hend⟩ := hmerge
      obtain ⟨hd, hnextRest⟩ := pairwise_cons.mp hsorted
      obtain ⟨hnext, hrest⟩ := pairwise_cons.mp hnextRest
      have hdok := heach d mem_cons_self
      have hnok := heach next (mem_cons_of_mem _ mem_cons_self)
      have hle := hd next mem_cons_self
      have hlt := hnok.start_lt
      have hfits := hnok.fits
      have hjoin : d.stop = next.physicalStart := by
        rw [hdok.physicalEnd_eq] at hend
        omega
      have hstop : EfiMemoryDescriptor.stop
          { d with numberOfPages := d.numberOfPages + next.numberOfPages } = next.stop := by
        rw [EfiMemoryDescriptor.stop, Nat.add_mul, ← Nat.add_assoc]
        exact congrArg (· + next.numberOfPages * efiPageSize) hjoin
      have hstart := hdok.start_lt
      rw [mergeMemoryMap, if_pos ⟨htype, hattr, hend⟩]
      change Coarser ([d, next] ++ rest) _
      refine Coarser.cons
        (ih (fun e he => heach e (mem_cons_of_mem _ (mem_cons_of_mem _ he))) hrest)
        ⟨hdok.aligned, Nat.add_pos_left hdok.pages _, hstop ▸ hfits⟩ ?_ ?_ ?_
      · intro x hx
        have hlo : d.physicalStart ≤ x := hx.1
        have hhi : x < next.stop := hstop ▸ hx.2
        rcases Nat.lt_or_ge x d.stop with hx' | hx'
        · exact ⟨d, mem_cons_self, ⟨hlo, hx'⟩, rfl, rfl⟩
        · exact ⟨next, mem_cons_of_mem _ mem_cons_self, ⟨hjoin ▸ hx', hhi⟩,
            htype.symm, hattr.symm⟩
      · intro c hc x hx
        have hlo := hx.1
        have hhi := hx.2
        have hgoal : d.physicalStart ≤ x ∧ x < next.stop := by
          rcases mem_cons.mp hc with rfl | hc
          · omega
          · rw [mem_singleton.mp hc] at hlo hhi
            omega
        exact ⟨hgoal.1, hstop.symm ▸ hgoal.2⟩
      · exact fun c hc => hstop ▸ hnext c hc
  | case4 d next rest hmerge ih =>
      obtain ⟨hd, hrest⟩ := pairwise_cons.mp hsorted
      rw [mergeMemoryMap, if_neg hmerge]
      change Coarser ([d] ++ next :: rest) _
      refine Coarser.cons
        (ih (fun e he => heach e (mem_cons_of_mem _ he)) hrest)
        (heach d mem_cons_self) ?_ ?_ hd
      · exact fun x hx => ⟨d, mem_cons_self, hx, rfl, rfl⟩
      · exact fun c hc x hx => mem_singleton.mp hc ▸ hx

end Merge

section Exact

variable {records : List ImageRecord} {map out l : List EfiMemoryDescriptor}
  {parts : List (List EfiMemoryDescriptor)} {data : PrivateData} {m : EfiMemoryDescriptor}
  {x : Nat}

theorem DataOk.recordsOk
    (h : DataOk data) :
    RecordsOk data.imageRecordList :=
  ⟨h.records, h.sorted⟩

theorem MapOk.eq_or_disjoint
    (h : MapOk records map)
    {a b : EfiMemoryDescriptor}
    (ha : a ∈ map)
    (hb : b ∈ map) :
    a = b ∨ a.stop ≤ b.physicalStart ∨ b.stop ≤ a.physicalStart := by
  let Apart (a b : EfiMemoryDescriptor) : Prop :=
    a.stop ≤ b.physicalStart ∨ b.stop ≤ a.physicalStart
  have hsymm : Std.Symm Apart := ⟨fun _ _ hab => hab.symm⟩
  have hpairwise : map.Pairwise Apart := h.disjoint
  by_cases heq : a = b
  · exact Or.inl heq
  · exact Or.inr (hpairwise.forall ha hb heq)

theorem MapOk.clean
    (h : MapOk records map)
    (hm : m ∈ map) :
    Clean records m.physicalStart ∧ Clean records m.stop := by
  have hinside : ∀ r ∈ records, (m.physicalStart ≤ r.imageBase ∧
      r.imageBase + r.imageSize ≤ m.stop) ∨ r.imageBase + r.imageSize ≤ m.physicalStart ∨
        m.stop ≤ r.imageBase := by
    intro r hr
    obtain ⟨d, hd, -, hlo, hhi⟩ := h.inside r hr
    rcases h.eq_or_disjoint hd hm with rfl | hapart | hapart
    · exact Or.inl ⟨hlo, hhi⟩
    · exact Or.inr (Or.inl (by omega))
    · exact Or.inr (Or.inr (by omega))
  have hlt := (h.each m hm).start_lt
  constructor
  · intro r hr
    have hin := hinside r hr
    omega
  · intro r hr
    have hin := hinside r hr
    omega

theorem MapOk.splittable
    (h : MapOk data.imageRecordList map)
    (hfits : SplitFits data map)
    (hm : m ∈ map) :
    Splittable data.imageRecordList m where
  ok := h.each m hm
  start := (h.clean hm).1
  stop := (h.clean hm).2
  gapped := hfits.gapped m hm
  below := hfits.below m hm

theorem MapOk.of_inCode
    (h : MapOk records map)
    (hrecords : RecordsOk records)
    (hx : inCode records x = true) :
    ∃ m ∈ map, m.Holds x ∧ m.images records ≠ [] := by
  obtain ⟨r, hr, hin⟩ := any_eq_true.mp hx
  obtain ⟨hbase, hend⟩ := (hrecords.each r hr).bounds_of_inSections hin
  obtain ⟨m, hm, -, hlo, hhi⟩ := h.inside r hr
  refine ⟨m, hm, ⟨by omega, by omega⟩, ne_nil_of_mem (a := r) ?_⟩
  simp only [EfiMemoryDescriptor.images, imagesIn, mem_filter, Bool.and_eq_true,
    decide_eq_true_eq]
  exact ⟨hr, hlo, hhi⟩

/-- What the descriptors of the result show. -/
theorem labels_exact
    (hmap : MapOk records map)
    (hrecords : RecordsOk records)
    (heach : ∀ d ∈ out, DescriptorOk d)
    (hsorted : out.Pairwise (fun a b => a.stop ≤ b.physicalStart))
    (hcovers : ∀ x, (∃ d ∈ out, d.Holds x) ↔ ∃ m ∈ map, m.Holds x)
    (hlabel : ∀ d ∈ out, ∀ x, d.Holds x →
      (mapView records map x).map enforceLabel = some (d.type, d.attr)) :
    SplitExact records map out := by
  have hof : ∀ m ∈ map, ∀ d ∈ out, ∀ x, m.Holds x → d.Holds x →
      (mapLabel records m x).map enforceLabel = some (d.type, d.attr) := by
    intro m hm d hd x hmx hdx
    rw [← mapView_eq hmap.disjoint hm hmx]
    exact hlabel d hd x hdx
  refine ⟨heach, hsorted, hcovers, ?_, ?_, ?_⟩
  · intro d hd x hdx hcode
    obtain ⟨m, hm, hmx, himages⟩ := hmap.of_inCode hrecords hcode
    have hshow := hof m hm d hd x hmx hdx
    rw [mapLabel, if_neg himages, splitLabel, if_pos hcode, Option.map_some, enforceLabel_code,
      Option.some_inj] at hshow
    have htype : efiRuntimeServicesCode = d.type := congrArg Prod.fst hshow
    have hattr : (codeLabel m.attr).2 = d.attr := congrArg Prod.snd hshow
    exact ⟨htype.symm, hattr ▸ codeLabel_readOnly, hattr ▸ codeLabel_executable⟩
  · intro m hm himages d hd x hmx hdx hcode
    have hshow := hof m hm d hd x hmx hdx
    rw [mapLabel, if_neg himages, splitLabel, hcode, Option.map_some, Option.some_inj] at hshow
    have htype : efiRuntimeServicesData = d.type :=
      (enforceLabel_type _).symm.trans (congrArg Prod.fst hshow)
    have hattr : (enforceLabel (dataLabel m.attr)).2 = d.attr := congrArg Prod.snd hshow
    exact ⟨htype.symm, hattr ▸ enforceLabel_data⟩
  · intro m hm himages d hd x hmx hdx
    have hshow := hof m hm d hd x hmx hdx
    rw [mapLabel, if_pos himages, Option.map_some, Option.some_inj] at hshow
    have htype : (enforceLabel (m.type, m.attr)).1 = d.type := congrArg Prod.fst hshow
    exact htype.symm.trans (enforceLabel_type _)

/-- Sorting, enforcing the attributes and merging, on the split descriptors. -/
theorem finish_exact
    (hmap : MapOk records map)
    (hrecords : RecordsOk records)
    (hparts : List.Forall₂
      (fun d ds => Tiles (mapLabel records d) d.physicalStart ds d.stop) map parts) :
    SplitExact records map (mergeMemoryMap ((exchangeSort EfiMemoryDescriptor.physicalStart
      parts.flatten).map enforceAttribute)) := by
  obtain ⟨hshows, hok⟩ := parts_shows hparts hmap.each hmap.disjoint
  have hperm := exchangeSort_perm EfiMemoryDescriptor.physicalStart parts.flatten
  have hsorted := exchangeSort_sorted EfiMemoryDescriptor.physicalStart parts.flatten
  generalize exchangeSort EfiMemoryDescriptor.physicalStart parts.flatten = l at hperm hsorted
  have hl := hshows.perm hperm
  have hlast : ∀ c : EfiMemoryDescriptor,
      Cell.last (enforceAttribute c) = Cell.last c := by
    intro c
    simp only [Cell.last, enforceAttribute_physicalStart, enforceAttribute_numberOfPages]
  have henforced := hl.map (e := enforceAttribute) (r := enforceLabel)
    (fun c => enforceAttribute_physicalStart) hlast (fun c => enforceAttribute_label)
  have heach : ∀ d ∈ l.map enforceAttribute, DescriptorOk d := by
    intro d hd
    obtain ⟨c, hc, rfl⟩ := mem_map.mp hd
    exact (hok c (hperm.mem_iff.mp hc)).enforce
  have hordered : (l.map enforceAttribute).Pairwise (fun a b => a.stop ≤ b.physicalStart) := by
    refine pairwise_map.mpr ((hl.ordered hsorted).imp fun {a b} hab => ?_)
    rw [enforceAttribute_stop, enforceAttribute_physicalStart]
    simp only [Cell.first, Cell.last] at hab
    rw [EfiMemoryDescriptor.stop]
    omega
  have hcoarser := mergeMemoryMap_coarser heach hordered
  generalize l.map enforceAttribute = e at henforced heach hcoarser
  have hcell : ∀ d ∈ e, ∀ x, d.Holds x ↔ Cell.first d ≤ x ∧ x ≤ Cell.last d := by
    intro d hd x
    have hlt := (heach d hd).start_lt
    simp only [EfiMemoryDescriptor.Holds, EfiMemoryDescriptor.stop, Cell.first, Cell.last] at hlt ⊢
    omega
  have hlabel : ∀ d ∈ mergeMemoryMap e, ∀ x, d.Holds x →
      (mapView records map x).map enforceLabel = some (d.type, d.attr) := by
    intro d hd x hx
    obtain ⟨c, hc, hcx, htype, hattr⟩ := hcoarser.from_ d hd x hx
    obtain ⟨hfirst, hle⟩ := (hcell c hc x).mp hcx
    rw [henforced.value c hc x hfirst hle, ← htype, ← hattr]
    rfl
  refine labels_exact hmap hrecords hcoarser.each hcoarser.sorted (fun x => ⟨?_, ?_⟩) hlabel
  · rintro ⟨d, hd, hx⟩
    by_contra hnone
    have hshow := hlabel d hd x hx
    rw [mapView_eq_none fun m hm hmx => hnone ⟨m, hm, hmx⟩] at hshow
    exact absurd hshow (by simp)
  · rintro ⟨m, hm, hmx⟩
    have hsome : ∃ b, (mapView records map x).map enforceLabel = some b := by
      rw [mapView_eq hmap.disjoint hm hmx, mapLabel]
      split
      · exact ⟨_, rfl⟩
      · exact ⟨_, rfl⟩
    obtain ⟨b, hb⟩ := hsome
    obtain ⟨c, hc, hcx⟩ := henforced.cover x b hb
    exact hcoarser.onto c hc x ((hcell c hc x).mpr hcx)

theorem SlotWrite.Inside.size
    {w : SlotWrite} {capacity descriptorSize memoryMapSize : Nat}
    (h : w.Inside capacity)
    (hsize : capacity * descriptorSize ≤ memoryMapSize) :
    0 ≤ w.indexOld ∧ w.indexOld ≤ w.index ∧ (w.index + 1) * descriptorSize ≤ memoryMapSize := by
  obtain ⟨hold, hle, hlt⟩ := h
  refine ⟨hold, hle, ?_⟩
  calc (w.index + 1) * (descriptorSize : Int)
      ≤ (capacity : Int) * descriptorSize :=
        mul_le_mul_of_nonneg_right (by omega) (Int.natCast_nonneg _)
    _ ≤ memoryMapSize := by exact_mod_cast hsize

/-- After any history of image records, `CoreGetMemoryMapPropertiesTable` on a memory map
whose new records fit in, and whose images have data around their code, writes inside the
buffer and leaves the exact split map. -/
theorem coreGetMemoryMapPropertiesTable_exact
    {trace : List (PrivateData × RecordCall)} {answer : MemoryMapAnswer}
    {turns memoryMapSize descriptorSize : Nat} {rest : Int → EfiMemoryDescriptor}
    (hrun : Run RecordStep initialData trace data)
    (hmap : ∀ map, answer = .ok map →
      MapOk data.imageRecordList map ∧ map.length * descriptorSize ≤ memoryMapSize)
    (hfits : ∀ map, answer = .ok map → SplitFits data map)
    (hturns : data.imageRecordList.length < turns) :
    ∃ result b, coreGetMemoryMapPropertiesTable turns data memoryMapSize descriptorSize rest
        answer = some (result, b) ∧
      ∀ out, result = .ok out → ∃ map, answer = .ok map ∧
        WritesInside memoryMapSize descriptorSize b ∧
          SplitExact data.imageRecordList map out := by
  have hdata := recordRun_ok hrun
  have hrecords := hdata.recordsOk
  cases answer with
  | error status =>
      exact ⟨.error status, _, rfl, fun out hout => by simp at hout⟩
  | ok map =>
      obtain ⟨hmapOk, hsize⟩ := hmap map rfl
      have hroom := hfits map rfl
      simp only [coreGetMemoryMapPropertiesTable, hdata.enabled, Bool.not_true,
        Bool.false_eq_true, if_false]
      split
      case isTrue => exact ⟨_, _, rfl, fun out hout => by simp at hout⟩
      case isFalse henough =>
        obtain ⟨st, parts, hloop, hsplit⟩ := splitTableLoop_spec hrecords
          (fun m hm => hmapOk.splittable hroom hm) hturns le_rfl
          (tableSplit_start rest hroom.room)
        simp only [splitTable, hloop, Option.map_some, hsplit.moved]
        refine ⟨_, _, rfl, fun out hout => ⟨map, rfl, fun w hw => ?_, ?_⟩⟩
        · refine (hsplit.moved_writes w hw).size ?_
          rw [Nat.add_mul, Nat.mul_comm (additionalRecordCount data)]
          omega
        · rw [← Except.ok.inj hout]
          exact finish_exact hmapOk hrecords hsplit.tiles

end Exact

section Samples

instance (a : Nat) : Decidable (Aligned a) := inferInstanceAs (Decidable (a % efiPageSize = 0))

/-- An image of three pages with one page of code. -/
def smallImage : RuntimeImage where
  imageBase := 0x20000
  imageSize := 0x3000
  isPe := true
  sectionAlignment := 0x1000
  sections := [⟨0x1000, 0x1000, true⟩, ⟨0x2000, 0x1000, false⟩]

/-- An image below it with three pages of code. -/
def largeImage : RuntimeImage where
  imageBase := 0x10000
  imageSize := 0x7000
  isPe := true
  sectionAlignment := 0x1000
  sections := [⟨0x1000, 0x1000, true⟩, ⟨0x3000, 0x1000, true⟩, ⟨0x5000, 0x1000, true⟩]

/-- A descriptor that holds both. -/
def sampleDescriptor : EfiMemoryDescriptor where
  type := efiRuntimeServicesCode
  physicalStart := 0x10000
  virtualStart := 0
  numberOfPages := 0x20
  attr := 0

/-- There is room in the pool. -/
def enoughPool : RecordPool := ⟨true, true⟩

def smallRecord : ImageRecord := ⟨0x20000, 0x3000, 1, [⟨0x21000, 0x1000⟩]⟩

def largeRecord : ImageRecord :=
  ⟨0x10000, 0x7000, 3, [⟨0x11000, 0x1000⟩, ⟨0x13000, 0x1000⟩, ⟨0x15000, 0x1000⟩]⟩

theorem smallImage_ok : ImageOk initialData smallImage where
  aligned := by decide
  alignedSize := by decide
  fits := by decide
  alignment := by decide
  hasCode := by decide
  sections := by decide
  disjoint r hr := absurd hr not_mem_nil

theorem insert_smallImage :
    insertImageRecord initialData smallImage enoughPool = ⟨1, 1, [smallRecord], true⟩ := by
  decide

theorem largeImage_ok : ImageOk ⟨1, 1, [smallRecord], true⟩ largeImage where
  aligned := by decide
  alignedSize := by decide
  fits := by decide
  alignment := by decide
  hasCode := by decide
  sections := by decide
  disjoint := by decide

theorem insert_largeImage :
    insertImageRecord ⟨1, 1, [smallRecord], true⟩ largeImage enoughPool =
      ⟨2, 1, [largeRecord, smallRecord], true⟩ := by
  decide

theorem run_smallImage :
    Run RecordStep initialData [(initialData, .insert smallImage enoughPool)]
      ⟨1, 1, [smallRecord], true⟩ := by
  rw [← insert_smallImage]
  exact Run.single (RecordStep.insert enoughPool smallImage_ok)

theorem run_bothImages :
    Run RecordStep initialData
      [(initialData, .insert smallImage enoughPool),
        (⟨1, 1, [smallRecord], true⟩, .insert largeImage enoughPool)]
      ⟨2, 1, [largeRecord, smallRecord], true⟩ := by
  refine run_smallImage.append ?_
  rw [← insert_largeImage]
  exact Run.single (RecordStep.insert enoughPool largeImage_ok)

theorem sampleDescriptor_ok : DescriptorOk sampleDescriptor where
  aligned := by decide
  pages := by decide
  fits := by decide

theorem mapOk_sample
    {records : List ImageRecord}
    (h : ∀ r ∈ records, sampleDescriptor.physicalStart ≤ r.imageBase ∧
      r.imageBase + r.imageSize ≤ sampleDescriptor.stop) :
    MapOk records [sampleDescriptor] where
  each := forall_mem_singleton.mpr sampleDescriptor_ok
  disjoint := pairwise_singleton _ _
  inside r hr := ⟨sampleDescriptor, mem_singleton_self _, rfl, h r hr⟩

theorem splitFits_sample :
    SplitFits ⟨1, 1, [smallRecord], true⟩ [sampleDescriptor] where
  room := by decide
  gapped := by
    refine forall_mem_singleton.mpr ?_
    have himages : sampleDescriptor.images [smallRecord] = [smallRecord] := by decide
    rw [himages]
    exact ⟨⟨by decide, trivial⟩, by decide, trivial⟩
  below := forall_mem_singleton.mpr fun _ => by decide

theorem coreGetMemoryMapPropertiesTable_exact_sample :
    ∃ result b, coreGetMemoryMapPropertiesTable 2 ⟨1, 1, [smallRecord], true⟩ 192 48
        (fun _ => sampleDescriptor) (.ok [sampleDescriptor]) = some (result, b) ∧
      ∀ out, result = .ok out → ∃ map, (.ok [sampleDescriptor] : MemoryMapAnswer) = .ok map ∧
        WritesInside 192 48 b ∧ SplitExact [smallRecord] map out :=
  coreGetMemoryMapPropertiesTable_exact run_smallImage
    (fun map h => by
      rw [← Except.ok.inj h]
      exact ⟨mapOk_sample (by decide), by decide⟩)
    (fun map h => Except.ok.inj h ▸ splitFits_sample) (by decide)

/-- The maximum is taken from the image with the highest base, not from the one that was
inserted: with three code sections in the lower image the records do not fit, and
`SplitTable` writes in front of the buffer. -/
theorem lowerImage_writesOutside :
    ∃ trace data map, Run RecordStep initialData trace data ∧
      MapOk data.imageRecordList map ∧ map.length * 48 ≤ 336 ∧
        ∃ out b, coreGetMemoryMapPropertiesTable 3 data 336 48 (fun _ => sampleDescriptor)
            (.ok map) = some (.ok out, b) ∧ ¬WritesInside 336 48 b := by
  refine ⟨_, _, [sampleDescriptor], run_bothImages, mapOk_sample (by decide), by decide, ?_⟩
  have heval : (coreGetMemoryMapPropertiesTable 3 ⟨2, 1, [largeRecord, smallRecord], true⟩ 336 48
      (fun _ => sampleDescriptor) (.ok [sampleDescriptor])).map
        (fun r => (r.1.toBool, r.2.writes.any fun w => decide (w.index < w.indexOld))) =
      some (true, true) := by
    decide
  obtain ⟨⟨result, b⟩, hsome, hr⟩ := Option.map_eq_some_iff.mp heval
  cases result with
  | error status => simp [Except.toBool] at hr
  | ok out =>
      refine ⟨out, b, hsome, fun hinside => ?_⟩
      have hany := congrArg Prod.snd hr
      obtain ⟨w, hw, hlt⟩ := any_eq_true.mp hany
      exact absurd (hinside w hw).2.1 (not_le.mpr (of_decide_eq_true hlt))

end Samples

end PropertiesTable
end Udk
