import Udk.PiSmmCore.AllocatePages
import Udk.PiSmmCore.FreePages
import Udk.Runs

/-!
# Runs of the SMRAM page services

The history of the calls determines the set of free pages of a reference allocator.  In
every run of well-formed calls the list denotes that set, and each call does what the
reference allocator may do.
-/

namespace Udk
namespace PiSmmCore

open PropertiesTable Span

section Machine

/-- A call of a page service. -/
inductive PageCall where
  | addMemoryRegion (memBase memLength : Nat) (attributes : UInt64)
  | allocatePages (type : EfiAllocateType) (memoryType : UInt32) (numberOfPages memory : Nat)
  | freePages (memory numberOfPages : Nat)
deriving DecidableEq

/-- A call with the status and the address it returned. -/
structure PageEvent where
  call : PageCall
  status : EfiStatus
  memory : Nat
deriving DecidableEq

/-- The state of the page services; the history has the last call first. -/
structure PageState where
  mSmmMemoryMap : MemoryMap
  history : List PageEvent
deriving DecidableEq

/-- No region has been added. -/
def PageState.initial : PageState :=
  ⟨some [], []⟩

/-- What a call returns, with the list after it. -/
def performCall (nodes : List FreePageList) : PageCall → PageResult
  | .addMemoryRegion memBase memLength attributes =>
    ⟨.success, memBase, smmAddMemoryRegion nodes memBase memLength attributes⟩
  | .allocatePages type memoryType numberOfPages memory =>
    smmInternalAllocatePages nodes type memoryType numberOfPages memory
  | .freePages memory numberOfPages =>
    let result := smmInternalFreePages nodes memory numberOfPages
    ⟨result.1, memory, result.2⟩

/-- A call as a step; none when the links of the list are destroyed. -/
def pageMove (s : PageState) (call : PageCall) : Option PageState :=
  s.mSmmMemoryMap.map fun nodes =>
    let result := performCall nodes call
    ⟨result.map, ⟨call, result.status, result.memory⟩ :: s.history⟩

/-- The machine as a relation. -/
def PageStep (s : PageState) (call : PageCall) (s' : PageState) : Prop :=
  pageMove s call = some s'

end Machine

section Reference

/-- The pages from an address on. -/
def pagesAt (memory numberOfPages : Nat) : Set Nat :=
  Set.Ico (memory / 4096) (memory / 4096 + numberOfPages)

/-- The free pages of the reference allocator: a usable region adds its pages unless one
of them is free, and a call that succeeds removes or adds its pages. -/
def referenceFree : List PageEvent → Set Nat
  | [] => ∅
  | ⟨.addMemoryRegion memBase memLength attributes, _, _⟩ :: history =>
    referenceFree history ∪
      {page | page ∈ regionPages memBase memLength ∧ attributes &&& unusableRegion = 0 ∧
        Disjoint (referenceFree history) (regionPages memBase memLength)}
  | ⟨.allocatePages _ _ numberOfPages _, .success, memory⟩ :: history =>
    referenceFree history \ pagesAt memory numberOfPages
  | ⟨.freePages _ numberOfPages, .success, memory⟩ :: history =>
    referenceFree history ∪ pagesAt memory numberOfPages
  | _ :: history => referenceFree history

/-- The pages that are allocated. -/
def allocatedPages : List PageEvent → Set Nat
  | [] => ∅
  | ⟨.allocatePages _ _ numberOfPages _, .success, memory⟩ :: history =>
    allocatedPages history ∪ pagesAt memory numberOfPages
  | ⟨.freePages _ numberOfPages, .success, memory⟩ :: history =>
    allocatedPages history \ pagesAt memory numberOfPages
  | _ :: history => allocatedPages history

/-- The pages that lie wholly inside a region that was added. -/
def addedPages : List PageEvent → Set Nat
  | [] => ∅
  | ⟨.addMemoryRegion memBase memLength attributes, _, _⟩ :: history =>
    addedPages history ∪
      {page | page ∈ regionPages memBase memLength ∧ attributes &&& unusableRegion = 0}
  | _ :: history => addedPages history

/-- What a caller keeps to: a usable region is well formed and holds no allocated page, a
request is for some page and does not wrap, and what is freed is allocated. -/
def PageCallOk (s : PageState) : PageCall → Prop
  | .addMemoryRegion memBase memLength attributes =>
    attributes &&& unusableRegion = 0 → RegionOk memBase memLength ∧
      Disjoint (regionPages memBase memLength) (allocatedPages s.history)
  | .allocatePages type _ numberOfPages memory => AllocateRequestOk type numberOfPages memory
  | .freePages memory numberOfPages => memory % 4096 = 0 → 0 < numberOfPages ∧
      pagesAt memory numberOfPages ⊆ allocatedPages s.history

/-- What a call does to the list is what the reference allocator may do. -/
def CallRefines (nodes : List FreePageList) : PageCall → PageResult → Prop
  | .addMemoryRegion memBase memLength attributes, result =>
    ∃ nodes', result.map = some nodes' ∧
      ((attributes &&& unusableRegion = 0 ∧
          Disjoint (freePages nodes) (regionPages memBase memLength) ∧
          freePages nodes' = freePages nodes ∪ regionPages memBase memLength) ∨
        (nodes' = nodes ∧ (attributes &&& unusableRegion = 0 →
          ¬ Disjoint (freePages nodes) (regionPages memBase memLength))))
  | .allocatePages type memoryType numberOfPages memory, result =>
    AllocateOk nodes type memoryType numberOfPages memory result
  | .freePages memory numberOfPages, result =>
    if memory % 4096 = 0 then
      FreeOk nodes (memory / 4096) numberOfPages (result.status, result.map)
    else result.status = .invalidParameter ∧ result.map = some nodes

/-- The list denotes the free pages of the reference allocator. -/
structure PagesOk (s : PageState) (nodes : List FreePageList) : Prop where
  map : s.mSmmMemoryMap = some nodes
  mapOk : MapOk nodes
  free : freePages nodes = referenceFree s.history
  allocated : Disjoint (referenceFree s.history) (allocatedPages s.history)
  inside : referenceFree s.history ∪ allocatedPages s.history ⊆ addedPages s.history
  bounds : ∀ page ∈ addedPages s.history, 0 < page ∧ page + 1 < 2 ^ 52

variable {s s' : PageState} {nodes : List FreePageList} {call : PageCall}

theorem initial_pagesOk :
    PagesOk .initial [] where
  map := rfl
  mapOk := ⟨fun _ hnode => absurd hnode List.not_mem_nil, Span.Apart.nil⟩
  free := by
    change freePages [] = ∅
    exact cover_nil
  allocated := Set.empty_disjoint _
  inside := by
    change (∅ ∪ ∅ : Set Nat) ⊆ ∅
    rw [Set.union_empty]
  bounds := fun page hpage => absurd hpage (Set.notMem_empty page)

theorem PagesOk.run_bounds
    {first count : Nat}
    (h : PagesOk s nodes)
    (hpos : 0 < count)
    (hrun : Set.Ico first (first + count) ⊆ allocatedPages s.history) :
    0 < first ∧ first + count < 2 ^ 52 := by
  have hin : ∀ page ∈ Set.Ico first (first + count), 0 < page ∧ page + 1 < 2 ^ 52 :=
    fun page hpage => h.bounds page (h.inside (Or.inr (hrun hpage)))
  have hfirst := hin first ⟨le_refl _, Nat.lt_add_of_pos_right hpos⟩
  have hlast := hin (first + count - 1) ⟨by omega, by omega⟩
  omega

theorem PagesOk.callRefines
    (h : PagesOk s nodes)
    (hok : PageCallOk s call) :
    CallRefines nodes call (performCall nodes call) := by
  cases call with
  | addMemoryRegion memBase memLength attributes =>
      obtain ⟨nodes', hmap, -, hcases⟩ :=
        smmAddMemoryRegion_ok h.mapOk (fun husable => (hok husable).1)
      exact ⟨nodes', hmap, hcases⟩
  | allocatePages type memoryType numberOfPages memory =>
      exact smmInternalAllocatePages_ok h.mapOk hok
  | freePages memory numberOfPages =>
      simp only [CallRefines]
      split
      case isTrue haligned =>
        obtain ⟨hpos, hrun⟩ := hok haligned
        obtain ⟨hfirst, hend⟩ := h.run_bounds hpos hrun
        have hfree := smmInternalFreePages_ok h.mapOk hfirst hpos hend
        rwa [Nat.div_mul_cancel (Nat.dvd_of_mod_eq_zero haligned)] at hfree
      case isFalse haligned =>
        have hresult : smmInternalFreePages nodes memory numberOfPages =
            (.invalidParameter, some nodes) := by
          rw [smmInternalFreePages, efiPageSize_eq', if_pos haligned]
        simp only [performCall, hresult]
        exact ⟨trivial, trivial⟩

end Reference

section Steps

variable {s s' : PageState} {nodes nodes' : List FreePageList} {call : PageCall}
  {history : List PageEvent} {first numberOfPages memory : Nat} {status : EfiStatus}

theorem pagesAt_page :
    pagesAt (first * 4096) numberOfPages = Set.Ico first (first + numberOfPages) := by
  rw [pagesAt, Nat.mul_div_cancel first (Nat.succ_pos 4095)]

theorem failed_call
    (hcall : ∀ memBase memLength attributes,
      call ≠ .addMemoryRegion memBase memLength attributes)
    (hstatus : status ≠ .success) :
    referenceFree (⟨call, status, memory⟩ :: history) = referenceFree history ∧
      allocatedPages (⟨call, status, memory⟩ :: history) = allocatedPages history ∧
      addedPages (⟨call, status, memory⟩ :: history) = addedPages history := by
  cases call with
  | addMemoryRegion memBase memLength attributes => exact absurd rfl (hcall _ _ _)
  | allocatePages type memoryType count request | freePages request count =>
      cases status with
      | success => exact absurd rfl hstatus
      | invalidParameter | outOfResources | notFound => exact ⟨rfl, rfl, rfl⟩

theorem PagesOk.failed
    (h : PagesOk s nodes)
    (hcall : ∀ memBase memLength attributes,
      call ≠ .addMemoryRegion memBase memLength attributes)
    (hstatus : status ≠ .success) :
    PagesOk ⟨some nodes, ⟨call, status, memory⟩ :: s.history⟩ nodes := by
  obtain ⟨hfree, hallocated, hadded⟩ := @failed_call call s.history memory status hcall hstatus
  constructor
  case map => rfl
  case mapOk => exact h.mapOk
  case free => exact h.free.trans hfree.symm
  case allocated =>
    change Disjoint (referenceFree _) (allocatedPages _)
    rw [hfree, hallocated]
    exact h.allocated
  case inside =>
    change referenceFree _ ∪ allocatedPages _ ⊆ addedPages _
    rw [hfree, hallocated, hadded]
    exact h.inside
  case bounds =>
    change ∀ page ∈ addedPages _, _
    rw [hadded]
    exact h.bounds

theorem PagesOk.addRegion
    {memBase memLength : Nat} {attributes : UInt64}
    (h : PagesOk s nodes)
    (hok : PageCallOk s (.addMemoryRegion memBase memLength attributes)) :
    ∃ nodes', smmAddMemoryRegion nodes memBase memLength attributes = some nodes' ∧
      PagesOk ⟨some nodes', ⟨.addMemoryRegion memBase memLength attributes, .success, memory⟩ ::
        s.history⟩ nodes' := by
  obtain ⟨nodes', hmap, hmapOk, hcases⟩ :=
    smmAddMemoryRegion_ok h.mapOk (fun husable => (hok husable).1)
  refine ⟨nodes', hmap, rfl, hmapOk, ?_, ?_, ?_, ?_⟩
  · change freePages nodes' = referenceFree s.history ∪ _
    rcases hcases with ⟨husable, hdisjoint, hpages⟩ | ⟨rfl, hrefused⟩
    · rw [hpages, h.free]
      rw [h.free] at hdisjoint
      congr 1
      ext page
      exact ⟨fun hpage => ⟨hpage, husable, hdisjoint⟩, fun hpage => hpage.1⟩
    · rw [h.free] at hrefused ⊢
      refine (Set.union_eq_left.mpr ?_).symm
      rintro page ⟨-, husable, hdisjoint⟩
      exact absurd hdisjoint (hrefused husable)
  · change Disjoint (referenceFree s.history ∪ _) (allocatedPages s.history)
    refine Set.disjoint_union_left.mpr ⟨h.allocated, ?_⟩
    rw [Set.disjoint_left]
    rintro page ⟨hregion, husable, -⟩ hpage
    exact Set.disjoint_left.mp (hok husable).2 hregion hpage
  · change (referenceFree s.history ∪ _) ∪ allocatedPages s.history ⊆ addedPages s.history ∪ _
    rintro page ((hpage | ⟨hregion, husable, -⟩) | hpage)
    · exact Or.inl (h.inside (Or.inl hpage))
    · exact Or.inr ⟨hregion, husable⟩
    · exact Or.inl (h.inside (Or.inr hpage))
  · rintro page (hpage | ⟨⟨hstart, hstop⟩, husable⟩)
    · exact h.bounds page hpage
    · obtain ⟨hnonzero, hhigh, -⟩ := (hok husable).1
      constructor
      · omega
      · exact page_lt_iff.mp (lt_of_le_of_lt hstop hhigh)

theorem PagesOk.allocate
    {type : EfiAllocateType} {memoryType : UInt32}
    (h : PagesOk s nodes)
    (hallocated : Allocated nodes first numberOfPages nodes') :
    PagesOk ⟨some nodes', ⟨.allocatePages type memoryType numberOfPages memory, .success,
      first * 4096⟩ :: s.history⟩ nodes' := by
  have hrun := hallocated.run
  rw [h.free] at hrun
  constructor
  case map => rfl
  case mapOk => exact hallocated.mapOk
  case free =>
    change _ = referenceFree s.history \ pagesAt _ _
    rw [hallocated.pages, h.free, pagesAt_page]
  case allocated =>
    change Disjoint (referenceFree s.history \ pagesAt _ _) (allocatedPages s.history ∪ pagesAt _ _)
    rw [pagesAt_page]
    exact Set.disjoint_union_right.mpr
      ⟨h.allocated.mono_left Set.diff_subset, Set.disjoint_sdiff_left⟩
  case inside =>
    change (referenceFree s.history \ pagesAt _ _) ∪ (allocatedPages s.history ∪ pagesAt _ _) ⊆
      addedPages s.history
    rw [pagesAt_page]
    rintro page (hpage | hpage | hpage)
    · exact h.inside (Or.inl hpage.1)
    · exact h.inside (Or.inr hpage)
    · exact h.inside (Or.inl (hrun hpage))
  case bounds => exact h.bounds

theorem PagesOk.free'
    (h : PagesOk s nodes)
    (hmapOk : MapOk nodes')
    (hpages : freePages nodes' = freePages nodes ∪ pagesAt memory numberOfPages)
    (hrun : pagesAt memory numberOfPages ⊆ allocatedPages s.history) :
    PagesOk ⟨some nodes', ⟨.freePages memory numberOfPages, .success, memory⟩ :: s.history⟩
      nodes' := by
  constructor
  case map => rfl
  case mapOk => exact hmapOk
  case free =>
    change _ = referenceFree s.history ∪ pagesAt _ _
    rw [hpages, h.free]
  case allocated =>
    change Disjoint (referenceFree s.history ∪ pagesAt _ _) (allocatedPages s.history \ pagesAt _ _)
    exact Set.disjoint_union_left.mpr
      ⟨h.allocated.mono_right Set.diff_subset, Set.disjoint_sdiff_right⟩
  case inside =>
    change (referenceFree s.history ∪ pagesAt _ _) ∪ (allocatedPages s.history \ pagesAt _ _) ⊆
      addedPages s.history
    rintro page ((hpage | hpage) | hpage)
    · exact h.inside (Or.inl hpage)
    · exact h.inside (Or.inr (hrun hpage))
    · exact h.inside (Or.inr hpage.1)
  case bounds => exact h.bounds

/-- Every well-formed call keeps the agreement with the reference allocator. -/
theorem pageStep_pagesOk
    (h : PagesOk s nodes)
    (hok : PageCallOk s call)
    (hstep : PageStep s call s') :
    ∃ nodes', PagesOk s' nodes' := by
  rw [PageStep, pageMove, h.map, Option.map_some, Option.some_inj] at hstep
  subst hstep
  change ∃ nodes', PagesOk ⟨(performCall nodes call).map, ⟨call, (performCall nodes call).status,
    (performCall nodes call).memory⟩ :: s.history⟩ nodes'
  have hrefines := h.callRefines hok
  cases call with
  | addMemoryRegion memBase memLength attributes =>
      obtain ⟨nodes', hmap, hpages⟩ := @PagesOk.addRegion s nodes memBase memBase memLength
        attributes h hok
      refine ⟨nodes', ?_⟩
      simp only [performCall, hmap]
      exact hpages
  | allocatePages type memoryType numberOfPages memory =>
      obtain ⟨hallocated, hunchanged, -⟩ := hrefines
      by_cases hstatus : (performCall nodes
          (.allocatePages type memoryType numberOfPages memory)).status = .success
      · obtain ⟨first, nodes', hmemory, hmap, hrun, -⟩ := hallocated hstatus
        refine ⟨nodes', ?_⟩
        rw [hmemory, hmap, hstatus]
        exact h.allocate hrun
      · refine ⟨nodes, ?_⟩
        rw [hunchanged hstatus]
        exact h.failed (fun _ _ _ heq => PageCall.noConfusion heq) hstatus
  | freePages memory numberOfPages =>
      simp only [CallRefines] at hrefines
      split at hrefines
      case isTrue haligned =>
        obtain ⟨hfreed, hrefused⟩ := hrefines
        by_cases hstatus : (performCall nodes (.freePages memory numberOfPages)).status = .success
        · obtain ⟨nodes', hmap, hmapOk, -, hpages⟩ := hfreed hstatus
          refine ⟨nodes', ?_⟩
          rw [hstatus]
          change (performCall nodes (.freePages memory numberOfPages)).map = some nodes' at hmap
          rw [hmap]
          exact h.free' hmapOk hpages (hok haligned).2
        · refine ⟨nodes, ?_⟩
          have hmap := (hrefused hstatus).1
          change (performCall nodes (.freePages memory numberOfPages)).map = some nodes at hmap
          rw [hmap]
          exact h.failed (fun _ _ _ heq => PageCall.noConfusion heq) hstatus
      case isFalse haligned =>
        refine ⟨nodes, ?_⟩
        rw [hrefines.1, hrefines.2]
        exact h.failed (fun _ _ _ heq => PageCall.noConfusion heq)
          (fun heq => EfiStatus.noConfusion heq)

end Steps

section Runs

variable {s : PageState}

/-- The page services as the claim of a reference allocator: the list is sorted, its nodes
are non-empty and apart, it denotes the free pages, these lie in added regions, and each
well-formed call does what the reference allocator may do. -/
structure RefinesAllocator (s : PageState) : Prop where
  denotes : ∃ nodes, s.mSmmMemoryMap = some nodes ∧ MapOk nodes ∧
    freePages nodes = referenceFree s.history
  inside : referenceFree s.history ⊆ addedPages s.history
  calls : ∀ nodes call, s.mSmmMemoryMap = some nodes → PageCallOk s call →
    CallRefines nodes call (performCall nodes call)

/-- The SMRAM page services refine the reference allocator in every run of well-formed
calls. -/
theorem smmPages_refine
    {trace : List (PageState × PageCall)}
    (hrun : Run PageStep .initial trace s)
    (hok : ∀ x ∈ trace, PageCallOk x.1 x.2) :
    RefinesAllocator s := by
  have hkeep : ∀ s call s', (∃ nodes, PagesOk s nodes) → PageCallOk s call → PageStep s call s' →
      ∃ nodes, PagesOk s' nodes := by
    rintro s call s' ⟨nodes, h⟩ hcall hstep
    exact pageStep_pagesOk h hcall hstep
  obtain ⟨nodes, h⟩ := hrun.invariant hkeep hok ⟨[], initial_pagesOk⟩
  constructor
  case denotes => exact ⟨nodes, h.map, h.mapOk, h.free⟩
  case inside => exact Set.subset_union_left.trans h.inside
  case calls =>
    intro nodes' call hmap hcall
    obtain rfl := Option.some_inj.mp (h.map.symm.trans hmap)
    exact h.callRefines hcall

/-- Two pages above the first one. -/
def sampleRegion : PageCall :=
  .addMemoryRegion 0x1000 0x2000 0

/-- A request for one of them. -/
def sampleRequest : PageCall :=
  .allocatePages .allocateMaxAddress efiRuntimeServicesData 1 0x1fff

theorem smmPages_refine_sample :
    RefinesAllocator
      ⟨some [⟨0x2000, 1⟩],
        [⟨sampleRequest, .success, 0x1000⟩, ⟨sampleRegion, .success, 0x1000⟩]⟩ := by
  refine @smmPages_refine _
    [(.initial, sampleRegion),
      (⟨some [⟨0x1000, 2⟩], [⟨sampleRegion, .success, 0x1000⟩]⟩, sampleRequest)]
    (.cons rfl (.cons rfl (.nil _))) ?_
  intro x hx
  rcases List.mem_cons.mp hx with rfl | hx
  · refine fun _ => ⟨⟨by decide, by decide, 1, by decide, by decide⟩, ?_⟩
    exact Set.disjoint_empty _
  · rw [List.mem_singleton.mp hx]
    exact ⟨by decide, by decide, fun htype => EfiAllocateType.noConfusion htype⟩

/-- Sixteen pages. -/
def wideRegion : PageCall :=
  .addMemoryRegion 0x10000 0x10000 0

/-- A request for so many pages that the address behind them wraps to one in the region. -/
def wrappedRequest : PageCall :=
  .allocatePages .allocateAddress efiRuntimeServicesData 0xffffffffffffc 0x18000

/-- A request for an address whose size wraps succeeds and leaves overlapping nodes; a
region that holds no page makes the pages behind it free. -/
theorem wrappedRequest_breaks :
    (∃ trace s nodes, Run PageStep .initial trace s ∧
      s.history = [⟨wrappedRequest, .success, 0x18000⟩, ⟨wideRegion, .success, 0x10000⟩] ∧
      s.mSmmMemoryMap = some nodes ∧ ¬ MapOk nodes) ∧
    (∃ trace s nodes, Run PageStep .initial trace s ∧
      s.history = [⟨.addMemoryRegion 0x1001 0x10 0, .success, 0x1001⟩] ∧
      s.mSmmMemoryMap = some nodes ∧ 2 ∈ freePages nodes ∧ 2 ∉ addedPages s.history) := by
  constructor
  · refine ⟨[(.initial, wideRegion),
        (⟨some [⟨0x10000, 16⟩], [⟨wideRegion, .success, 0x10000⟩]⟩, wrappedRequest)],
      ⟨some [⟨0x10000, 0xfff0000000000008⟩, ⟨0x14000, 12⟩],
        [⟨wrappedRequest, .success, 0x18000⟩, ⟨wideRegion, .success, 0x10000⟩]⟩, _,
      .cons rfl (.cons rfl (.nil _)), rfl, rfl, ?_⟩
    intro h
    have hhigh := (h.node _ List.mem_cons_self).high
    exact absurd hhigh (by decide)
  · refine ⟨[(.initial, .addMemoryRegion 0x1001 0x10 0)],
      ⟨some [⟨0x2000, 0xfffffffffffff⟩],
        [⟨.addMemoryRegion 0x1001 0x10 0, .success, 0x1001⟩]⟩, _,
      .cons rfl (.nil _), rfl, rfl, ?_, ?_⟩
    · exact ⟨_, List.mem_cons_self, by decide, by decide⟩
    · rintro (hfalse | ⟨⟨_, hstop⟩, -⟩)
      · exact hfalse
      · exact absurd hstop (by decide)

/-- The set of free pages determines the list. -/
theorem MapOk.ext
    {nodes nodes' : List FreePageList}
    (h : MapOk nodes)
    (h' : MapOk nodes')
    (hfree : freePages nodes = freePages nodes') :
    nodes = nodes' := by
  have hback : ∀ {nodes : List FreePageList}, MapOk nodes →
      (nodes.map FreePageList.span).map (fun s => ⟨s.start * 4096, s.length⟩) = nodes := by
    intro nodes h
    rw [List.map_map]
    refine (List.map_congr_left fun node hnode => ?_).trans (List.map_id nodes)
    change (⟨node.span.start * 4096, node.numberOfPages⟩ : FreePageList) = node
    rw [← (h.node node hnode).address_eq]
  rw [← hback h, ← hback h', h.apart.ext h'.apart hfree]

theorem pagesOk_of_run
    {s : PageState} {trace : List (PageState × PageCall)}
    (hrun : Run PageStep .initial trace s)
    (hok : ∀ x ∈ trace, PageCallOk x.1 x.2) :
    ∃ nodes, PagesOk s nodes :=
  hrun.invariant (I := fun s => ∃ nodes, PagesOk s nodes)
    (fun _ _ _ ⟨_, h⟩ hcall hstep => pageStep_pagesOk h hcall hstep) hok ⟨[], initial_pagesOk⟩

/-- The list depends on the pages that are free, not on the calls that have freed them. -/
theorem smmPages_canonical
    {s s' : PageState} {trace trace' : List (PageState × PageCall)}
    (hrun : Run PageStep .initial trace s)
    (hok : ∀ x ∈ trace, PageCallOk x.1 x.2)
    (hrun' : Run PageStep .initial trace' s')
    (hok' : ∀ x ∈ trace', PageCallOk x.1 x.2)
    (hfree : referenceFree s.history = referenceFree s'.history) :
    s.mSmmMemoryMap = s'.mSmmMemoryMap := by
  obtain ⟨nodes, h⟩ := pagesOk_of_run hrun hok
  obtain ⟨nodes', h'⟩ := pagesOk_of_run hrun' hok'
  rw [h.map, h'.map, h.mapOk.ext h'.mapOk (h.free.trans (hfree.trans h'.free.symm))]

/-- A page that is freed again leaves the list that the region gave. -/
theorem smmPages_canonical_freed :
    (⟨some [⟨0x1000, 2⟩], [⟨sampleRegion, .success, 0x1000⟩]⟩ : PageState).mSmmMemoryMap =
      (⟨some [⟨0x1000, 2⟩], [⟨.freePages 0x1000 1, .success, 0x1000⟩,
        ⟨sampleRequest, .success, 0x1000⟩, ⟨sampleRegion, .success, 0x1000⟩]⟩ :
          PageState).mSmmMemoryMap := by
  have hregion : PageCallOk .initial sampleRegion :=
    fun _ => ⟨⟨by decide, by decide, 1, by decide, by decide⟩, Set.disjoint_empty _⟩
  have hrequest : ∀ s, PageCallOk s sampleRequest :=
    fun _ => ⟨by decide, by decide, fun htype => EfiAllocateType.noConfusion htype⟩
  refine @smmPages_canonical _ _ [(.initial, sampleRegion)]
    [(.initial, sampleRegion),
      (⟨some [⟨0x1000, 2⟩], [⟨sampleRegion, .success, 0x1000⟩]⟩, sampleRequest),
      (⟨some [⟨0x2000, 1⟩], [⟨sampleRequest, .success, 0x1000⟩,
        ⟨sampleRegion, .success, 0x1000⟩]⟩, .freePages 0x1000 1)]
    (.cons rfl (.nil _)) ?_ (.cons rfl (.cons rfl (.cons rfl (.nil _)))) ?_ ?_
  · exact List.forall_mem_singleton.mpr hregion
  · refine List.forall_mem_cons.mpr ⟨hregion, List.forall_mem_cons.mpr ⟨hrequest _,
      List.forall_mem_singleton.mpr fun _ => ⟨by decide, Set.subset_union_right⟩⟩⟩
  · refine (Set.sdiff_union_of_subset ?_).symm
    rintro page ⟨hlow, hhigh⟩
    obtain rfl : page = 1 := Nat.le_antisymm (Nat.le_of_lt_succ hhigh) hlow
    exact Or.inr ⟨⟨by decide, by decide⟩, rfl, Set.empty_disjoint _⟩

end Runs

end PiSmmCore
end Udk
