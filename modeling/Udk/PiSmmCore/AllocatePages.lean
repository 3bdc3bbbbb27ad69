import Udk.PiSmmCore.PageRefinement

/-!
# Allocation of SMRAM pages

The loops over the free nodes take a run of free pages that meets the constraint, or find
that there is none, and `SmmInternalAllocatePages` removes that run from the set of free
pages.
-/

namespace Udk
namespace PiSmmCore

open PropertiesTable Span List

section Allocated

variable {nodes nodes' before after pieces : List FreePageList} {pages : FreePageList}
  {first numberOfPages maxAddress address : Nat}

/-- A run of free pages has left the list. -/
structure Allocated (nodes : List FreePageList) (first numberOfPages : Nat)
    (nodes' : List FreePageList) : Prop where
  mapOk : MapOk nodes'
  run : Set.Ico first (first + numberOfPages) ⊆ freePages nodes
  pages : freePages nodes' = freePages nodes \ Set.Ico first (first + numberOfPages)

theorem allocated_of_taken
    (h : MapOk (before ++ pages :: after))
    (htaken : Taken pages first numberOfPages pieces) :
    Allocated (before ++ pages :: after) first numberOfPages (before ++ (pieces ++ after)) := by
  have hapart := h.apart
  rw [map_append, map_cons] at hapart
  have hinRange : Set.Ico first (first + numberOfPages) ⊆ pages.span.range :=
    Set.Ico_subset_Ico htaken.start_le htaken.le_stop
  constructor
  case mapOk =>
    constructor
    case node =>
      intro node hnode
      rcases mem_append.mp hnode with hnode | hnode
      · exact h.node node (mem_append_left _ hnode)
      · rcases mem_append.mp hnode with hnode | hnode
        · exact htaken.node node hnode
        · exact h.node node (mem_append_right _ (mem_cons_of_mem _ hnode))
    case apart =>
      rw [map_append, map_append]
      exact hapart.cut htaken.apart htaken.inside
  case run =>
    intro x hx
    rw [freePages, map_append, map_cons, cover_append, cover_cons]
    exact Or.inr (Or.inl (hinRange hx))
  case pages =>
    rw [freePages, freePages, map_append, map_append, map_append, map_cons]
    exact hapart.cover_cut htaken.cover hinRange

theorem MapOk.exists_node
    (h : MapOk nodes)
    (hpos : 0 < numberOfPages)
    (hrun : Set.Ico first (first + numberOfPages) ⊆ freePages nodes) :
    ∃ node ∈ nodes, node.span.start ≤ first ∧ first + numberOfPages ≤ node.span.stop := by
  obtain ⟨s, hs, hstart, hstop⟩ :=
    h.apart.exists_span (Nat.lt_add_of_pos_right hpos) hrun
  obtain ⟨node, hnode, rfl⟩ := mem_map.mp hs
  exact ⟨node, hnode, hstart, hstop⟩

/-- The node can serve a request below a maximal address. -/
def Serves (pages : FreePageList) (numberOfPages maxAddress : Nat) : Prop :=
  numberOfPages ≤ pages.numberOfPages ∧
    (pages.span.start + numberOfPages) * 4096 ≤ maxAddress + 1

theorem serves_iff
    (h : NodeOk pages)
    (hpos : 0 < numberOfPages) :
    (pages.numberOfPages ≥ numberOfPages ∧
      sub64 (add64 pages.address (efiPagesToSize numberOfPages)) 1 ≤ maxAddress) ↔
      Serves pages numberOfPages maxAddress := by
  refine and_congr_right fun hcount => ?_
  have hlt : pages.span.start + numberOfPages < 2 ^ 52 :=
    lt_of_le_of_lt (Nat.add_le_add_left hcount _) h.high_eq
  have hbytes : (pages.span.start + numberOfPages) * 4096 < 2 ^ 64 := page_lt_iff.mpr hlt
  have hsize : efiPagesToSize numberOfPages = numberOfPages * 4096 := by
    have hsmall : numberOfPages < 2 ^ 52 := lt_of_le_of_lt (Nat.le_add_left _ _) hlt
    rw [efiPagesToSize, efiPageSize_eq', Nat.mod_eq_of_lt (page_lt_iff.mpr hsmall)]
  have hsum : add64 pages.address (efiPagesToSize numberOfPages) =
      (pages.span.start + numberOfPages) * 4096 := by
    rw [add64, hsize, h.address_eq, ← Nat.add_mul, Nat.mod_eq_of_lt hbytes]
  have hbytesPos : 0 < (pages.span.start + numberOfPages) * 4096 :=
    Nat.mul_pos (Nat.add_pos_right _ hpos) (Nat.succ_pos 4095)
  have hpred : ∀ b, 0 < b → b < 2 ^ 64 → sub64 b 1 = b - 1 := by
    intro b hb hb'
    unfold sub64
    omega
  rw [hsum, hpred _ hbytesPos hbytes]
  exact Nat.sub_le_iff_le_add

theorem allocMaxAddressLoop_spec
    (h : MapOk (before.reverse ++ after))
    (hpos : 0 < numberOfPages)
    (hmax : maxAddress < 2 ^ 64) :
    (∃ first nodes', allocMaxAddressLoop numberOfPages maxAddress before after =
        (first * 4096, some nodes') ∧
      Allocated (before.reverse ++ after) first numberOfPages nodes' ∧
      (first + numberOfPages) * 4096 ≤ maxAddress + 1) ∨
    (allocMaxAddressLoop numberOfPages maxAddress before after =
        (noAddress, some (before.reverse ++ after)) ∧
      ∀ pages ∈ before, ¬ Serves pages numberOfPages maxAddress) := by
  induction before generalizing after with
  | nil => exact Or.inr ⟨rfl, fun _ hpages => absurd hpages not_mem_nil⟩
  | cons pages before ih =>
      rw [reverse_cons, append_assoc, singleton_append] at h ⊢
      have hnode : NodeOk pages := h.node pages (by simp)
      rw [allocMaxAddressLoop]
      split
      case isTrue htest =>
        obtain ⟨hcount, hfit⟩ := (serves_iff hnode hpos).mp htest
        obtain ⟨first, pieces, hresult, htaken, hbelow, -⟩ :=
          internalAllocPagesOnOneNode_spec hnode hpos hcount hmax hfit
        refine Or.inl ⟨first, before.reverse ++ (pieces ++ after), ?_,
          allocated_of_taken h htaken, hbelow⟩
        rw [hresult]
        rfl
      case isFalse htest =>
        have hserves : ¬ Serves pages numberOfPages maxAddress :=
          fun hserves => htest ((serves_iff hnode hpos).mpr hserves)
        rcases ih h with hfound | ⟨hresult, hnone⟩
        · exact Or.inl hfound
        · exact Or.inr ⟨hresult, forall_mem_cons.mpr ⟨hserves, hnone⟩⟩

/-- The loop of `InternalAllocAddress` takes the run at the address, or leaves the list. -/
theorem allocAddressLoop_spec
    {page : Nat}
    (h : MapOk (before.reverse ++ after))
    (hpos : 0 < numberOfPages)
    (hend : page + numberOfPages < 2 ^ 52) :
    (∃ nodes', allocAddressLoop numberOfPages (page * 4096) ((page + numberOfPages) * 4096)
        before after = (page * 4096, some nodes') ∧
      Allocated (before.reverse ++ after) page numberOfPages nodes') ∨
    allocAddressLoop numberOfPages (page * 4096) ((page + numberOfPages) * 4096) before after =
      (complement (page * 4096), some (before.reverse ++ after)) := by
  induction before generalizing after with
  | nil => exact Or.inr rfl
  | cons pages before ih =>
      rw [reverse_cons, append_assoc, singleton_append] at h ⊢
      have hnode : NodeOk pages := h.node pages (by simp)
      have haddress := hnode.address_eq
      rw [allocAddressLoop]
      split
      case isFalse => exact ih h
      case isTrue hle =>
        rw [hnode.end_eq]
        split
        case isTrue =>
          refine Or.inr ?_
          rw [reverse_cons, append_assoc, singleton_append]
        case isFalse hcovers =>
          rw [haddress] at hle
          have hstart : pages.span.start ≤ page := Nat.le_of_mul_le_mul_right hle (by omega)
          have hlast : page + numberOfPages ≤ pages.span.stop :=
            Nat.le_of_mul_le_mul_right (not_lt.mp hcovers) (by omega)
          have hcount : numberOfPages ≤ pages.numberOfPages := by
            have heq : pages.span.stop = pages.span.start + pages.numberOfPages := rfl
            omega
          obtain ⟨first, pieces, hresult, htaken, hbelow, habove⟩ :=
            internalAllocPagesOnOneNode_spec hnode hpos hcount (page_lt_iff.mpr hend)
              ((Nat.mul_le_mul_right 4096 (Nat.add_le_add_right hstart _)).trans (Nat.le_succ _))
          have hfirst : first = page := by
            rcases habove with hstop' | hlt
            · omega
            · omega
          subst hfirst
          refine Or.inl ⟨before.reverse ++ (pieces ++ after), ?_, allocated_of_taken h htaken⟩
          rw [hresult]
          rfl

end Allocated

section Services

variable {nodes : List FreePageList} {type : EfiAllocateType} {memoryType : UInt32}
  {numberOfPages memory : Nat}

/-- The constraint of a request on the first page. -/
def Fits (type : EfiAllocateType) (memory numberOfPages first : Nat) : Prop :=
  match type with
  | .allocateAnyPages => True
  | .allocateMaxAddress => (first + numberOfPages) * 4096 ≤ memory + 1
  | .allocateAddress => first * 4096 = memory
  | .other => False

/-- A result of `SmmInternalAllocatePages` that agrees with the allocator of page sets. -/
structure AllocateOk (nodes : List FreePageList) (type : EfiAllocateType) (memoryType : UInt32)
    (numberOfPages memory : Nat) (result : PageResult) : Prop where
  allocated : result.status = .success → ∃ first nodes', result.memory = first * 4096 ∧
    result.map = some nodes' ∧ Allocated nodes first numberOfPages nodes' ∧
      Fits type memory numberOfPages first
  unchanged : result.status ≠ .success → result.map = some nodes
  none : result.status ≠ .success →
    type = .allocateAnyPages ∨ type = .allocateMaxAddress →
    memoryType = efiRuntimeServicesCode ∨ memoryType = efiRuntimeServicesData →
    ∀ first, Set.Ico first (first + numberOfPages) ⊆ freePages nodes →
      ¬ Fits type memory numberOfPages first

theorem page_ne_noAddress
    {first : Nat} :
    first * 4096 ≠ noAddress := by
  intro h
  have hmod := congrArg (· % 4096) h
  simp only [Nat.mul_mod_left, noAddress] at hmod
  norm_num at hmod

theorem complement_ne
    {page : Nat}
    (hpage : page < 2 ^ 52) :
    complement (page * 4096) ≠ page * 4096 := by
  intro h
  unfold complement at h
  omega

theorem allocateBelow_ok
    (h : MapOk nodes)
    (hpos : 0 < numberOfPages)
    {maxAddress : Nat}
    (hmax : maxAddress < 2 ^ 64) :
    ((allocateBelow nodes numberOfPages maxAddress).status = .success ∧
      ∃ first nodes', (allocateBelow nodes numberOfPages maxAddress).memory = first * 4096 ∧
        (allocateBelow nodes numberOfPages maxAddress).map = some nodes' ∧
        Allocated nodes first numberOfPages nodes' ∧
        (first + numberOfPages) * 4096 ≤ maxAddress + 1) ∨
    ((allocateBelow nodes numberOfPages maxAddress).status = .outOfResources ∧
      (allocateBelow nodes numberOfPages maxAddress).map = some nodes ∧
      ∀ first, Set.Ico first (first + numberOfPages) ⊆ freePages nodes →
        ¬ (first + numberOfPages) * 4096 ≤ maxAddress + 1) := by
  have hmap : MapOk (nodes.reverse.reverse ++ []) := by
    rwa [reverse_reverse, append_nil]
  rcases allocMaxAddressLoop_spec hmap hpos hmax with
    ⟨first, nodes', hresult, hallocated, hbelow⟩ | ⟨hresult, hnone⟩
  · rw [reverse_reverse, append_nil] at hallocated
    simp only [allocateBelow, internalAllocMaxAddress, hresult, if_neg page_ne_noAddress]
    exact Or.inl ⟨trivial, first, nodes', rfl, rfl, hallocated, hbelow⟩
  · rw [reverse_reverse, append_nil] at hresult
    simp only [allocateBelow, internalAllocMaxAddress, hresult, if_true]
    refine Or.inr ⟨trivial, trivial, ?_⟩
    intro first hrun hbelow
    obtain ⟨node, hnode, hstart, hstop⟩ := h.exists_node hpos hrun
    have hstop' : first + numberOfPages ≤ node.span.start + node.numberOfPages := hstop
    refine hnone node (mem_reverse.mpr hnode) ⟨by omega, ?_⟩
    exact (Nat.mul_le_mul_right 4096 (Nat.add_le_add_right hstart numberOfPages)).trans hbelow

/-- What a caller of `SmmInternalAllocatePages` keeps to: it asks for some page, and an
address with its pages does not pass the end of the address space. -/
structure AllocateRequestOk (type : EfiAllocateType) (numberOfPages memory : Nat) : Prop where
  positive : 0 < numberOfPages
  uintn : memory < 2 ^ 64
  noWrap : type = .allocateAddress → memory % efiPageSize = 0 → numberOfPages ≤ 2 ^ 52 →
    memory + numberOfPages * efiPageSize < 2 ^ 64

theorem allocateAt_ok
    (h : MapOk nodes)
    (hrequest : AllocateRequestOk .allocateAddress numberOfPages memory)
    (hcount : numberOfPages ≤ 2 ^ 52) :
    ((allocateAt nodes numberOfPages memory).status = .success ∧
      ∃ first nodes', (allocateAt nodes numberOfPages memory).memory = first * 4096 ∧
        (allocateAt nodes numberOfPages memory).map = some nodes' ∧
        Allocated nodes first numberOfPages nodes' ∧ first * 4096 = memory) ∨
    ((allocateAt nodes numberOfPages memory).status = .notFound ∧
      (allocateAt nodes numberOfPages memory).map = some nodes) := by
  by_cases haligned : memory % efiPageSize = 0
  · have hend := hrequest.noWrap rfl haligned hcount
    obtain ⟨page, rfl⟩ : ∃ page, memory = page * 4096 := by
      rw [efiPageSize_eq'] at haligned
      exact ⟨memory / 4096, (Nat.div_mul_cancel (Nat.dvd_of_mod_eq_zero haligned)).symm⟩
    rw [efiPageSize_eq', ← Nat.add_mul, page_lt_iff] at hend
    have hsize : efiPagesToSize numberOfPages = numberOfPages * 4096 := by
      rw [efiPagesToSize, efiPageSize_eq', Nat.mod_eq_of_lt (page_lt_iff.mpr (by omega))]
    have hadd : add64 (page * 4096) (efiPagesToSize numberOfPages) =
        (page + numberOfPages) * 4096 := by
      rw [hsize, add64, ← Nat.add_mul, Nat.mod_eq_of_lt (page_lt_iff.mpr hend)]
    have hmap : MapOk (nodes.reverse.reverse ++ []) := by
      rwa [reverse_reverse, append_nil]
    have hloop : internalAllocAddress nodes numberOfPages (page * 4096) =
        allocAddressLoop numberOfPages (page * 4096) ((page + numberOfPages) * 4096)
          nodes.reverse [] := by
      rw [internalAllocAddress, if_neg (not_not.mpr haligned), hadd]
    rcases allocAddressLoop_spec hmap hrequest.positive hend with
      ⟨nodes', hresult, hallocated⟩ | hresult
    · rw [reverse_reverse, append_nil] at hallocated
      simp only [allocateAt, hloop, hresult, ne_eq, not_true, if_false]
      exact Or.inl ⟨trivial, page, nodes', rfl, rfl, hallocated, rfl⟩
    · rw [reverse_reverse, append_nil] at hresult
      simp only [allocateAt, hloop, hresult]
      rw [if_pos (complement_ne (by omega))]
      exact Or.inr ⟨rfl, rfl⟩
  · have hodd : complement memory ≠ memory := by
      have hlt := hrequest.uintn
      unfold complement
      omega
    simp only [allocateAt, internalAllocAddress, if_pos haligned]
    rw [if_pos hodd]
    exact Or.inr ⟨rfl, rfl⟩

/-- `SmmInternalAllocatePages` agrees with the allocator of page sets. -/
theorem smmInternalAllocatePages_ok
    (h : MapOk nodes)
    (hrequest : AllocateRequestOk type numberOfPages memory) :
    AllocateOk nodes type memoryType numberOfPages memory
      (smmInternalAllocatePages nodes type memoryType numberOfPages memory) := by
  have hlimit : truncateToPages noAddress + 1 = 2 ^ 52 := by
    rw [truncateToPages, noAddress, efiPageSize_eq']
    norm_num
  unfold smmInternalAllocatePages
  rw [hlimit]
  split_ifs with hmemoryType hcount
  · refine ⟨fun hfalse => EfiStatus.noConfusion hfalse, fun _ => rfl, ?_⟩
    rintro - - (rfl | rfl)
    · exact absurd rfl hmemoryType.1
    · exact absurd rfl hmemoryType.2
  · refine ⟨fun hfalse => EfiStatus.noConfusion hfalse, fun _ => rfl, ?_⟩
    intro _ _ _ first hrun _
    obtain ⟨node, hnode, hstart, hstop⟩ := h.exists_node hrequest.positive hrun
    have hhigh := (h.node node hnode).high_eq
    omega
  · have hcount' : numberOfPages ≤ 2 ^ 52 := not_lt.mp hcount
    cases type with
    | allocateAnyPages =>
        have hmax : noAddress < 2 ^ 64 := by
          unfold noAddress
          omega
        rcases allocateBelow_ok h hrequest.positive hmax with
          ⟨hstatus, first, nodes', hmemory, hmap, hallocated, -⟩ | ⟨hstatus, hmap, hnone⟩
        · refine ⟨fun _ => ⟨first, nodes', hmemory, hmap, hallocated, trivial⟩, ?_, ?_⟩
          · exact fun hne => absurd hstatus hne
          · exact fun hne => absurd hstatus hne
        · refine ⟨fun hs => EfiStatus.noConfusion (hstatus.symm.trans hs), fun _ => hmap, ?_⟩
          intro _ _ _ first hrun _
          refine hnone first hrun ?_
          obtain ⟨node, hnode, -, hstop⟩ := h.exists_node hrequest.positive hrun
          have hhigh := lt_of_le_of_lt hstop (h.node node hnode).high_eq
          have hbytes := page_lt_iff.mpr hhigh
          have hall : noAddress + 1 = 2 ^ 64 := by
            unfold noAddress
            norm_num
          rw [hall]
          exact le_of_lt hbytes
    | allocateMaxAddress =>
        rcases allocateBelow_ok h hrequest.positive hrequest.uintn with
          ⟨hstatus, first, nodes', hmemory, hmap, hallocated, hbelow⟩ | ⟨hstatus, hmap, hnone⟩
        · refine ⟨fun _ => ⟨first, nodes', hmemory, hmap, hallocated, hbelow⟩, ?_, ?_⟩
          · exact fun hne => absurd hstatus hne
          · exact fun hne => absurd hstatus hne
        · exact ⟨fun hs => EfiStatus.noConfusion (hstatus.symm.trans hs), fun _ => hmap,
            fun _ _ _ first hrun => hnone first hrun⟩
    | allocateAddress =>
        rcases allocateAt_ok h hrequest hcount' with
          ⟨hstatus, first, nodes', hmemory, hmap, hallocated, hfirst⟩ | ⟨hstatus, hmap⟩
        · refine ⟨fun _ => ⟨first, nodes', hmemory, hmap, hallocated, hfirst⟩, ?_, ?_⟩
          · exact fun hne => absurd hstatus hne
          · exact fun hne => absurd hstatus hne
        · refine ⟨fun hs => EfiStatus.noConfusion (hstatus.symm.trans hs), fun _ => hmap, ?_⟩
          rintro - (htype | htype)
          · exact EfiAllocateType.noConfusion htype
          · exact EfiAllocateType.noConfusion htype
    | other =>
        refine ⟨fun hfalse => EfiStatus.noConfusion hfalse, fun _ => rfl, ?_⟩
        exact fun _ _ _ _ _ hfits => hfits

end Services

end PiSmmCore
end Udk
