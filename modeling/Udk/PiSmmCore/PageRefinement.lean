import Udk.PiSmmCore.Page
import Udk.SpanList

/-!
# The page services refine an allocator of page sets

A list of nodes stands for the set of the pages in its nodes.  Each service is compared
with what it does to that set.
-/

namespace Udk
namespace PiSmmCore

open PropertiesTable Span List

section Nodes

/-- The pages of a node. -/
def FreePageList.span (node : FreePageList) : Span :=
  ⟨node.address / efiPageSize, node.numberOfPages⟩

/-- A node on a page boundary, neither at address zero nor up to the end of the address
space. -/
structure NodeOk (node : FreePageList) : Prop where
  aligned : node.address % efiPageSize = 0
  nonzero : 0 < node.address
  high : node.address + node.numberOfPages * efiPageSize < 2 ^ 64

/-- The list is sorted, and its nodes are non-empty and neither overlap nor touch. -/
structure MapOk (nodes : List FreePageList) : Prop where
  node : ∀ node ∈ nodes, NodeOk node
  apart : Span.Apart (nodes.map FreePageList.span)

/-- The pages in the nodes of a list. -/
def freePages (nodes : List FreePageList) : Set Nat :=
  cover (nodes.map FreePageList.span)

variable {node pages : FreePageList} {nodes before after : List FreePageList}
  {numberOfPages maxAddress address : Nat}

theorem efiPageSize_eq' : efiPageSize = 4096 := rfl

theorem page_lt_iff
    {page : Nat} :
    page * 4096 < 2 ^ 64 ↔ page < 2 ^ 52 := by
  have hsplit : 2 ^ 64 = 2 ^ 52 * 4096 := by norm_num
  rw [hsplit]
  exact Nat.mul_lt_mul_right (by omega)

theorem NodeOk.address_eq
    (h : NodeOk node) :
    node.address = node.span.start * 4096 := by
  have haligned := h.aligned
  simp only [FreePageList.span, efiPageSize_eq'] at haligned ⊢
  omega

theorem NodeOk.high_eq
    (h : NodeOk node) :
    node.span.stop < 2 ^ 52 := by
  have haddress := h.address_eq
  have hhigh := h.high
  rw [haddress, efiPageSize_eq', ← Nat.add_mul, page_lt_iff] at hhigh
  exact hhigh

theorem NodeOk.end_eq
    (h : NodeOk node) :
    add64 node.address (efiPagesToSize node.numberOfPages) = node.span.stop * 4096 := by
  have hlt := h.high_eq
  have hcount : node.numberOfPages ≤ node.span.stop := Nat.le_add_left _ _
  rw [efiPagesToSize, efiPageSize_eq',
    Nat.mod_eq_of_lt (page_lt_iff.mpr (lt_of_le_of_lt hcount hlt)), add64, h.address_eq,
    ← Nat.add_mul]
  exact Nat.mod_eq_of_lt (page_lt_iff.mpr hlt)

theorem nodeOk_of_page
    {first count : Nat}
    (hfirst : 0 < first)
    (hhigh : first + count < 2 ^ 52) :
    NodeOk ⟨first * 4096, count⟩ := by
  constructor
  case aligned => exact Nat.mul_mod_left first 4096
  case nonzero =>
    change 0 < first * 4096
    omega
  case high =>
    simp only [efiPageSize_eq']
    rw [← Nat.add_mul, page_lt_iff]
    exact hhigh

theorem span_of_page
    {first count : Nat} :
    (⟨first * 4096, count⟩ : FreePageList).span = ⟨first, count⟩ := by
  simp only [FreePageList.span, efiPageSize_eq']
  rw [Nat.mul_div_cancel first (by omega)]

end Nodes

section OneNode

variable {pages : FreePageList} {numberOfPages maxAddress : Nat}

/-- What is left of a node when the pages from `first` on are taken. -/
structure Taken (pages : FreePageList) (first numberOfPages : Nat)
    (pieces : List FreePageList) : Prop where
  start_le : pages.span.start ≤ first
  le_stop : first + numberOfPages ≤ pages.span.stop
  node : ∀ node ∈ pieces, NodeOk node
  apart : Span.Apart (pieces.map FreePageList.span)
  inside : ∀ s ∈ pieces.map FreePageList.span,
    pages.span.start ≤ s.start ∧ s.stop ≤ pages.span.stop
  cover : freePages pieces = pages.span.range \ Set.Ico first (first + numberOfPages)

/-- The pages between two cuts of a node are taken. -/
theorem taken_of_cuts
    {start count bottom top : Nat}
    (hstart : 0 < start)
    (hhigh : start + count < 2 ^ 52)
    (hbottom : bottom < top)
    (htop : top ≤ count) :
    Taken ⟨start * 4096, count⟩ (start + bottom) (top - bottom)
      ((if bottom > 0 then [⟨start * 4096, bottom⟩] else []) ++
        (if top < count then [⟨(start + top) * 4096, count - top⟩] else [])) := by
  constructor
  case start_le =>
    rw [span_of_page]
    exact Nat.le_add_right start bottom
  case le_stop =>
    rw [span_of_page]
    change start + bottom + (top - bottom) ≤ start + count
    omega
  case node =>
    intro node hnode
    rcases mem_append.mp hnode with hnode | hnode
    · split at hnode
      · rw [mem_singleton.mp hnode]
        exact nodeOk_of_page hstart (by omega)
      · exact absurd hnode not_mem_nil
    · split at hnode
      · rw [mem_singleton.mp hnode]
        exact nodeOk_of_page (by omega) (by omega)
      · exact absurd hnode not_mem_nil
  case apart =>
    rw [map_append, Span.Apart.append_iff]
    refine ⟨?_, ?_, ?_⟩
    · split
      case isTrue hpos =>
        rw [map_singleton, span_of_page]
        exact Span.Apart.singleton hpos
      case isFalse => exact Span.Apart.nil
    · split
      case isTrue hlt =>
        rw [map_singleton, span_of_page]
        exact Span.Apart.singleton (Nat.sub_pos_of_lt hlt)
      case isFalse => exact Span.Apart.nil
    · intro s hs t ht
      split at hs
      case isTrue hpos =>
        split at ht
        case isTrue hlt =>
          rw [map_singleton, span_of_page, mem_singleton] at hs ht
          subst hs ht
          change start + bottom < start + top
          omega
        case isFalse => exact absurd ht not_mem_nil
      case isFalse => exact absurd hs not_mem_nil
  case inside =>
    intro s hs
    rw [span_of_page, map_append] at *
    rcases mem_append.mp hs with hs | hs
    · split at hs
      · rw [map_singleton, span_of_page, mem_singleton] at hs
        subst hs
        change start ≤ start ∧ start + bottom ≤ start + count
        omega
      · exact absurd hs not_mem_nil
    · split at hs
      · rw [map_singleton, span_of_page, mem_singleton] at hs
        subst hs
        change start ≤ start + top ∧ start + top + (count - top) ≤ start + count
        omega
      · exact absurd hs not_mem_nil
  case cover =>
    rw [freePages, map_append, cover_append, span_of_page]
    ext x
    have hlow : x ∈ Span.cover ((if bottom > 0 then [⟨start * 4096, bottom⟩]
        else [] : List FreePageList).map FreePageList.span) ↔
        start ≤ x ∧ x < start + bottom := by
      split
      case isTrue hpos =>
        rw [map_singleton, span_of_page, cover_cons, cover_nil, Set.union_empty]
        exact Iff.rfl
      case isFalse hzero =>
        rw [map_nil, cover_nil]
        simp only [Set.mem_empty_iff_false, false_iff]
        omega
    have hhigh' : x ∈ Span.cover ((if top < count then [⟨(start + top) * 4096, count - top⟩]
        else [] : List FreePageList).map FreePageList.span) ↔
        start + top ≤ x ∧ x < start + count := by
      split
      case isTrue hlt =>
        rw [map_singleton, span_of_page, cover_cons, cover_nil, Set.union_empty]
        change start + top ≤ x ∧ x < start + top + (count - top) ↔ _
        rw [show start + top + (count - top) = start + count by omega]
      case isFalse hge =>
        rw [map_nil, cover_nil]
        simp only [Set.mem_empty_iff_false, false_iff]
        omega
    rw [Set.mem_union, hlow, hhigh', Set.mem_sdiff, Span.mem_range]
    change _ ↔ (start ≤ x ∧ x < start + count) ∧
      ¬ (start + bottom ≤ x ∧ x < start + bottom + (top - bottom))
    omega

/-- `InternalAllocPagesOnOneNode` takes the highest pages of a node that end below the
maximal address. -/
theorem internalAllocPagesOnOneNode_spec
    (h : NodeOk pages)
    (hpos : 0 < numberOfPages)
    (hcount : numberOfPages ≤ pages.numberOfPages)
    (hmax : maxAddress < 2 ^ 64)
    (hfit : (pages.span.start + numberOfPages) * 4096 ≤ maxAddress + 1) :
    ∃ first pieces,
      internalAllocPagesOnOneNode pages numberOfPages maxAddress =
        (first * 4096, some pieces) ∧
      Taken pages first numberOfPages pieces ∧
      (first + numberOfPages) * 4096 ≤ maxAddress + 1 ∧
      (first + numberOfPages = pages.span.stop ∨
        maxAddress + 1 < (first + numberOfPages + 1) * 4096) := by
  have haddress := h.address_eq
  have hhigh : pages.span.start + pages.numberOfPages < 2 ^ 52 := h.high_eq
  have hnonzero := h.nonzero
  obtain ⟨address, count⟩ := pages
  generalize hstart : (⟨address, count⟩ : FreePageList).span.start = start at *
  change address = start * 4096 at haddress
  change numberOfPages ≤ count at hcount
  change start + count < 2 ^ 52 at hhigh
  change 0 < address at hnonzero
  subst haddress
  have hstartPos : 0 < start := by omega
  -- `MaxAddress + 1` may wrap to zero, the difference is the same
  have hroom : sub64 (add64 maxAddress 1) (start * 4096) = maxAddress + 1 - start * 4096 := by
    unfold sub64 add64
    omega
  obtain ⟨top, htop⟩ : ∃ top, (if truncateToPages (maxAddress + 1 - start * 4096) > count
      then count else truncateToPages (maxAddress + 1 - start * 4096)) = top := ⟨_, rfl⟩
  have htrunc : truncateToPages (maxAddress + 1 - start * 4096) =
      (maxAddress + 1 - start * 4096) / 4096 := by
    rw [truncateToPages, efiPageSize_eq']
  have htopCount : top ≤ count := by
    rw [← htop]
    split <;> omega
  have hstartRoom : start * 4096 ≤ maxAddress + 1 :=
    (Nat.mul_le_mul_right 4096 (Nat.le_add_right start numberOfPages)).trans hfit
  have htopRoom : (start + top) * 4096 ≤ maxAddress + 1 := by
    have hquotient : top ≤ (maxAddress + 1 - start * 4096) / 4096 := by
      rw [← htop, htrunc]
      split
      case isTrue hlt => exact le_of_lt hlt
      case isFalse => exact le_refl _
    have hmul := Nat.mul_le_of_le_div 4096 top _ hquotient
    rw [Nat.add_mul]
    exact Nat.add_le_of_le_sub' hstartRoom hmul
  have htopMax : top = count ∨ maxAddress + 1 < (start + top + 1) * 4096 := by
    rw [← htop, htrunc]
    split
    · exact Or.inl rfl
    · right
      omega
  have hle : numberOfPages ≤ top := by
    have hroom' : numberOfPages * 4096 ≤ maxAddress + 1 - start * 4096 := by
      rw [Nat.add_mul] at hfit
      exact Nat.le_sub_of_add_le' hfit
    rw [← htop, htrunc]
    split
    · exact hcount
    · exact (Nat.le_div_iff_mul_le (by omega)).mpr hroom'
  have hbottom : sub64 top numberOfPages = top - numberOfPages := by
    unfold sub64
    omega
  have hsize : ∀ n, n ≤ count → efiPagesToSize n = n * 4096 := by
    intro n hn
    have hlt : n * 4096 < 2 ^ 64 := page_lt_iff.mpr (by omega)
    rw [efiPagesToSize, efiPageSize_eq', Nat.mod_eq_of_lt hlt]
  refine ⟨start + (top - numberOfPages),
    (if top - numberOfPages > 0 then [⟨start * 4096, top - numberOfPages⟩] else []) ++
      (if top < count then [⟨(start + top) * 4096, count - top⟩] else []), ?_, ?_, ?_, ?_⟩
  · have hself : ¬ (top < count ∧ efiPagesToSize top = 0) := by
      rw [hsize top htopCount]
      omega
    have hnode : add64 (start * 4096) (efiPagesToSize top) = (start + top) * 4096 := by
      rw [hsize top htopCount]
      unfold add64
      omega
    have hresult : add64 (start * 4096) (efiPagesToSize (top - numberOfPages)) =
        (start + (top - numberOfPages)) * 4096 := by
      rw [hsize _ ((Nat.sub_le top numberOfPages).trans htopCount)]
      unfold add64
      omega
    have hrest : sub64 count top = count - top := by
      unfold sub64
      omega
    simp only [internalAllocPagesOnOneNode, hroom, htop, hbottom, remainingNodes, if_neg hself,
      hnode, hresult, hrest]
  · have htaken := @taken_of_cuts start count (top - numberOfPages) top hstartPos hhigh
      (by omega) htopCount
    rwa [show top - (top - numberOfPages) = numberOfPages by omega] at htaken
  · rw [show start + (top - numberOfPages) + numberOfPages = start + top by omega]
    exact htopRoom
  · rw [show start + (top - numberOfPages) + numberOfPages = start + top by omega]
    rcases htopMax with rfl | hlt
    · exact Or.inl (by rw [span_of_page]; rfl)
    · exact Or.inr hlt

end OneNode

end PiSmmCore
end Udk
