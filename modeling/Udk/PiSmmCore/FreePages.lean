import Udk.PiSmmCore.PageRefinement
import Mathlib.Data.List.TakeWhile

/-!
# Freeing of SMRAM pages

`SmmInternalFreePages` inserts a node and joins it with its neighbours where they touch;
`SmmAddMemoryRegion` frees the whole pages of a region.
-/

namespace Udk
namespace PiSmmCore

open PropertiesTable Span List

section Merge

variable {nodes before after : List FreePageList} {node first next : FreePageList}

theorem freePages_append :
    freePages (before ++ after) = freePages before ∪ freePages after := by
  rw [freePages, map_append, cover_append]
  rfl

theorem freePages_cons :
    freePages (node :: nodes) = node.span.range ∪ freePages nodes := by
  rw [freePages, map_cons, cover_cons]
  rfl

theorem freePages_nil :
    freePages [] = ∅ :=
  cover_nil

theorem mapOk_append :
    MapOk (before ++ after) ↔
      MapOk before ∧ MapOk after ∧
        ∀ s ∈ before, ∀ t ∈ after, s.span.stop < t.span.start := by
  constructor
  · intro h
    have hapart := h.apart
    rw [map_append, Span.Apart.append_iff] at hapart
    refine ⟨⟨fun s hs => h.node s (mem_append_left _ hs), hapart.1⟩,
      ⟨fun s hs => h.node s (mem_append_right _ hs), hapart.2.1⟩, ?_⟩
    exact fun s hs t ht => hapart.2.2 _ (mem_map_of_mem hs) _ (mem_map_of_mem ht)
  · rintro ⟨hbefore, hafter, hbetween⟩
    constructor
    case node =>
      intro s hs
      rcases mem_append.mp hs with hs | hs
      · exact hbefore.node s hs
      · exact hafter.node s hs
    case apart =>
      rw [map_append, Span.Apart.append_iff]
      refine ⟨hbefore.apart, hafter.apart, ?_⟩
      intro s hs t ht
      obtain ⟨first, hfirst, rfl⟩ := mem_map.mp hs
      obtain ⟨next, hnext, rfl⟩ := mem_map.mp ht
      exact hbetween first hfirst next hnext

theorem mapOk_singleton
    (h : NodeOk node)
    (hpos : 0 < node.numberOfPages) :
    MapOk [node] :=
  ⟨forall_mem_singleton.mpr h, Span.Apart.singleton hpos⟩

theorem MapOk.pos
    (h : MapOk nodes)
    (hnode : node ∈ nodes) :
    0 < node.numberOfPages :=
  h.apart.1 _ (mem_map_of_mem hnode)

theorem internalMergeNodes_eq
    (hfirst : NodeOk first)
    (hnext : NodeOk next)
    (hle : first.span.stop ≤ next.span.start) :
    internalMergeNodes first next =
      if first.span.stop = next.span.start then
        [⟨first.span.start * 4096, first.numberOfPages + next.numberOfPages⟩]
      else [first, next] := by
  have hfirstAddress := hfirst.address_eq
  have hnextAddress := hnext.address_eq
  have hstop : first.span.stop = first.span.start + first.numberOfPages := rfl
  have hnextStop : next.span.stop = next.span.start + next.numberOfPages := rfl
  have hhigh := hnext.high_eq
  have hdiff : sub64 next.address first.address =
      (next.span.start - first.span.start) * 4096 := by
    have hstart : first.span.start * 4096 ≤ next.span.start * 4096 :=
      Nat.mul_le_mul_right 4096 (by omega)
    have hbytes : next.span.start * 4096 < 2 ^ 64 := page_lt_iff.mpr (by omega)
    rw [sub64, hnextAddress, hfirstAddress, Nat.sub_mul]
    omega
  have htrunc : truncateToPages (sub64 next.address first.address) =
      next.span.start - first.span.start := by
    rw [hdiff, truncateToPages, efiPageSize_eq', Nat.mul_div_cancel _ (Nat.succ_pos 4095)]
  have hsum : add64 first.numberOfPages next.numberOfPages =
      first.numberOfPages + next.numberOfPages := by
    unfold add64
    omega
  rw [internalMergeNodes, htrunc, hsum, ← hfirstAddress]
  by_cases htouch : first.span.stop = next.span.start
  · rw [if_pos htouch, if_pos (by omega)]
  · rw [if_neg htouch, if_neg (by omega)]

/-- What a merge at the end of a list leaves: the pages of the list and of the node, and
no node that ends behind the new one. -/
structure Extended (before : List FreePageList) (node : FreePageList)
    (nodes : List FreePageList) : Prop where
  mapOk : MapOk nodes
  pages : freePages nodes = freePages before ∪ node.span.range
  le_stop : ∀ t ∈ nodes, t.span.stop ≤ node.span.stop

theorem mergeBehind_extended
    (hbefore : MapOk before)
    (hnode : NodeOk node)
    (hpos : 0 < node.numberOfPages)
    (hle : ∀ t ∈ before, t.span.stop ≤ node.span.start) :
    Extended before node (mergeBehind before node) := by
  have hstop : node.span.stop = node.span.start + node.numberOfPages := rfl
  rcases eq_nil_or_concat before with rfl | ⟨init, first, rfl⟩
  · refine ⟨mapOk_singleton hnode hpos, ?_, forall_mem_singleton.mpr (le_refl _)⟩
    change freePages [node] = _
    rw [freePages_cons, freePages_nil, Set.union_empty, Set.empty_union]
  · rw [concat_eq_append] at *
    obtain ⟨hinit, hfirstOk, hbetween⟩ := mapOk_append.mp hbefore
    have hfirstMem : first ∈ [first] := mem_singleton.mpr rfl
    have hfirst : NodeOk first := hfirstOk.node first hfirstMem
    have hfirstPos : 0 < first.numberOfPages := hfirstOk.pos hfirstMem
    have hfirstStop : first.span.stop = first.span.start + first.numberOfPages := rfl
    have hfirstLe : first.span.stop ≤ node.span.start :=
      hle first (mem_append_right _ hfirstMem)
    have hresult : mergeBehind (init ++ [first]) node = init ++ internalMergeNodes first node := by
      simp only [mergeBehind, reverse_append, reverse_cons, reverse_nil,
        nil_append, cons_append, reverse_reverse]
    have hinitLt : ∀ t ∈ init, t.span.stop < first.span.start :=
      fun t ht => hbetween t ht first hfirstMem
    rw [hresult, internalMergeNodes_eq hfirst hnode hfirstLe]
    split
    case isTrue htouch =>
      have hjoined : (⟨first.span.start * 4096, first.numberOfPages + node.numberOfPages⟩ :
          FreePageList).span = first.span.join node.span := span_of_page
      have hstart : 0 < first.span.start := by
        have hnonzero := hfirst.nonzero
        rw [hfirst.address_eq] at hnonzero
        omega
      have hhigh := hnode.high_eq
      have hjoinedOk : NodeOk
          ⟨first.span.start * 4096, first.numberOfPages + node.numberOfPages⟩ :=
        nodeOk_of_page hstart (by omega)
      constructor
      case mapOk =>
        refine mapOk_append.mpr ⟨hinit, mapOk_singleton hjoinedOk (Nat.add_pos_left hfirstPos _),
          ?_⟩
        intro s hs t ht
        rw [mem_singleton.mp ht, hjoined]
        exact hinitLt s hs
      case pages =>
        rw [freePages_append, freePages_append, freePages_cons, freePages_nil, freePages_cons,
          freePages_nil, Set.union_empty, Set.union_empty, hjoined, range_join htouch,
          Set.union_assoc]
      case le_stop =>
        intro t ht
        rcases mem_append.mp ht with ht | ht
        · have hlt := hinitLt t ht
          omega
        · rw [mem_singleton.mp ht, hjoined]
          change first.span.start + (first.numberOfPages + node.numberOfPages) ≤ node.span.stop
          omega
    case isFalse hapart =>
      have hlt : first.span.stop < node.span.start := lt_of_le_of_ne hfirstLe hapart
      have hlist : init ++ [first, node] = (init ++ [first]) ++ [node] := by simp
      rw [hlist]
      constructor
      case mapOk =>
        refine mapOk_append.mpr ⟨hbefore, mapOk_singleton hnode hpos, ?_⟩
        intro s hs t ht
        rw [mem_singleton.mp ht]
        rcases mem_append.mp hs with hs | hs
        · have hlt' := hinitLt s hs
          omega
        · rw [mem_singleton.mp hs]
          exact hlt
      case pages =>
        rw [freePages_append, freePages_cons, freePages_nil, Set.union_empty]
      case le_stop =>
        intro t ht
        rcases mem_append.mp ht with ht | ht
        · exact (hle t ht).trans (by omega)
        · rw [mem_singleton.mp ht]

theorem insertNode_spec
    (hnodes : MapOk (before ++ after))
    (hnode : NodeOk node)
    (hpos : 0 < node.numberOfPages)
    (hbefore : ∀ t ∈ before, t.span.stop ≤ node.span.start)
    (hafter : ∀ t ∈ after, node.span.stop ≤ t.span.start) :
    MapOk (insertNode before node after) ∧
      freePages (insertNode before node after) = freePages (before ++ after) ∪ node.span.range := by
  obtain ⟨hbeforeOk, hafterOk, -⟩ := mapOk_append.mp hnodes
  have hfirst := mergeBehind_extended hbeforeOk hnode hpos hbefore
  cases after with
  | nil =>
      rw [append_nil]
      exact ⟨hfirst.mapOk, hfirst.pages⟩
  | cons next rest =>
      have hnextMem : next ∈ next :: rest := mem_cons_self
      have hsecond := mergeBehind_extended hfirst.mapOk (hafterOk.node next hnextMem)
        (hafterOk.pos hnextMem)
        (fun t ht => (hfirst.le_stop t ht).trans (hafter next hnextMem))
      have hsplit : next :: rest = [next] ++ rest := rfl
      rw [hsplit] at hafterOk
      obtain ⟨-, hrest, hbetween⟩ := mapOk_append.mp hafterOk
      change MapOk (mergeBehind (mergeBehind before node) next ++ rest) ∧
        freePages (mergeBehind (mergeBehind before node) next ++ rest) = _
      constructor
      · refine mapOk_append.mpr ⟨hsecond.mapOk, hrest, ?_⟩
        intro s hs t ht
        exact lt_of_le_of_lt (hsecond.le_stop s hs)
          (hbetween next (mem_singleton.mpr rfl) t ht)
      · rw [freePages_append, hsecond.pages, hfirst.pages, freePages_append, freePages_cons]
        ext x
        simp only [Set.mem_union]
        tauto

end Merge

section Free

variable {nodes : List FreePageList} {page memory numberOfPages : Nat} {node : FreePageList}

theorem splitAtAddress_append :
    (splitAtAddress memory nodes).1.reverse ++ (splitAtAddress memory nodes).2 = nodes := by
  rw [splitAtAddress, reverse_reverse]
  exact takeWhile_append_dropWhile

theorem splitAtAddress_before
    (h : node ∈ (splitAtAddress memory nodes).1) :
    node.address ≤ memory := by
  rw [splitAtAddress, mem_reverse] at h
  have htest : decide (node.address ≤ memory) = true :=
    @mem_takeWhile_imp _ (fun pages => decide (pages.address ≤ memory)) nodes node h
  exact of_decide_eq_true htest

theorem splitAtAddress_after
    (h : (splitAtAddress memory nodes).2.head? = some node) :
    memory < node.address := by
  have hhead := head?_dropWhile_not (fun pages => decide (pages.address ≤ memory)) nodes
  rw [splitAtAddress] at h
  rw [h] at hhead
  exact not_le.mp (of_decide_eq_false hhead)

/-- A result of `SmmInternalFreePages` that agrees with the allocator of page sets. -/
structure FreeOk (nodes : List FreePageList) (page numberOfPages : Nat)
    (result : EfiStatus × MemoryMap) : Prop where
  freed : result.1 = .success → ∃ nodes', result.2 = some nodes' ∧ MapOk nodes' ∧
    Disjoint (freePages nodes) (Set.Ico page (page + numberOfPages)) ∧
    freePages nodes' = freePages nodes ∪ Set.Ico page (page + numberOfPages)
  refused : result.1 ≠ .success → result.2 = some nodes ∧
    ¬ Disjoint (freePages nodes) (Set.Ico page (page + numberOfPages))

theorem after_of_check
    {after : List FreePageList} {bound : Nat}
    (h : MapOk after)
    (hcheck : ¬ after.head?.any (fun node => decide (bound * 4096 > node.address)) = true) :
    ∀ t ∈ after, bound ≤ t.span.start := by
  cases after with
  | nil => exact fun t ht => absurd ht not_mem_nil
  | cons node rest =>
      simp only [head?_cons, Option.any_some, decide_eq_true_eq, not_lt] at hcheck
      have hsplit : node :: rest = [node] ++ rest := rfl
      have hnode : NodeOk node := h.node node mem_cons_self
      rw [hnode.address_eq] at hcheck
      have hle : bound ≤ node.span.start := Nat.le_of_mul_le_mul_right hcheck (Nat.succ_pos 4095)
      rw [hsplit] at h
      obtain ⟨-, -, hbetween⟩ := mapOk_append.mp h
      refine forall_mem_cons.mpr ⟨hle, fun t ht => ?_⟩
      have hlt := hbetween node (mem_singleton.mpr rfl) t ht
      have hstop : node.span.stop = node.span.start + node.numberOfPages := rfl
      omega

theorem before_of_check
    {before : List FreePageList}
    (h : MapOk before.reverse)
    (hcheck : ¬ before.head?.any (fun node =>
      decide (add64 node.address (efiPagesToSize node.numberOfPages) > page * 4096)) = true) :
    ∀ t ∈ before.reverse, t.span.stop ≤ page := by
  cases before with
  | nil => exact fun t ht => absurd ht not_mem_nil
  | cons last rest =>
      simp only [head?_cons, Option.any_some, decide_eq_true_eq, not_lt] at hcheck
      rw [reverse_cons] at h ⊢
      obtain ⟨-, hlast, hbetween⟩ := mapOk_append.mp h
      have hmem : last ∈ [last] := mem_singleton.mpr rfl
      rw [(hlast.node last hmem).end_eq] at hcheck
      have hle : last.span.stop ≤ page := Nat.le_of_mul_le_mul_right hcheck (Nat.succ_pos 4095)
      intro t ht
      rcases mem_append.mp ht with ht | ht
      · have hlt := hbetween t ht last hmem
        have hstop : last.span.stop = last.span.start + last.numberOfPages := rfl
        omega
      · rw [mem_singleton.mp ht]
        exact hle

theorem overlap_of_mem
    {x : Nat}
    (hnode : node ∈ nodes)
    (hstart : node.span.start ≤ x)
    (hstop : x < node.span.stop)
    (hpage : page ≤ x)
    (hlast : x < page + numberOfPages) :
    ¬ Disjoint (freePages nodes) (Set.Ico page (page + numberOfPages)) := by
  rw [Set.not_disjoint_iff]
  exact ⟨x, ⟨node.span, mem_map_of_mem hnode, hstart, hstop⟩, hpage, hlast⟩

/-- `SmmInternalFreePages` agrees with the allocator of page sets. -/
theorem smmInternalFreePages_ok
    (h : MapOk nodes)
    (hpage : 0 < page)
    (hpos : 0 < numberOfPages)
    (hend : page + numberOfPages < 2 ^ 52) :
    FreeOk nodes page numberOfPages (smmInternalFreePages nodes (page * 4096) numberOfPages) := by
  have haligned : page * 4096 % efiPageSize = 0 := Nat.mul_mod_left page 4096
  have hadd : add64 (page * 4096) (efiPagesToSize numberOfPages) =
      (page + numberOfPages) * 4096 := by
    rw [efiPagesToSize, efiPageSize_eq', Nat.mod_eq_of_lt (page_lt_iff.mpr (by omega)), add64,
      ← Nat.add_mul, Nat.mod_eq_of_lt (page_lt_iff.mpr hend)]
  have happend := @splitAtAddress_append nodes (page * 4096)
  obtain ⟨before, after, hpair⟩ :
      ∃ before after, splitAtAddress (page * 4096) nodes = (before, after) := ⟨_, _, rfl⟩
  rw [hpair] at happend
  have hmap : MapOk (before.reverse ++ after) := by rwa [happend]
  obtain ⟨hbeforeOk, hafterOk, -⟩ := mapOk_append.mp hmap
  unfold smmInternalFreePages
  rw [if_neg (not_not.mpr haligned), hadd, hpair]
  simp only
  split_ifs with hover hunder hsame
  · refine ⟨fun hfalse => EfiStatus.noConfusion hfalse, fun _ => ⟨rfl, ?_⟩⟩
    cases after with
    | nil => exact absurd hover Bool.false_ne_true
    | cons node rest =>
        have hnodeMem : node ∈ nodes := by
          rw [← happend]
          exact mem_append_right _ mem_cons_self
        have hgt : page * 4096 < node.address := splitAtAddress_after (by rw [hpair]; rfl)
        have hnodeAddress := (h.node node hnodeMem).address_eq
        simp only [head?_cons, Option.any_some, decide_eq_true_eq] at hover
        rw [hnodeAddress] at hgt hover
        refine overlap_of_mem hnodeMem (le_refl _) (Nat.lt_add_of_pos_right (h.pos hnodeMem)) ?_ ?_
        · exact le_of_lt (Nat.lt_of_mul_lt_mul_right hgt)
        · exact Nat.lt_of_mul_lt_mul_right hover
  · refine ⟨fun hfalse => EfiStatus.noConfusion hfalse, fun _ => ⟨rfl, ?_⟩⟩
    cases before with
    | nil => exact absurd hunder Bool.false_ne_true
    | cons last rest =>
        have hlastMem : last ∈ nodes := by
          rw [← happend]
          exact mem_append_left _ (mem_reverse.mpr mem_cons_self)
        have hle : last.address ≤ page * 4096 :=
          splitAtAddress_before (by rw [hpair]; exact mem_cons_self)
        have hlast := h.node last hlastMem
        simp only [head?_cons, Option.any_some, decide_eq_true_eq] at hunder
        rw [hlast.end_eq] at hunder
        rw [hlast.address_eq] at hle
        refine overlap_of_mem hlastMem ?_ ?_ (le_refl page) (Nat.lt_add_of_pos_right hpos)
        · exact Nat.le_of_mul_le_mul_right hle (Nat.succ_pos 4095)
        · exact Nat.lt_of_mul_lt_mul_right hunder
  · -- the node in front ends in front of the pages, so that it is not at their address
    exfalso
    have hbefore := before_of_check hbeforeOk hunder
    cases before with
    | nil => exact Bool.false_ne_true hsame
    | cons last rest =>
        simp only [head?_cons, Option.any_some, decide_eq_true_eq] at hsame
        have hmem : last ∈ (last :: rest).reverse := mem_reverse.mpr mem_cons_self
        have hle := hbefore last hmem
        have hlast := (hbeforeOk.node last hmem).address_eq
        have hlastPos := hbeforeOk.pos hmem
        have hstop : last.span.stop = last.span.start + last.numberOfPages := rfl
        omega
  · have hbefore := before_of_check hbeforeOk hunder
    have hafter := after_of_check hafterOk hover
    have hnode : NodeOk ⟨page * 4096, numberOfPages⟩ := nodeOk_of_page hpage hend
    have hspan : (⟨page * 4096, numberOfPages⟩ : FreePageList).span = ⟨page, numberOfPages⟩ :=
      span_of_page
    obtain ⟨hok, hpages⟩ := insertNode_spec hmap hnode hpos
      (by rw [hspan]; exact hbefore) (by rw [hspan]; exact hafter)
    rw [hspan, happend] at hpages
    refine ⟨fun _ => ⟨_, rfl, hok, ?_, hpages⟩, fun hne => absurd rfl hne⟩
    rw [← happend, Set.disjoint_left]
    rintro x ⟨s, hs, hx⟩ hx'
    obtain ⟨t, ht, rfl⟩ := mem_map.mp hs
    rw [Span.mem_range] at hx
    rcases mem_append.mp ht with ht | ht
    · have hle := hbefore t ht
      have hge := hx'.1
      omega
    · have hge := hafter t ht
      have hlt := hx'.2
      omega

end Free

section Region

variable {nodes : List FreePageList} {memBase memLength : Nat} {attributes : UInt64}

/-- The pages that lie wholly inside a region. -/
def regionPages (memBase memLength : Nat) : Set Nat :=
  {page | memBase ≤ page * 4096 ∧ (page + 1) * 4096 ≤ memBase + memLength}

/-- A region that holds a whole page, does not start at address zero and ends below the
end of the address space. -/
structure RegionOk (memBase memLength : Nat) : Prop where
  nonzero : 0 < memBase
  high : memBase + memLength < 2 ^ 64
  wholePage : (regionPages memBase memLength).Nonempty

/-- The first page of a region. -/
def firstPage (memBase : Nat) : Nat :=
  (memBase + 4095) / 4096

theorem firstPage_le_iff
    {page : Nat} :
    firstPage memBase ≤ page ↔ memBase ≤ page * 4096 := by
  unfold firstPage
  omega

/-- The pages of a region are a run from its first page on. -/
theorem RegionOk.run
    (h : RegionOk memBase memLength) :
    ∃ count, 0 < firstPage memBase ∧ 0 < count ∧ firstPage memBase + count < 2 ^ 52 ∧
      memBase ≤ firstPage memBase * 4096 ∧
      (memBase + memLength - firstPage memBase * 4096) / 4096 = count ∧
      firstPage memBase * 4096 ≤ memBase + memLength ∧
      regionPages memBase memLength =
        Set.Ico (firstPage memBase) (firstPage memBase + count) := by
  obtain ⟨page, hstart, hstop⟩ := h.wholePage
  have hnonzero := h.nonzero
  have hlow : memBase ≤ firstPage memBase * 4096 := firstPage_le_iff.mp (le_refl _)
  have hfirst : firstPage memBase ≤ page := firstPage_le_iff.mpr hstart
  have hpositive : 0 < firstPage memBase := by
    unfold firstPage
    omega
  have hbound : (memBase + memLength) / 4096 < 2 ^ 52 := by
    have hhigh := h.high
    omega
  have hmem : ∀ x, x ∈ regionPages memBase memLength ↔
      firstPage memBase ≤ x ∧ x < (memBase + memLength) / 4096 := by
    intro x
    rw [firstPage_le_iff]
    change memBase ≤ x * 4096 ∧ (x + 1) * 4096 ≤ memBase + memLength ↔ _
    rw [← Nat.le_div_iff_mul_le (Nat.succ_pos 4095)]
    exact Iff.rfl
  have hlast : page < (memBase + memLength) / 4096 := ((hmem page).mp ⟨hstart, hstop⟩).2
  have hcount : (memBase + memLength - firstPage memBase * 4096) / 4096 =
      (memBase + memLength) / 4096 - firstPage memBase := by
    rw [Nat.mul_comm (firstPage memBase), Nat.sub_mul_div]
  have hinside : firstPage memBase * 4096 ≤ memBase + memLength := by
    refine (Nat.mul_le_mul_right 4096 hfirst).trans (le_trans ?_ hstop)
    exact Nat.mul_le_mul_right 4096 (Nat.le_succ page)
  refine ⟨(memBase + memLength) / 4096 - firstPage memBase, hpositive, by omega, by omega, hlow,
    hcount, hinside, ?_⟩
  ext x
  rw [hmem, Set.mem_Ico]
  omega

theorem smmAddMemoryRegion_eq
    (h : RegionOk memBase memLength)
    (husable : attributes &&& unusableRegion = 0) :
    smmAddMemoryRegion nodes memBase memLength attributes =
      (smmInternalFreePages nodes (firstPage memBase * 4096)
        ((memBase + memLength - firstPage memBase * 4096) / 4096)).2 := by
  obtain ⟨count, -, hcount, hend, hlow, -, hinside, -⟩ := h.run
  have hhigh := h.high
  have hnext : (firstPage memBase + 1) * 4096 < 2 ^ 64 := page_lt_iff.mpr (by omega)
  have hrounded : add64 memBase (efiPageSize - 1) = memBase + 4095 := by
    rw [Nat.add_mul] at hnext
    rw [add64, efiPageSize_eq']
    exact Nat.mod_eq_of_lt (by omega)
  have haligned : memBase + 4095 - (memBase + 4095) % 4096 = firstPage memBase * 4096 := by
    unfold firstPage
    omega
  have hlength : sub64 memLength (sub64 (firstPage memBase * 4096) memBase) =
      memBase + memLength - firstPage memBase * 4096 := by
    unfold sub64
    omega
  unfold smmAddMemoryRegion
  rw [if_neg (not_not.mpr husable)]
  simp only [hrounded, truncateToPages]
  simp only [efiPageSize_eq', haligned, hlength]

theorem smmAddMemoryRegion_ok
    (h : MapOk nodes)
    (hregion : attributes &&& unusableRegion = 0 → RegionOk memBase memLength) :
    ∃ nodes', smmAddMemoryRegion nodes memBase memLength attributes = some nodes' ∧
      MapOk nodes' ∧
      ((attributes &&& unusableRegion = 0 ∧
          Disjoint (freePages nodes) (regionPages memBase memLength) ∧
          freePages nodes' = freePages nodes ∪ regionPages memBase memLength) ∨
        (nodes' = nodes ∧ (attributes &&& unusableRegion = 0 →
          ¬ Disjoint (freePages nodes) (regionPages memBase memLength)))) := by
  by_cases husable : attributes &&& unusableRegion = 0
  · obtain ⟨count, hfirst, hpos, hend, -, hcount, -, hpages⟩ := (hregion husable).run
    rw [smmAddMemoryRegion_eq (hregion husable) husable, hcount, hpages]
    have hfree := smmInternalFreePages_ok h hfirst hpos hend
    by_cases hstatus : (smmInternalFreePages nodes (firstPage memBase * 4096) count).1 = .success
    · obtain ⟨nodes', hnodes', hok, hdisjoint, hunion⟩ := hfree.freed hstatus
      exact ⟨nodes', hnodes', hok, Or.inl ⟨husable, hdisjoint, hunion⟩⟩
    · obtain ⟨hsame, hoverlap⟩ := hfree.refused hstatus
      exact ⟨nodes, hsame, h, Or.inr ⟨rfl, fun _ => hoverlap⟩⟩
  · refine ⟨nodes, ?_, h, Or.inr ⟨rfl, fun hfalse => absurd hfalse husable⟩⟩
    rw [smmAddMemoryRegion, if_pos husable]

end Region

end PiSmmCore
end Udk
