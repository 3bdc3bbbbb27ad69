import Udk.PiSmmCore.Pool
import Udk.PiSmmCore.AllocatePages
import Udk.PiSmmCore.FreePages

/-!
# Blocks of the SMM pool

The blocks that callers hold and those on the lists share the pages that the pool has
taken, without overlap.  Splitting a block, taking pages and returning them keep that;
so does the recursive allocation through the size classes.
-/

namespace Udk
namespace PiSmmCore

open PropertiesTable Span List

section Space

/-- Two blocks that do not overlap. -/
def Clear (s t : Span) : Prop :=
  s.stop ≤ t.start ∨ t.stop ≤ s.start

/-- Blocks that do not overlap and hold no byte of a free page. -/
structure SpaceOk (nodes : List FreePageList) (blocks : List Span) : Prop where
  clear : blocks.Pairwise Clear
  outside : ∀ b ∈ blocks, ∀ x, b.start ≤ x → x < b.stop → x / 4096 ∉ freePages nodes
  bounds : ∀ b ∈ blocks, 0 < b.start ∧ 0 < b.length ∧ b.stop < 2 ^ 64

variable {nodes nodes' : List FreePageList} {blocks blocks' : List Span} {b : Span}
  {first count start half : Nat}

theorem Clear.symm {s t : Span} (h : Clear s t) : Clear t s :=
  Or.symm h

namespace SpaceOk

theorem perm
    (h : SpaceOk nodes blocks)
    (hperm : blocks.Perm blocks') :
    SpaceOk nodes blocks' where
  clear := (hperm.pairwise_iff Clear.symm).mp h.clear
  outside b hb := h.outside b (hperm.mem_iff.mpr hb)
  bounds b hb := h.bounds b (hperm.mem_iff.mpr hb)

theorem tail
    (h : SpaceOk nodes (b :: blocks)) :
    SpaceOk nodes blocks where
  clear := (pairwise_cons.mp h.clear).2
  outside b' hb' := h.outside b' (mem_cons_of_mem _ hb')
  bounds b' hb' := h.bounds b' (mem_cons_of_mem _ hb')

theorem start_ne
    {b' : Span}
    (h : SpaceOk nodes (b :: blocks))
    (hb' : b' ∈ blocks) :
    b'.start ≠ b.start := by
  have hclear := (pairwise_cons.mp h.clear).1 b' hb'
  have hpos := (h.bounds b mem_cons_self).2.1
  have hpos' := (h.bounds b' (mem_cons_of_mem _ hb')).2.1
  simp only [Clear, stop] at hclear
  omega

theorem split
    (h : SpaceOk nodes (⟨start, 2 * half⟩ :: blocks)) :
    SpaceOk nodes (⟨start + half, half⟩ :: ⟨start, half⟩ :: blocks) := by
  obtain ⟨hclear, htail⟩ := pairwise_cons.mp h.clear
  obtain ⟨hstart, hlength, hstop⟩ := h.bounds _ mem_cons_self
  have houtside := h.outside _ mem_cons_self
  simp only [stop] at hstart hlength hstop houtside
  constructor
  case clear =>
    refine pairwise_cons.mpr ⟨forall_mem_cons.mpr ⟨?_, ?_⟩,
      pairwise_cons.mpr ⟨?_, htail⟩⟩
    · exact Or.inr (le_refl _)
    · intro b' hb'
      have hb := hclear b' hb'
      simp only [Clear, stop] at hb ⊢
      omega
    · intro b' hb'
      have hb := hclear b' hb'
      simp only [Clear, stop] at hb ⊢
      omega
  case outside =>
    refine forall_mem_cons.mpr ⟨?_, forall_mem_cons.mpr ⟨?_, h.tail.outside⟩⟩
    · intro x hx hx'
      simp only [stop] at hx hx'
      exact houtside x (by omega) (by omega)
    · intro x hx hx'
      simp only [stop] at hx hx'
      exact houtside x hx (by omega)
  case bounds =>
    refine forall_mem_cons.mpr ⟨?_, forall_mem_cons.mpr ⟨?_, h.tail.bounds⟩⟩
    · simp only [stop]
      omega
    · simp only [stop]
      omega

/-- Pages that have been free become a block. -/
theorem allocate
    (h : SpaceOk nodes blocks)
    (hnodes : MapOk nodes)
    (hpos : 0 < count)
    (hallocated : Allocated nodes first count nodes') :
    SpaceOk nodes' (⟨first * 4096, count * 4096⟩ :: blocks) := by
  obtain ⟨node, hnode, hstart, hstop⟩ := hnodes.exists_node hpos hallocated.run
  have hpage : ∀ x, first * 4096 ≤ x → x < first * 4096 + count * 4096 →
      x / 4096 ∈ Set.Ico first (first + count) := by
    intro x hx hx'
    constructor
    · exact (Nat.le_div_iff_mul_le (Nat.succ_pos 4095)).mpr hx
    · rw [← Nat.add_mul] at hx'
      exact (Nat.div_lt_iff_lt_mul (Nat.succ_pos 4095)).mpr hx'
  constructor
  case clear =>
    refine pairwise_cons.mpr ⟨?_, h.clear⟩
    intro b hb
    by_contra hnot
    obtain ⟨-, hlength, -⟩ := h.bounds b hb
    simp only [Clear, stop, not_or, not_le] at hnot
    -- the two share the greater of their first bytes
    have hshared : ∃ x, b.start ≤ x ∧ x < b.stop ∧ first * 4096 ≤ x ∧
        x < first * 4096 + count * 4096 := by
      refine ⟨max b.start (first * 4096), le_max_left _ _, ?_, le_max_right _ _, ?_⟩
      · exact max_lt (Nat.lt_add_of_pos_right hlength) hnot.2
      · exact max_lt hnot.1 (Nat.lt_add_of_pos_right (Nat.mul_pos hpos (Nat.succ_pos 4095)))
    obtain ⟨x, hx, hx', hlow, hhigh⟩ := hshared
    exact h.outside b hb x hx hx' (hallocated.run (hpage x hlow hhigh))
  case outside =>
    refine forall_mem_cons.mpr ⟨?_, ?_⟩
    · intro x hx hx' hfree
      rw [hallocated.pages] at hfree
      exact hfree.2 (hpage x hx hx')
    · intro b hb x hx hx' hfree
      rw [hallocated.pages] at hfree
      exact h.outside b hb x hx hx' hfree.1
  case bounds =>
    refine forall_mem_cons.mpr ⟨?_, h.bounds⟩
    have hhigh := (hnodes.node node hnode).high_eq
    have hnonzero := (hnodes.node node hnode).nonzero
    rw [(hnodes.node node hnode).address_eq] at hnonzero
    have hbytes : (first + count) * 4096 < 2 ^ 64 := page_lt_iff.mpr (by omega)
    refine ⟨Nat.mul_pos ?_ (Nat.succ_pos 4095), Nat.mul_pos hpos (Nat.succ_pos 4095), ?_⟩
    · have hnodePos : 0 < node.span.start := Nat.pos_of_mul_pos_right hnonzero
      omega
    · rw [Nat.add_mul] at hbytes
      exact hbytes

theorem release
    (h : SpaceOk nodes (⟨first * 4096, count * 4096⟩ :: blocks))
    (hpages : freePages nodes' = freePages nodes ∪ Set.Ico first (first + count)) :
    SpaceOk nodes' blocks where
  clear := h.tail.clear
  bounds := h.tail.bounds
  outside b hb x hx hx' hfree := by
    rw [hpages] at hfree
    rcases hfree with hfree | ⟨hlow, hhigh⟩
    · exact h.tail.outside b hb x hx hx' hfree
    · have hclear := (pairwise_cons.mp h.clear).1 b hb
      have hlow' : first * 4096 ≤ x := (Nat.le_div_iff_mul_le (Nat.succ_pos 4095)).mp hlow
      have hhigh' : x < (first + count) * 4096 :=
        (Nat.div_lt_iff_lt_mul (Nat.succ_pos 4095)).mp hhigh
      rw [Nat.add_mul] at hhigh'
      simp only [Clear, stop] at hclear hx'
      omega

theorem disjoint_pages
    (h : SpaceOk nodes (⟨first * 4096, count * 4096⟩ :: blocks)) :
    Disjoint (freePages nodes) (Set.Ico first (first + count)) := by
  rw [Set.disjoint_left]
  rintro page hfree ⟨hlow, hhigh⟩
  refine h.outside _ mem_cons_self (page * 4096) ?_ ?_ ?_
  · exact Nat.mul_le_mul_right 4096 hlow
  · have hlt := Nat.mul_lt_mul_of_pos_right hhigh (Nat.succ_pos 4095)
    rw [Nat.add_mul] at hlt
    exact hlt
  · rwa [Nat.mul_div_cancel page (Nat.succ_pos 4095)]

end SpaceOk

end Space

section Lists

variable {lists : Nat → List Nat} {poolIndex address : Nat} {rest : List Nat}

theorem poolSize_eq (poolIndex : Nat) : poolSize poolIndex = 64 * 2 ^ poolIndex :=
  Nat.shiftLeft_eq 64 poolIndex

theorem poolSize_succ (poolIndex : Nat) : poolSize (poolIndex + 1) = 2 * poolSize poolIndex := by
  rw [poolSize_eq, poolSize_eq, Nat.pow_succ]
  omega

theorem flatMap_update_perm
    {α β : Type*} {f : Nat → List α} {g : Nat → α → β} {n i : Nat} {a : α}
    (hi : i < n) :
    ((List.range n).flatMap fun j => (Function.update f i (a :: f i) j).map (g j)).Perm
      (g i a :: (List.range n).flatMap fun j => (f j).map (g j)) := by
  induction n with
  | zero => exact absurd hi (Nat.not_lt_zero i)
  | succ n ih =>
      rw [range_succ, flatMap_append, flatMap_append, flatMap_singleton,
        flatMap_singleton]
      rcases Nat.lt_succ_iff_lt_or_eq.mp hi with hlt | rfl
      · rw [Function.update_of_ne (ne_of_gt hlt)]
        exact (ih hlt).append_right _
      · rw [Function.update_self, map_cons]
        have hsame : ((List.range i).flatMap fun j =>
            (Function.update f i (a :: f i) j).map (g j)) =
            (List.range i).flatMap fun j => (f j).map (g j) := by
          refine flatMap_congr fun j hj => ?_
          rw [Function.update_of_ne (ne_of_lt (List.mem_range.mp hj))]
        rw [hsame]
        exact perm_middle

/-- The blocks on the lists. -/
def freeBlocks (lists : Nat → List Nat) : List Span :=
  (List.range maxPoolIndex).flatMap fun poolIndex =>
    (lists poolIndex).map fun address => ⟨address, poolSize poolIndex⟩

/-- The blocks that callers hold. -/
def liveBlocks (live : List LiveBlock) : List Span :=
  live.map fun block => ⟨block.address, block.size⟩

theorem freeBlocks_insert
    (h : poolIndex < maxPoolIndex) :
    (freeBlocks (Function.update lists poolIndex (address :: lists poolIndex))).Perm
      (⟨address, poolSize poolIndex⟩ :: freeBlocks lists) :=
  flatMap_update_perm h

theorem freeBlocks_remove
    (h : poolIndex < maxPoolIndex)
    (hlist : lists poolIndex = address :: rest) :
    (freeBlocks lists).Perm
      (⟨address, poolSize poolIndex⟩ :: freeBlocks (Function.update lists poolIndex rest)) := by
  have hinsert := @freeBlocks_insert (Function.update lists poolIndex rest) poolIndex address h
  rw [Function.update_self, Function.update_idem, ← hlist, Function.update_eq_self] at hinsert
  exact hinsert

theorem mem_freeBlocks
    (h : poolIndex < maxPoolIndex)
    (haddress : address ∈ lists poolIndex) :
    ⟨address, poolSize poolIndex⟩ ∈ freeBlocks lists := by
  refine mem_flatMap.mpr ⟨poolIndex, List.mem_range.mpr h, ?_⟩
  exact mem_map.mpr ⟨address, haddress, rfl⟩

end Lists

section Invariant

/-- A block of a size class, or one of pages, at an address of its alignment. -/
def SizeOk (address size : Nat) : Prop :=
  (∃ poolIndex < maxPoolIndex, size = poolSize poolIndex ∧ address % size = 0) ∨
    (maxPoolSize < size ∧ address % 4096 = 0 ∧ size % 4096 = 0)

/-- The lists and the headers agree, and the blocks share the space, with some blocks that
are on no list and that no caller holds. -/
structure PoolOkWith (extra : List Span) (s : PoolState) : Prop where
  space : ∃ nodes, s.mSmmMemoryMap = some nodes ∧ MapOk nodes ∧
    SpaceOk nodes (extra ++ (liveBlocks s.live ++ freeBlocks s.mSmmPoolLists))
  free : ∀ poolIndex < maxPoolIndex, ∀ address ∈ s.mSmmPoolLists poolIndex,
    s.headers address = ⟨poolSize poolIndex, true⟩ ∧ address % poolSize poolIndex = 0
  live : ∀ block ∈ s.live, s.headers block.address = ⟨block.size, false⟩ ∧
    SizeOk block.address block.size ∧ block.requested + sizeOfPoolHeader ≤ block.size

/-- The pool between two calls. -/
abbrev PoolOk (s : PoolState) : Prop :=
  PoolOkWith [] s

variable {s : PoolState} {extra : List Span} {address size poolIndex : Nat} {header : PoolHeader}

namespace PoolOkWith

theorem setHeader
    (h : PoolOkWith (⟨address, size⟩ :: extra) s) :
    PoolOkWith (⟨address, size⟩ :: extra) (s.setHeader address header) := by
  obtain ⟨nodes, hmap, hmapOk, hspace⟩ := h.space
  have hne : ∀ b ∈ liveBlocks s.live ++ freeBlocks s.mSmmPoolLists, b.start ≠ address :=
    fun b hb => hspace.start_ne (mem_append_right _ hb)
  constructor
  case space => exact ⟨nodes, hmap, hmapOk, hspace⟩
  case free =>
    intro i hi a ha
    have hother : a ≠ address := hne _ (mem_append_right _ (mem_freeBlocks hi ha))
    simp only [PoolState.setHeader, Function.update_of_ne hother]
    exact h.free i hi a ha
  case live =>
    intro block hblock
    have hother : block.address ≠ address := hne ⟨block.address, block.size⟩
      (mem_append_left _ (mem_map.mpr ⟨block, hblock, rfl⟩))
    simp only [PoolState.setHeader, Function.update_of_ne hother]
    exact h.live block hblock

theorem insertHead
    (h : PoolOkWith (⟨address, poolSize poolIndex⟩ :: extra) s)
    (hindex : poolIndex < maxPoolIndex)
    (hheader : s.headers address = ⟨poolSize poolIndex, true⟩)
    (haligned : address % poolSize poolIndex = 0) :
    PoolOkWith extra (s.insertHead poolIndex address) := by
  obtain ⟨nodes, hmap, hmapOk, hspace⟩ := h.space
  constructor
  case space =>
    refine ⟨nodes, hmap, hmapOk, hspace.perm ?_⟩
    have hlists := @freeBlocks_insert s.mSmmPoolLists poolIndex address hindex
    refine List.Perm.trans ?_ (((hlists.symm).append_left (liveBlocks s.live)).append_left extra)
    refine List.Perm.trans ?_ (perm_middle.symm.append_left extra)
    exact perm_middle.symm
  case free =>
    intro i hi a ha
    by_cases hsame : i = poolIndex
    · subst hsame
      simp only [PoolState.insertHead, Function.update_self] at ha
      rcases mem_cons.mp ha with rfl | ha
      · exact ⟨hheader, haligned⟩
      · exact h.free i hi a ha
    · simp only [PoolState.insertHead, Function.update_of_ne hsame] at ha
      exact h.free i hi a ha
  case live => exact h.live

theorem removeFirst
    {rest : List Nat}
    (h : PoolOk s)
    (hindex : poolIndex < maxPoolIndex)
    (hlist : s.mSmmPoolLists poolIndex = address :: rest) :
    PoolOkWith [⟨address, poolSize poolIndex⟩] (s.removeFirst poolIndex) := by
  obtain ⟨nodes, hmap, hmapOk, hspace⟩ := h.space
  have htail : (s.mSmmPoolLists poolIndex).tail = rest := by rw [hlist]; rfl
  constructor
  case space =>
    refine ⟨nodes, hmap, hmapOk, hspace.perm ?_⟩
    simp only [PoolState.removeFirst, htail, nil_append, singleton_append]
    refine ((freeBlocks_remove hindex hlist).append_left (liveBlocks s.live)).trans ?_
    exact perm_middle
  case free =>
    intro i hi a ha
    refine h.free i hi a ?_
    by_cases hsame : i = poolIndex
    · subst hsame
      simp only [PoolState.removeFirst, Function.update_self] at ha
      exact mem_of_mem_tail ha
    · simpa only [PoolState.removeFirst, Function.update_of_ne hsame] using ha
  case live => exact h.live

theorem split
    {half : Nat}
    (h : PoolOkWith [⟨address, 2 * half⟩] s) :
    PoolOkWith [⟨address, half⟩, ⟨address + half, half⟩] s := by
  obtain ⟨nodes, hmap, hmapOk, hspace⟩ := h.space
  refine ⟨⟨nodes, hmap, hmapOk, hspace.split.perm ?_⟩, h.free, h.live⟩
  exact List.Perm.swap _ _ _

theorem handOut
    {requested : Nat}
    (h : PoolOkWith [⟨address, size⟩] s)
    (hheader : s.headers address = ⟨size, false⟩)
    (hsize : SizeOk address size)
    (hfits : requested + sizeOfPoolHeader ≤ size) :
    PoolOk { s with live := ⟨address, size, requested⟩ :: s.live } := by
  obtain ⟨nodes, hmap, hmapOk, hspace⟩ := h.space
  refine ⟨⟨nodes, hmap, hmapOk, hspace⟩, h.free, ?_⟩
  exact forall_mem_cons.mpr ⟨⟨hheader, hsize, hfits⟩, h.live⟩

end PoolOkWith

end Invariant

end PiSmmCore
end Udk
