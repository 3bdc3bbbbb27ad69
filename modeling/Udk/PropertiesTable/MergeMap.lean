import Udk.PropertiesTable.SplitExact

/-!
# Merging the memory map

`MergeMemoryMap` moves a reading and a writing position through one buffer.  It keeps
what descriptors in order show, but a turn takes in one descriptor at most, so it leaves
contiguous descriptors behind where three or more of them continue each other.
-/

namespace Udk
namespace PropertiesTable

open List

/-- The loop of `MergeMemoryMap`, none when it needs more turns: the buffer,
`MemoryMapEntry` and `NewMemoryMapEntry` as indices. -/
def mergeMemoryMapLoop :
    Nat → List EfiMemoryDescriptor → Nat → Nat → Option (List EfiMemoryDescriptor)
  | 0, _, _, _ => none
  | turns + 1, slots, entry, new =>
    match slots.drop entry with
    | [] => some (slots.take new)
    | [d] => mergeMemoryMapLoop turns (slots.set new d) (entry + 1) (new + 1)
    | d :: next :: _ =>
      if d.type = next.type ∧ d.attr = next.attr ∧ d.physicalEnd = next.physicalStart then
        mergeMemoryMapLoop turns
          (slots.set new { d with numberOfPages := add64 d.numberOfPages next.numberOfPages })
          (entry + 2) (new + 1)
      else mergeMemoryMapLoop turns (slots.set new d) (entry + 1) (new + 1)

/-- `MergeMemoryMap`: the descriptors up to the new `*MemoryMapSize`. -/
def mergeMemoryMapInPlace (map : List EfiMemoryDescriptor) :
    Option (List EfiMemoryDescriptor) :=
  mergeMemoryMapLoop (map.length + 1) map 0 0

/-- A descriptor that begins where another one with its type and attributes ends. -/
def Continues (a b : EfiMemoryDescriptor) : Prop :=
  a.type = b.type ∧ a.attr = b.attr ∧ a.stop = b.physicalStart

/-- No three descriptors in a row continue each other. -/
def NoThreeContinue : List EfiMemoryDescriptor → Prop
  | a :: b :: c :: rest => ¬ (Continues a b ∧ Continues b c) ∧ NoThreeContinue (b :: c :: rest)
  | _ => True

/-- Disjoint page aligned descriptors in order. -/
structure SortedMap (l : List EfiMemoryDescriptor) : Prop where
  each : ∀ d ∈ l, DescriptorOk d
  sorted : l.Pairwise (fun a b => a.stop ≤ b.physicalStart)

/-- What merging a map has to give: the same labels in order, and no descriptor that
continues the one in front of it. -/
structure Merged (l out : List EfiMemoryDescriptor) : Prop where
  coarser : Coarser l out
  complete : out.IsChain (fun a b => ¬ Continues a b)

section Merge

variable {l rest slots : List EfiMemoryDescriptor} {a b d next : EfiMemoryDescriptor}
  {turns entry new : Nat}

theorem SortedMap.tail
    (h : SortedMap (d :: l)) :
    SortedMap l where
  each e he := h.each e (mem_cons_of_mem _ he)
  sorted := h.sorted.of_cons

theorem SortedMap.continues_iff
    (h : SortedMap (d :: next :: rest)) :
    d.type = next.type ∧ d.attr = next.attr ∧ d.physicalEnd = next.physicalStart ↔
      Continues d next := by
  have hd := h.each d mem_cons_self
  have hnext := h.tail.each next mem_cons_self
  have hle : d.stop ≤ next.physicalStart :=
    (pairwise_cons.mp h.sorted).1 next mem_cons_self
  have hlt := hnext.start_lt
  have hfits := hnext.fits
  -- no descriptor stands behind one that ends with the address space
  have hend : d.physicalEnd = d.stop := by
    rw [hd.physicalEnd_eq]
    exact Nat.mod_eq_of_lt (by omega)
  rw [hend, Continues]

theorem SortedMap.add64_pages
    (h : SortedMap (d :: next :: rest)) :
    add64 d.numberOfPages next.numberOfPages = d.numberOfPages + next.numberOfPages := by
  have hle : d.stop ≤ next.physicalStart :=
    (pairwise_cons.mp h.sorted).1 next mem_cons_self
  have hfits := (h.tail.each next mem_cons_self).fits
  simp only [EfiMemoryDescriptor.stop, efiPageSize_eq] at hle hfits
  exact Nat.mod_eq_of_lt (by omega)

theorem take_set_succ
    (hnew : new < slots.length)
    (d : EfiMemoryDescriptor) :
    (slots.set new d).take (new + 1) = slots.take new ++ [d] := by
  rw [take_succ, take_set_of_le le_rfl, getElem?_set_self hnew]
  rfl

theorem drop_set_behind
    (hnew : new ≤ entry)
    (hl : slots.drop entry = l)
    (k : Nat) :
    (slots.set new d).drop (entry + (k + 1)) = l.drop (k + 1) := by
  rw [drop_set_of_lt (by omega), ← hl, drop_drop]

/-- The loop writes below the descriptors that it still reads, so it merges those. -/
theorem mergeMemoryMapLoop_eq
    (hnew : new ≤ entry)
    (hl : slots.drop entry = l)
    (hsorted : SortedMap l)
    (hturns : l.length < turns) :
    mergeMemoryMapLoop turns slots entry new = some (slots.take new ++ mergeMemoryMap l) := by
  obtain ⟨turns, rfl⟩ : ∃ t, turns = t + 1 := ⟨turns - 1, by omega⟩
  have hlength := congrArg List.length hl
  rw [length_drop] at hlength
  induction l using mergeMemoryMap.induct generalizing turns slots entry new with
  | case1 =>
      rw [mergeMemoryMapLoop, hl, mergeMemoryMap, append_nil]
  | case2 d =>
      rw [length_singleton] at hlength hturns
      obtain ⟨turns, rfl⟩ : ∃ t, turns = t + 1 := ⟨turns - 1, by omega⟩
      rw [mergeMemoryMapLoop, hl]
      simp only
      rw [mergeMemoryMapLoop, drop_set_behind hnew hl 0, drop_one, tail_cons,
        take_set_succ (by omega), mergeMemoryMap]
  | case3 d next rest hmerge ih =>
      rw [length_cons, length_cons] at hlength hturns
      obtain ⟨turns, rfl⟩ : ∃ t, turns = t + 1 := ⟨turns - 1, by omega⟩
      rw [mergeMemoryMapLoop, hl]
      simp only [if_pos hmerge]
      rw [ih (by omega) (drop_set_behind hnew hl 1) hsorted.tail.tail _ (by omega) ?_,
        take_set_succ (by omega), mergeMemoryMap, if_pos hmerge, hsorted.add64_pages,
        append_assoc, singleton_append]
      rw [length_set]
      omega
  | case4 d next rest hmerge ih =>
      rw [length_cons] at hlength hturns
      obtain ⟨turns, rfl⟩ : ∃ t, turns = t + 1 := ⟨turns - 1, by omega⟩
      rw [mergeMemoryMapLoop, hl]
      simp only [if_neg hmerge]
      rw [ih (by omega) (drop_set_behind hnew hl 0) hsorted.tail _ (by omega) ?_,
        take_set_succ (by omega), mergeMemoryMap, if_neg hmerge,
        append_assoc, singleton_append]
      rw [length_set]
      omega

theorem mergeMemoryMapInPlace_eq
    (h : SortedMap l) :
    mergeMemoryMapInPlace l = some (mergeMemoryMap l) :=
  mergeMemoryMapLoop_eq le_rfl rfl h (Nat.lt_succ_self _)

theorem mergeMemoryMap_head
    (d : EfiMemoryDescriptor) (rest : List EfiMemoryDescriptor) :
    ∃ e out, mergeMemoryMap (d :: rest) = e :: out ∧ e.type = d.type ∧ e.attr = d.attr ∧
      e.physicalStart = d.physicalStart := by
  cases rest with
  | nil => exact ⟨d, [], rfl, rfl, rfl, rfl⟩
  | cons next rest =>
      rw [mergeMemoryMap]
      split
      · exact ⟨_, _, rfl, rfl, rfl, rfl⟩
      · exact ⟨_, _, rfl, rfl, rfl, rfl⟩

theorem Continues.congr_right
    {e : EfiMemoryDescriptor}
    (htype : e.type = d.type)
    (hattr : e.attr = d.attr)
    (hstart : e.physicalStart = d.physicalStart) :
    Continues a e ↔ Continues a d := by
  rw [Continues, Continues, htype, hattr, hstart]

theorem noThreeContinue_of_break
    (h : ¬ Continues a b) :
    NoThreeContinue (a :: b :: rest) ↔ NoThreeContinue (b :: rest) := by
  cases rest with
  | nil => exact Iff.rfl
  | cons c rest => exact and_iff_right fun hboth => h hboth.1

theorem isChain_cons_merge
    (out : List EfiMemoryDescriptor)
    (hout : out = mergeMemoryMap (next :: rest)) :
    (d :: out).IsChain (fun a b => ¬ Continues a b) ↔
      ¬ Continues d next ∧ out.IsChain (fun a b => ¬ Continues a b) := by
  obtain ⟨e, tail, hmerge, htype, hattr, hstart⟩ := mergeMemoryMap_head next rest
  rw [hout, hmerge, isChain_cons_cons, Continues.congr_right htype hattr hstart]

/-- A pair is taken in from the first descriptor of a run on, so what is left behind is
the third one. -/
theorem mergeMemoryMap_complete_iff
    (h : SortedMap l) :
    (mergeMemoryMap l).IsChain (fun a b => ¬ Continues a b) ↔ NoThreeContinue l := by
  induction l using mergeMemoryMap.induct with
  | case1 =>
      exact iff_of_true isChain_nil trivial
  | case2 d =>
      exact iff_of_true (isChain_singleton d) trivial
  | case3 d next rest hmerge ih =>
      have hjoin := h.continues_iff.mp hmerge
      rw [mergeMemoryMap, if_pos hmerge]
      cases rest with
      | nil =>
          exact iff_of_true (isChain_singleton _) trivial
      | cons c rest =>
          have hstop : EfiMemoryDescriptor.stop
              { d with numberOfPages := d.numberOfPages + next.numberOfPages } = next.stop := by
            rw [EfiMemoryDescriptor.stop, Nat.add_mul, ← Nat.add_assoc]
            exact congrArg (· + next.numberOfPages * efiPageSize) hjoin.2.2
          have hthird : Continues
              { d with numberOfPages := d.numberOfPages + next.numberOfPages } c ↔
                Continues next c := by
            rw [Continues, Continues, hstop]
            exact and_congr (by rw [hjoin.1]) (and_congr (by rw [hjoin.2.1]) Iff.rfl)
          rw [isChain_cons_merge _ rfl, hthird, ih h.tail.tail, NoThreeContinue]
          constructor
          · rintro ⟨hbreak, hrest⟩
            exact ⟨fun hboth => hbreak hboth.2, (noThreeContinue_of_break hbreak).mpr hrest⟩
          · rintro ⟨hbreak, hrest⟩
            have hthen : ¬ Continues next c := fun hnext => hbreak ⟨hjoin, hnext⟩
            exact ⟨hthen, (noThreeContinue_of_break hthen).mp hrest⟩
  | case4 d next rest hmerge ih =>
      have hbreak : ¬ Continues d next := fun hjoin => hmerge (h.continues_iff.mpr hjoin)
      rw [mergeMemoryMap, if_neg hmerge, isChain_cons_merge _ rfl, ih h.tail,
        noThreeContinue_of_break hbreak]
      exact and_iff_right hbreak

/-- `MergeMemoryMap` is lossless, and complete if and only if no three descriptors in a
row continue each other. -/
theorem mergeMemoryMap_exact_iff
    (h : SortedMap l) :
    (∃ out, mergeMemoryMapInPlace l = some out ∧ Merged l out) ↔ NoThreeContinue l := by
  rw [mergeMemoryMapInPlace_eq h, ← mergeMemoryMap_complete_iff h]
  constructor
  · rintro ⟨out, hout, hmerged⟩
    cases hout
    exact hmerged.complete
  · intro hcomplete
    exact ⟨_, rfl, mergeMemoryMap_coarser h.each h.sorted, hcomplete⟩

end Merge

/-- Page `page` as runtime data. -/
def dataPage (page : Nat) : EfiMemoryDescriptor where
  type := efiRuntimeServicesData
  physicalStart := page * efiPageSize
  virtualStart := 0
  numberOfPages := 1
  attr := efiMemoryXp

theorem sortedMap_pages
    {pages : List Nat}
    (hpages : ∀ page ∈ pages, page < 2 ^ 52)
    (hsorted : pages.Pairwise (· < ·)) :
    SortedMap (pages.map dataPage) where
  each d hd := by
    obtain ⟨page, hpage, rfl⟩ := mem_map.mp hd
    have hlt := hpages page hpage
    refine ⟨aligned_pages page, Nat.one_pos, ?_⟩
    change page * 0x1000 + 1 * 0x1000 ≤ 2 ^ 64
    omega
  sorted := by
    refine pairwise_map.mpr (hsorted.imp fun {p q} hlt => ?_)
    change p * 0x1000 + 1 * 0x1000 ≤ q * 0x1000
    omega

/-- Two pages that continue each other, and one apart. -/
theorem mergeMemoryMap_exact_iff_pair :
    ∃ out, mergeMemoryMapInPlace ([1, 2, 4].map dataPage) = some out ∧
      Merged ([1, 2, 4].map dataPage) out :=
  (mergeMemoryMap_exact_iff (sortedMap_pages (by decide) (by decide))).mpr
    ⟨fun h => absurd h.2.2.2 (by decide), trivial⟩

/-- The third of three pages in a row stays a descriptor of its own. -/
theorem thirdPage_left :
    SortedMap ([1, 2, 3].map dataPage) ∧
    ¬ ∃ out, mergeMemoryMapInPlace ([1, 2, 3].map dataPage) = some out ∧
      Merged ([1, 2, 3].map dataPage) out := by
  have hsorted : SortedMap ([1, 2, 3].map dataPage) :=
    sortedMap_pages (by decide) (by decide)
  refine ⟨hsorted, fun ⟨out, hout, hmerged⟩ => ?_⟩
  have hleft : mergeMemoryMapInPlace ([1, 2, 3].map dataPage) =
      some [{ dataPage 1 with numberOfPages := 2 }, dataPage 3] := by
    rfl
  rw [hleft] at hout
  cases hout
  have hbreak := isChain_pair.mp hmerged.complete
  exact hbreak ⟨rfl, rfl, rfl⟩

end PropertiesTable
end Udk
