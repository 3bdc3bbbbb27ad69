import Udk.Gcd.RangeEdit

/-!
# The GCD maps stay merged

The cleanup joins each entry of the window with its left neighbour and the last one with
its right neighbour; the pads carry the records of the entries they were cut from, so no
other pair can agree.  Attributes stay within capabilities if memory is removed without
attributes and added with capabilities for those it has.
-/

namespace Udk
namespace Gcd

open Tiling Cell

section Cleanup

theorem mergeBackward_merged
    {back : GcdMap}
    (h : Merged back)
    (entry : GcdMapEntry) :
    Merged ((mergeBackward back entry).2 :: (mergeBackward back entry).1) := by
  cases back with
  | nil => exact merged_singleton
  | cons adjacent rest =>
      rw [mergeBackward]
      split
      case isTrue hsame =>
        have hlabel : label entry = label adjacent := (sameRegion_iff entry adjacent).mp hsame
        refine h.congr ?_
        simp only [List.map_cons, label_eq] at hlabel ⊢
        rw [hlabel]
      case isFalse hdiffer =>
        refine merged_cons_cons.mpr ⟨fun hlabel => hdiffer ?_, h⟩
        exact (sameRegion_iff entry adjacent).mpr hlabel

theorem cleanupLoop_merged
    {back : GcdMap}
    (h : Merged back)
    (window : GcdMap) :
    Merged (cleanupLoop back window) := by
  induction window generalizing back with
  | nil => exact h
  | cons entry _ ih => exact ih (mergeBackward_merged h entry)

theorem coreCleanupGcdMapEntry_merged
    {split : GcdSplit}
    (hbefore : Merged split.before)
    (hafter : Merged split.after) :
    Merged (coreCleanupGcdMapEntry split) := by
  have hloop := cleanupLoop_merged (merged_reverse.mpr hbefore) split.window
  rw [coreCleanupGcdMapEntry]
  cases hback : cleanupLoop split.before.reverse split.window with
  | nil => exact hafter
  | cons entry back =>
      rw [hback] at hloop
      have hfront : Merged (back.reverse ++ [entry]) := by
        rw [← List.reverse_cons]
        exact merged_reverse.mpr hloop
      cases hsplit : split.after with
      | nil => exact hfront
      | cons adjacent rest =>
          rw [hsplit] at hafter
          simp only [mergeForward]
          split
          case isTrue hsame =>
            have hlabel : label entry = label adjacent :=
              (sameRegion_iff entry adjacent).mp hsame
            refine merged_split.mpr ⟨hfront.congr ?_, hafter.congr ?_⟩
            · simp
            · simp only [List.map_cons, label_eq] at hlabel ⊢
              rw [hlabel]
          case isFalse hdiffer =>
            refine merged_split.mpr ⟨hfront, merged_cons_cons.mpr ⟨fun hlabel => ?_, hafter⟩⟩
            exact hdiffer ((sameRegion_iff entry adjacent).mpr hlabel)

end Cleanup

section Convert

variable {edit : GcdRegion → GcdRegion} {baseAddress length : UInt64}

theorem convertWindow_before
    (entry : GcdMapEntry) (rest : GcdMap) :
    (convertWindow edit baseAddress length (entry :: rest)).before =
      (coreInsertGcdMapEntry entry baseAddress length).1 := by
  cases rest with
  | nil => rfl
  | cons => rfl

theorem convertWindow_after
    (front : GcdMap) (final : GcdMapEntry) :
    (convertWindow edit baseAddress length (front ++ [final])).after =
      (coreInsertGcdMapEntry final baseAddress length).2.2 := by
  induction front with
  | nil => rfl
  | cons entry front ih =>
      cases front with
      | nil => exact ih
      | cons => exact ih

/-- A converted map is merged if the map was. -/
theorem IsWindow.convertSplit_merged
    {map : GcdMap} {split : GcdSplit}
    (h : IsWindow baseAddress length map split)
    (hmerged : Merged map)
    (hlength : length ≠ 0)
    (hwrap : baseAddress.toNat + length.toNat ≤ 2 ^ 64) :
    Merged (convertSplit edit baseAddress length split) := by
  obtain ⟨entry, rest, hcons, -⟩ := h.first_contains
  obtain ⟨front, final, hsnoc, -⟩ := h.last_contains
  have hmap := hmerged
  rw [h.map_eq] at hmap
  refine coreCleanupGcdMapEntry_merged ?_ ?_
  · have hleft : Merged (split.before ++ [entry]) := by
      have hfirst := hmap.left
      rw [hcons] at hfirst
      exact (merged_split.mp hfirst).1
    simp only [hcons, convertWindow_before]
    rcases (coreInsertGcdMapEntry_inserted entry hlength hwrap).bottom_eq with
      ⟨hnil, -⟩ | ⟨pad, hpad, hlabel, -⟩
    · rw [hnil, List.append_nil]
      exact hleft.left
    · rw [hpad]
      refine hleft.congr ?_
      simp only [List.map_append, List.map_cons, List.map_nil, hlabel]
  · have hright : Merged (final :: split.after) := by
      have hlast := hmap
      rw [hsnoc, List.append_assoc, List.append_assoc] at hlast
      exact hlast.right.right
    simp only [hsnoc, convertWindow_after]
    rcases (coreInsertGcdMapEntry_inserted final hlength hwrap).top_eq with
      ⟨hnil, -⟩ | ⟨pad, hpad, hlabel, -⟩
    · rw [hnil, List.nil_append]
      rw [← List.singleton_append] at hright
      exact hright.right
    · rw [hpad]
      refine hright.congr ?_
      simp only [List.singleton_append, List.map_cons, hlabel]

theorem IsWindow.block_check
    {map : GcdMap} {split : GcdSplit} {hi : Nat}
    (p : GcdRegion → Prop)
    (h : IsWindow baseAddress length map split)
    (hpart : Partition 0 map hi)
    (hlength : length ≠ 0)
    (hwrap : baseAddress.toNat + length.toNat ≤ 2 ^ 64)
    (hwindow : ∀ entry ∈ split.window, p entry.toGcdRegion)
    {x : Nat} {region : GcdRegion}
    (hx : InBlock baseAddress length x)
    (hregion : labelAt map x = some region) :
    p region := by
  have htiles := hpart.tiles
  rw [h.map_eq] at htiles
  obtain ⟨t, htiles, -⟩ := tiles_append.mp htiles
  obtain ⟨s, -, hmiddle⟩ := tiles_append.mp htiles
  rw [← h.map_eq] at hmiddle
  obtain ⟨entry, rest, hcons, hbase⟩ := h.first_contains
  obtain ⟨front, final, hsnoc, hend⟩ := h.last_contains
  rw [GcdMapEntry.contains_iff] at hbase hend
  have hpos := length_pos hlength
  have hendNat := rangeEnd_toNat hlength hwrap
  have hstart : first entry = s := by
    rw [hcons] at hmiddle
    exact hmiddle.1
  have hfinal := hmiddle.mem_bounds (show final ∈ split.window by rw [hsnoc]; simp)
  obtain ⟨hx1, hx2⟩ := hx
  exact (@Tiles.forall_label _ _ _ _ _ _ _ p hmiddle).mp hwindow x region (by omega) (by omega) hregion

end Convert

/-- The attributes of a region are among its capabilities. -/
def GcdRegion.Allowed (region : GcdRegion) : Prop :=
  region.capabilities &&& region.attributes = region.attributes

instance (region : GcdRegion) : Decidable region.Allowed :=
  inferInstanceAs (Decidable (_ = _))

/-- Both maps are merged. -/
structure AllMerged (s : GcdState) : Prop where
  memory : Merged s.memorySpaceMap
  io : Merged s.ioSpaceMap

/-- Every entry has attributes that its capabilities allow. -/
structure AllAllowed (s : GcdState) : Prop where
  memory : ∀ entry ∈ s.memorySpaceMap, entry.Allowed
  io : ∀ entry ∈ s.ioSpaceMap, entry.Allowed

/-- Memory is removed and added with capabilities for the attributes that the range
has. -/
def GcdCall.KeepsAttributes (s : GcdState) : GcdCall → Prop
  | .convert request _ =>
      request.operation = .addMemory ∨ request.operation = .removeMemory →
        ∀ x region, InBlock request.baseAddress request.length x →
          labelAt (s.map request.operation) x = some region →
          convertCheck request region = .success → (convertEdit request region).Allowed
  | .allocate _ _ => True

section Allowed

variable {s s' : GcdState} {request : ConvertRequest} {env : GcdEnvironment}

theorem convertEdit_allowed
    {region : GcdRegion}
    (h : region.Allowed)
    (hcheck : convertCheck request region = .success)
    (hkeeps : request.operation = .addMemory ∨ request.operation = .removeMemory →
      (convertEdit request region).Allowed) :
    (convertEdit request region).Allowed := by
  cases hop : request.operation with
  | addMemory => exact hkeeps (Or.inl hop)
  | removeMemory => exact hkeeps (Or.inr hop)
  | setAttributesMemory | setCapabilitiesMemory =>
      simp only [convertCheck, hop] at hcheck
      split_ifs at hcheck with hpage hsupported
      simpa only [convertEdit, hop, GcdRegion.Allowed, bne_iff_ne, ne_eq, not_not]
        using hsupported
  | allocateMemory | allocateIo => simpa only [convertEdit, hop] using h
  | freeMemory | addIo
  | freeIo | removeIo => simpa only [convertEdit, hop, GcdRegion.Allowed] using h

theorem AllAllowed.map
    (h : AllAllowed s)
    (operation : GcdOperation) :
    ∀ entry ∈ s.map operation, entry.Allowed := by
  rw [GcdState.map]
  split
  · exact h.memory
  · exact h.io

theorem AllAllowed.setMap
    (h : AllAllowed s)
    {operation : GcdOperation} {map : GcdMap}
    (hmap : ∀ entry ∈ map, entry.Allowed) :
    AllAllowed (s.setMap operation map) := by
  rw [GcdState.setMap]
  split
  · exact ⟨hmap, h.io⟩
  · exact ⟨h.memory, hmap⟩

theorem AllMerged.map
    (h : AllMerged s)
    (operation : GcdOperation) :
    Merged (s.map operation) := by
  rw [GcdState.map]
  split
  · exact h.memory
  · exact h.io

theorem AllMerged.setMap
    (h : AllMerged s)
    {operation : GcdOperation} {map : GcdMap}
    (hmap : Merged map) :
    AllMerged (s.setMap operation map) := by
  rw [GcdState.setMap]
  split
  · exact ⟨hmap, h.io⟩
  · exact ⟨h.memory, hmap⟩

theorem IsWindow.convertSplit_allowed
    {edit : GcdRegion → GcdRegion} {baseAddress length : UInt64} {map : GcdMap}
    {split : GcdSplit} {hi : Nat}
    (h : IsWindow baseAddress length map split)
    (hpart : Partition 0 map hi)
    (hlength : length ≠ 0)
    (hwrap : baseAddress.toNat + length.toNat ≤ 2 ^ 64)
    (hmap : ∀ entry ∈ map, entry.Allowed)
    (hedit : ∀ x region, InBlock baseAddress length x → labelAt map x = some region →
      (edit region).Allowed) :
    ∀ entry ∈ convertSplit edit baseAddress length split, entry.Allowed := by
  have htiles : Tiles (editBlock edit baseAddress length (labelAt map)) 0 _ hi :=
    h.convertSplit_tiles hpart hlength hwrap
  refine htiles.forall_label.mpr fun x region hx hx' hregion => ?_
  rw [editBlock] at hregion
  split at hregion
  case isTrue hblock =>
    obtain ⟨old, hold, rfl⟩ := Option.map_eq_some_iff.mp hregion
    exact hedit x old hblock hold
  case isFalse => exact hpart.tiles.forall_label.mp hmap x region hx hx' hregion

variable {memorySize ioSize : Nat}

theorem Partitions.convert_canonical
    (h : Partitions memorySize ioSize s)
    (hrange : GcdCall.InRange s (.convert request env)) :
    (AllMerged s → AllMerged (coreConvertSpace request env s).2) ∧
      (GcdCall.KeepsAttributes s (.convert request env) → AllAllowed s →
        AllAllowed (coreConvertSpace request env s).2) := by
  rcases @coreConvertSpace_cases request env s with ⟨-, hsame⟩ |
    ⟨hlength, split, hsearch, hcheck, hresult⟩
  · rw [hsame]
    exact ⟨id, fun _ => id⟩
  · have hpart := h.map request.operation
    have hwindow := coreSearchGcdMapEntry_isWindow hsearch
    have hpass := checkWindow_success hcheck
    have hwrap := hwindow.noWrap hpart hlength hrange hpass
    rw [hresult]
    constructor
    · intro hmerged
      exact hmerged.setMap
        (hwindow.convertSplit_merged (hmerged.map request.operation) hlength hwrap)
    · intro hkeeps hallowed
      have hmap := hallowed.map request.operation
      refine hallowed.setMap
        (hwindow.convertSplit_allowed hpart hlength hwrap hmap fun x region hx hregion => ?_)
      have hregionCheck := hwindow.block_check
        (fun region => convertCheck request region = .success) hpart hlength hwrap hpass hx hregion
      have hregionAllowed := hwindow.block_check GcdRegion.Allowed hpart hlength hwrap
        (fun entry hentry => hmap entry (by rw [hwindow.map_eq]; simp [hentry])) hx hregion
      exact convertEdit_allowed hregionAllowed hregionCheck
        fun hop => hkeeps hop x region hx hregion hregionCheck

theorem Partitions.allocate_canonical
    {allocation : AllocateRequest} {turns : Nat} {status : Status} {answer : Option UInt64}
    (h : Partitions memorySize ioSize s)
    (hmemory : memorySize ≤ 2 ^ 63)
    (hio : ioSize ≤ 2 ^ 63)
    (hrange : GcdCall.InRange s (.allocate allocation env))
    (hcall : coreAllocateSpace allocation turns env s = some (status, answer, s')) :
    (AllMerged s → AllMerged s') ∧ (AllAllowed s → AllAllowed s') := by
  rcases coreAllocateSpace_cases hcall with ⟨-, hsame⟩ |
    ⟨hlength, base, baseAddress, split, hbase, hplace, -, -, hresult⟩
  · rw [hsame]
    exact ⟨id, id⟩
  · have hpart := h.map allocation.operation
    have hsize := GcdState.size_le hmemory hio allocation.operation
    obtain ⟨hwindow, hwrap⟩ := allocatePlace_noWrap hpart hsize hrange hbase hlength hplace
    rw [hresult]
    constructor
    · intro hmerged
      exact hmerged.setMap
        (hwindow.convertSplit_merged (hmerged.map allocation.operation) hlength hwrap)
    · intro hallowed
      have hmap := hallowed.map allocation.operation
      refine hallowed.setMap
        (hwindow.convertSplit_allowed hpart hlength hwrap hmap fun x region hx hregion => ?_)
      have hregionAllowed := hwindow.block_check GcdRegion.Allowed hpart hlength hwrap
        (fun entry hentry => hmap entry (by rw [hwindow.map_eq]; simp [hentry])) hx hregion
      exact hregionAllowed

end Allowed

section Run

variable {s : GcdState} {trace : List (GcdState × GcdCall)}

/-- In every run whose ranges do not wrap, the maps stay merged, and if the calls keep to
the condition on adding and removing memory, attributes stay within capabilities. -/
theorem gcdMaps_canonical
    {sizeOfMemorySpace sizeOfIoSpace : Nat}
    (hmemory : sizeOfMemorySpace < 64)
    (hio : sizeOfIoSpace < 64)
    (hrun : Run GcdStep (initialGcdState sizeOfMemorySpace sizeOfIoSpace) trace s)
    (hrange : ∀ x ∈ trace, x.2.InRange x.1) :
    AllMerged s ∧ ((∀ x ∈ trace, x.2.KeepsAttributes x.1) → AllAllowed s) := by
  have hmemory' : 2 ^ sizeOfMemorySpace ≤ 2 ^ 63 := Nat.pow_le_pow_right (by omega) (by omega)
  have hio' : 2 ^ sizeOfIoSpace ≤ 2 ^ 63 := Nat.pow_le_pow_right (by omega) (by omega)
  have hinit : Partitions (2 ^ sizeOfMemorySpace) (2 ^ sizeOfIoSpace)
      (initialGcdState sizeOfMemorySpace sizeOfIoSpace) :=
    ⟨partition_initial hmemory, partition_initial hio⟩
  have htemplate : gcdTemplate.Allowed := rfl
  constructor
  · refine (hrun.invariant
      (I := fun s => Partitions (2 ^ sizeOfMemorySpace) (2 ^ sizeOfIoSpace) s ∧ AllMerged s)
      (fun s call s' hI hok hstep => ⟨hI.1.step hmemory' hio' hok hstep, ?_⟩) hrange
      ⟨hinit, merged_singleton, merged_singleton⟩).2
    cases hstep with
    | convert request env => exact (hI.1.convert_canonical hok).1 hI.2
    | allocate hcall => exact (hI.1.allocate_canonical hmemory' hio' hok hcall).1 hI.2
  · intro hkeeps
    have hboth : ∀ x ∈ trace,
        (fun s (call : GcdCall) => call.InRange s ∧ call.KeepsAttributes s) x.1 x.2 :=
      fun x hx => ⟨hrange x hx, hkeeps x hx⟩
    refine (hrun.invariant
      (I := fun s => Partitions (2 ^ sizeOfMemorySpace) (2 ^ sizeOfIoSpace) s ∧ AllAllowed s)
      (fun s call s' hI (hok : call.InRange s ∧ call.KeepsAttributes s) hstep =>
        ⟨hI.1.step hmemory' hio' hok.1 hstep, ?_⟩)
      hboth ⟨hinit, ?_, ?_⟩).2
    · cases hstep with
      | convert request env => exact (hI.1.convert_canonical hok.1).2 hok.2 hI.2
      | allocate hcall => exact (hI.1.allocate_canonical hmemory' hio' hok.1 hcall).2 hI.2
    · intro entry hentry
      rw [List.mem_singleton.mp hentry]
      exact htemplate
    · intro entry hentry
      rw [List.mem_singleton.mp hentry]
      exact htemplate

theorem gcdMaps_canonical_sample :
    AllMerged (coreConvertSpace (sampleAdd 0x2000 0x1000) sampleEnvironment
        (initialGcdState 36 16)).2 ∧
      ((∀ x ∈ [(initialGcdState 36 16,
          GcdCall.convert (sampleAdd 0x2000 0x1000) sampleEnvironment)],
        x.2.KeepsAttributes x.1) →
        AllAllowed (coreConvertSpace (sampleAdd 0x2000 0x1000) sampleEnvironment
          (initialGcdState 36 16)).2) :=
  gcdMaps_canonical (by decide) (by decide)
    (.single (.convert (initialGcdState 36 16) (sampleAdd 0x2000 0x1000) sampleEnvironment))
    (fun _ hx => by
      rw [List.mem_singleton.mp hx]
      exact Or.inl (by decide))

/-- The requests that give a page an attribute, remove it and add it again. -/
def sampleReuse : List ConvertRequest :=
  [{ sampleAdd 0x2000 0x1000 with capabilities := efiMemoryWb },
    { sampleAdd 0x2000 0x1000 with
      operation := .setAttributesMemory, attributes := efiMemoryWb },
    { sampleAdd 0x2000 0x1000 with operation := .removeMemory },
    sampleAdd 0x2000 0x1000]

/-- The CPU protocol sets every attribute. -/
def sampleCpu : GcdEnvironment := ⟨true, some fun _ _ _ => .success⟩

/-- A page that had `EFI_MEMORY_WB`, was removed and added again without it as a
capability still has the attribute. -/
theorem readdedPage_keepsAttributes :
    ¬∀ sizeOfMemorySpace sizeOfIoSpace trace s, sizeOfMemorySpace < 64 → sizeOfIoSpace < 64 →
      Run GcdStep (initialGcdState sizeOfMemorySpace sizeOfIoSpace) trace s →
      (∀ x ∈ trace, x.2.InRange x.1) → AllMerged s ∧ AllAllowed s := by
  intro h
  have hrun : ∃ trace, Run GcdStep (initialGcdState 36 16) trace
      (sampleReuse.foldl (fun s request => (coreConvertSpace request sampleCpu s).2)
        (initialGcdState 36 16)) ∧ ∀ x ∈ trace, x.2.InRange x.1 := by
    refine ⟨_, .cons (.convert _ _ sampleCpu) (.cons (.convert _ _ sampleCpu)
      (.cons (.convert _ _ sampleCpu) (.cons (.convert _ _ sampleCpu) (.nil _)))), ?_⟩
    intro x hx
    simp only [List.mem_cons, List.not_mem_nil, or_false] at hx
    rcases hx with rfl | rfl | rfl | rfl
    · exact Or.inl (by decide)
    · exact Or.inl (by decide)
    · exact Or.inl (by decide)
    · exact Or.inl (by decide)
  obtain ⟨trace, hrun, hrange⟩ := hrun
  have hallowed := (h 36 16 trace _ (by decide) (by decide) hrun hrange).2.memory
    ⟨⟨efiMemoryRuntime, efiMemoryWb, 2, 0, none, none⟩, 0x2000, 0x2fff⟩ (by decide)
  exact absurd hallowed (by decide)

end Run

end Gcd
end Udk
