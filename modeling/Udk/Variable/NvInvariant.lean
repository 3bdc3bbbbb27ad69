import Udk.Variable.NvStore

/-!
# Flash and its memory copy

The cache mirrors the records of the flash store; only the data of the error flag
variable may differ.  `NvInv` collects what every operation on the non-volatile
store keeps, also when store writes fail.
-/

namespace Udk
namespace Variable

open List

/-- The key of the error flag variable. -/
def varErrorFlagKey : Guid × Bytes :=
  keyOf varErrorFlagName edkiiVarErrorFlagGuid

/-- The cached copy of a record: equal up to the data of the error flag. -/
structure Mirrors (authFormat : Bool) (r c : Bytes) : Prop where
  length_eq : c.length = r.length
  take_eq : c.take (getVariableDataOffset authFormat r) =
    r.take (getVariableDataOffset authFormat r)
  same : recordKey authFormat r ≠ varErrorFlagKey → c = r

namespace Mirrors

variable {authFormat : Bool} {r c : Bytes}

theorem refl (r : Bytes) : Mirrors authFormat r r :=
  ⟨rfl, rfl, fun _ => rfl⟩

theorem split (h : Mirrors authFormat r c) (hr : IsRecord authFormat r) :
    ∃ start b b', r = start ++ b ∧ c = start ++ b' ∧ b.length = b'.length ∧
      start.length = getVariableDataOffset authFormat r := by
  have hoff := hr.dataOffset_le
  refine ⟨r.take (getVariableDataOffset authFormat r),
    r.drop (getVariableDataOffset authFormat r), c.drop (getVariableDataOffset authFormat r),
    (take_append_drop _ _).symm, ?_, ?_, ?_⟩
  · rw [← h.take_eq, take_append_drop]
  · rw [length_drop, length_drop, h.length_eq]
  · rw [length_take, Nat.min_eq_left hoff]

theorem agree (h : Mirrors authFormat r c) (hr : IsRecord authFormat r) :
    state c = state r ∧ attributes c = attributes r ∧
      recordKey authFormat c = recordKey authFormat r ∧
      getVariableDataOffset authFormat c = getVariableDataOffset authFormat r ∧
      dataSizeOfVariable authFormat c = dataSizeOfVariable authFormat r ∧
      startId c = startId r := by
  obtain ⟨start, b, b', rfl, rfl, -, hlen⟩ := h.split hr
  have h32 := headerSize_le authFormat
  have hhdr : getVariableHeaderSize authFormat ≤ start.length := by
    rw [hlen]
    unfold getVariableDataOffset
    omega
  have hoff := getVariableDataOffset_append b hhdr
  have hname : getVariableDataOffset authFormat start ≤ start.length := by
    rw [hlen, hoff]
  simp only [state_append _ (show 32 ≤ start.length by omega),
    attributes_append _ (show 32 ≤ start.length by omega),
    startId_append _ (show 32 ≤ start.length by omega), recordKey,
    vendorGuid_append _ hhdr, IsRecord.variableName_append_of_le hname,
    getVariableDataOffset_append _ hhdr, dataSizeOfVariable_append _ hhdr, and_self]

theorem isRecord (h : Mirrors authFormat r c) (hr : IsRecord authFormat r) :
    IsRecord authFormat c := by
  obtain ⟨-, -, -, hoff, hdata, hid⟩ := h.agree hr
  refine ⟨by rw [hid, hr.startId_eq], ?_⟩
  rw [h.length_eq, ← hr.length_eq, variableSize, hoff, hdata, variableSize]

theorem hasName (h : Mirrors authFormat r c) (hr : IsRecord authFormat r)
    (hname : HasName authFormat r) : HasName authFormat c := by
  obtain ⟨name, hne, heq⟩ := hname
  have hkey := congrArg Prod.snd (h.agree hr).2.2.1
  exact ⟨name, hne, by rw [← heq]; exact hkey⟩

end Mirrors

section Lists

variable {authFormat : Bool}

theorem located_mirror
    {rs rsC : List Bytes} (h : List.Forall₂ (Mirrors authFormat) rs rsC) (base : Nat) :
    ∃ zs : List (Nat × Bytes × Bytes),
      located base rs = zs.map (fun z => (z.1, z.2.1)) ∧
      located base rsC = zs.map (fun z => (z.1, z.2.2)) ∧
      ∀ z ∈ zs, Mirrors authFormat z.2.1 z.2.2 := by
  induction h generalizing base with
  | nil => exact ⟨[], rfl, rfl, by simp⟩
  | @cons r c rs rsC hrc _ ih =>
      obtain ⟨zs, h1, h2, h3⟩ := ih (base + r.length)
      refine ⟨(base, r, c) :: zs, ?_, ?_, ?_⟩
      · simp [located, h1]
      · simp [located, hrc.length_eq, h2]
      · intro z hz
        rcases mem_cons.mp hz with rfl | hz
        · exact hrc
        · exact h3 z hz

theorem flatten_length_mirror
    {rs rsC : List Bytes} (h : List.Forall₂ (Mirrors authFormat) rs rsC) :
    rsC.flatten.length = rs.flatten.length := by
  induction h with
  | nil => rfl
  | cons hrc _ ih => simp only [flatten_cons, length_append, hrc.length_eq, ih]

theorem mem_located_mirror
    {rs rsC : List Bytes} (h : List.Forall₂ (Mirrors authFormat) rs rsC)
    {base off : Nat} {r : Bytes} (hmem : (off, r) ∈ located base rs) :
    ∃ c, (off, c) ∈ located base rsC ∧ Mirrors authFormat r c := by
  obtain ⟨zs, h1, h2, h3⟩ := located_mirror h base
  rw [h1, mem_map] at hmem
  obtain ⟨⟨o, x, c⟩, hz, heq⟩ := hmem
  cases heq
  exact ⟨c, h2 ▸ mem_map.mpr ⟨_, hz, rfl⟩, h3 _ hz⟩

theorem forall₂_modifyAt
    {rs rsC : List Bytes} (h : List.Forall₂ (Mirrors authFormat) rs rsC)
    {f g : Bytes → Bytes} {base off : Nat}
    (hmod : ∀ r c, (off, r) ∈ located base rs → Mirrors authFormat r c →
      Mirrors authFormat (f r) (g c)) :
    List.Forall₂ (Mirrors authFormat) (modifyAt off f base rs) (modifyAt off g base rsC) := by
  induction h generalizing base with
  | nil => exact List.Forall₂.nil
  | @cons r c rs rsC hrc hrest ih =>
      rw [modifyAt, modifyAt]
      split_ifs with hoff
      · exact List.Forall₂.cons (hmod r c (by simp [located, hoff]) hrc) hrest
      · rw [hrc.length_eq]
        exact List.Forall₂.cons hrc
          (ih (fun r' c' hmem => hmod r' c' (mem_cons_of_mem _ hmem)))

end Lists

/-- The state of the non-volatile store between operations: flash shows `rs`, the cache
has a copy of them, and the driver's end of the store is the end of `rs`. -/
structure NvInv (P : Platform) (d : Driver) (rs : List Bytes) : Prop where
  flash : Shows P.authFormat d.flash rs
  cache : ∃ rsC, Shows P.authFormat d.mNvVariableCache rsC ∧
    List.Forall₂ (Mirrors P.authFormat) rs rsC
  wellFormed : WellFormed P.authFormat rs
  last : d.nonVolatileLastVariableOffset = storeHeaderSize + rs.flatten.length
  erased : Erased d.flash d.nonVolatileLastVariableOffset →
    Erased d.mNvVariableCache d.nonVolatileLastVariableOffset
  flash_length : d.flash.length = P.storeLength
  cache_length : d.mNvVariableCache.length = P.storeLength

section Find

variable {authFormat : Bool} {img : Bytes} {rs : List Bytes}

theorem Shows.isRecord (h : Shows authFormat img rs) : ∀ r ∈ rs, IsRecord authFormat r := by
  obtain ⟨_, _, _, hlayout, _⟩ := h
  exact fun r hr => hlayout.records r (mem_append_left _ hr)

theorem Shows.ne_nil (h : Shows authFormat img rs) : ∀ r ∈ rs, r ≠ [] := by
  rintro r hr rfl
  have := (h.isRecord _ hr).length_ge
  simp at this

theorem findVariableEx_shows
    (h : Shows authFormat img rs)
    (name : Char16Str) (guid : Guid) (ignoreRtCheck atRuntime : Bool) :
    findVariableEx authFormat img name guid ignoreRtCheck atRuntime =
      let found := VersionLog.scan
        (fun e => isAdded e.2 && isCandidate authFormat name guid ignoreRtCheck atRuntime e.2)
        (fun e => isInTransition e.2 &&
          isCandidate authFormat name guid ignoreRtCheck atRuntime e.2)
        (located storeHeaderSize rs) none
      (found.1.map Prod.fst, found.2.map Prod.fst) := by
  obtain ⟨header, junk, tail, hlayout, hdead⟩ := h
  rw [findVariableEx_layout hlayout, located_append]
  rw [VersionLog.scan_append_dead]
  rintro ⟨off, r⟩ hmem
  have hlive := hdead r (mem_of_mem_located hmem)
  rw [isLive_eq, Bool.or_eq_false_iff] at hlive
  simp [hlive.1, hlive.2]

/-- The cache is searched with the same result as flash. -/
theorem findVariableEx_mirror
    {cache : Bytes} {rsC : List Bytes}
    (h : Shows authFormat img rs) (hcache : Shows authFormat cache rsC)
    (hmirror : List.Forall₂ (Mirrors authFormat) rs rsC)
    (name : Char16Str) (guid : Guid) (ignoreRtCheck atRuntime : Bool) :
    findVariableEx authFormat cache name guid ignoreRtCheck atRuntime =
      findVariableEx authFormat img name guid ignoreRtCheck atRuntime := by
  obtain ⟨zs, h1, h2, h3⟩ := located_mirror hmirror storeHeaderSize
  have hz : ∀ z ∈ zs, isAdded z.2.2 = isAdded z.2.1 ∧ isInTransition z.2.2 = isInTransition z.2.1 ∧
      isCandidate authFormat name guid ignoreRtCheck atRuntime z.2.2 =
        isCandidate authFormat name guid ignoreRtCheck atRuntime z.2.1 := by
    intro z hzs
    have hm := h3 z hzs
    have hmem : (z.1, z.2.1) ∈ located storeHeaderSize rs :=
      h1 ▸ mem_map.mpr ⟨z, hzs, rfl⟩
    have hr := h.isRecord _ (mem_of_mem_located hmem)
    obtain ⟨hstate, hattr, hkey, hoff, -, -⟩ := hm.agree hr
    have hname : nameSizeOfVariable authFormat z.2.2 = nameSizeOfVariable authFormat z.2.1 := by
      have h' : getVariableHeaderSize authFormat + nameSizeOfVariable authFormat z.2.2 =
        getVariableHeaderSize authFormat + nameSizeOfVariable authFormat z.2.1 := hoff
      omega
    have hguid := congrArg Prod.fst hkey
    have hbytes := congrArg Prod.snd hkey
    simp only [recordKey] at hguid hbytes
    simp only [isAdded, isInTransition, hstate, isCandidate, isVisible, hattr, nameMatches, hname,
      hguid, hbytes, and_self]
  rw [findVariableEx_shows hcache, findVariableEx_shows h, h1, h2]
  have e1 := VersionLog.scan_map
    (fun e : Nat × Bytes => isAdded e.2 &&
      isCandidate authFormat name guid ignoreRtCheck atRuntime e.2)
    (fun e : Nat × Bytes => isInTransition e.2 &&
      isCandidate authFormat name guid ignoreRtCheck atRuntime e.2)
    (fun z : Nat × Bytes × Bytes => (z.1, z.2.2)) zs none
  have e2 := VersionLog.scan_map
    (fun e : Nat × Bytes => isAdded e.2 &&
      isCandidate authFormat name guid ignoreRtCheck atRuntime e.2)
    (fun e : Nat × Bytes => isInTransition e.2 &&
      isCandidate authFormat name guid ignoreRtCheck atRuntime e.2)
    (fun z : Nat × Bytes × Bytes => (z.1, z.2.1)) zs none
  have e3 := VersionLog.scan_congr
    (fun z : Nat × Bytes × Bytes => isAdded z.2.2 &&
      isCandidate authFormat name guid ignoreRtCheck atRuntime z.2.2)
    (fun z : Nat × Bytes × Bytes => isInTransition z.2.2 &&
      isCandidate authFormat name guid ignoreRtCheck atRuntime z.2.2)
    (fun z : Nat × Bytes × Bytes => isAdded z.2.1 &&
      isCandidate authFormat name guid ignoreRtCheck atRuntime z.2.1)
    (fun z : Nat × Bytes × Bytes => isInTransition z.2.1 &&
      isCandidate authFormat name guid ignoreRtCheck atRuntime z.2.1)
    zs none
    (fun z hzs => by rw [(hz z hzs).1, (hz z hzs).2.2])
    (fun z hzs => by rw [(hz z hzs).2.1, (hz z hzs).2.2])
  simp only [Option.map_none] at e1 e2
  rw [e1, e2, e3]
  simp only [Option.map_map]
  rfl

end Find

end Variable
end Udk
