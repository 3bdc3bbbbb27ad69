import Udk.AuthVariableLib.Moves

/-!
# The key database

How `AuthVarKeyDatabase` is read back, which index `GetAvailableKeyIndex` returns, and
what the collection of keys over all variables keeps.
-/

namespace Udk
namespace AuthVariableLib

open Variable List

section Codec

@[simp] theorem keyEntry_length
    (entry : AuthvarKeyDbData) :
    entry.bytes.length = keyDbDataSize := by
  simp [AuthvarKeyDbData.bytes, entry.keyData.length_eq, keyDbDataSize]

theorem read_keyEntry
    (entry : AuthvarKeyDbData) (rest : Bytes) :
    AuthvarKeyDbData.read (entry.bytes ++ rest) = entry := by
  obtain ⟨keyIndex, ⟨keyData, hlength⟩⟩ := entry
  have hindex : UInt32.ofNat (field (toLE 4 keyIndex.toNat ++ (keyData ++ rest)) 0 4) =
      keyIndex := by
    have hfield := @field_at [] (keyData ++ rest) 0 4 keyIndex.toNat rfl
      (by have := keyIndex.toNat_lt; omega)
    rw [nil_append] at hfield
    rw [hfield, UInt32.ofNat_toNat]
  have hkey : ((toLE 4 keyIndex.toNat ++ (keyData ++ rest)).drop 4 ++
      List.replicate 256 0).take 256 = keyData := by
    rw [drop_left' (toLE_length 4 keyIndex.toNat), append_assoc,
      take_left' hlength]
  simp only [AuthvarKeyDbData.bytes, AuthvarKeyDbData.read, append_assoc, hindex, hkey]

@[simp] theorem keyDbBytes_length
    (entries : List AuthvarKeyDbData) :
    (keyDbBytes entries).length = keyDbDataSize * entries.length := by
  induction entries with
  | nil => rfl
  | cons entry entries ih =>
      unfold keyDbBytes at ih ⊢
      rw [flatMap_cons, length_append, ih, keyEntry_length, length_cons]
      ring

theorem readKeyDb_keyDbBytes
    (entries : List AuthvarKeyDbData) :
    readKeyDb (keyDbBytes entries) entries.length = entries := by
  induction entries with
  | nil => rfl
  | cons entry entries ih =>
      have hcons : keyDbBytes (entry :: entries) = entry.bytes ++ keyDbBytes entries := rfl
      have htail : ∀ i, (keyDbBytes (entry :: entries)).drop (keyDbDataSize * (i + 1)) =
          (keyDbBytes entries).drop (keyDbDataSize * i) := by
        intro i
        rw [hcons, Nat.mul_succ, Nat.add_comm, ← drop_drop,
          drop_left' (keyEntry_length entry)]
      unfold readKeyDb at ih ⊢
      rw [length_cons, range_succ_eq_map, map_cons, map_map, Nat.mul_zero,
        drop_zero]
      congr 1
      · rw [hcons, read_keyEntry]
      · refine (map_congr_left (fun i _ => ?_)).trans ih
        rw [Function.comp_apply, Nat.succ_eq_add_one, htail]

theorem keyDbEntries_keyDbBytes
    (entries : List AuthvarKeyDbData) :
    keyDbEntries (keyDbBytes entries) = entries := by
  have hnumber : ((keyDbBytes entries).length + (keyDbDataSize - 1)) / keyDbDataSize =
      entries.length := by
    rw [keyDbBytes_length]
    unfold keyDbDataSize
    omega
  rw [keyDbEntries, hnumber, readKeyDb_keyDbBytes]

end Codec

section FreeIndex

variable {entries : List AuthvarKeyDbData}

variable (P : Platform)

theorem mMaxKeyNumber_lt :
    mMaxKeyNumber P < 2 ^ 32 - 1 := by
  unfold mMaxKeyNumber keyDbDataSize
  omega

theorem exists_free_index
    {n : Nat} (h : entries.length < n) :
    ∃ index ∈ (List.range n).map (· + 1),
      entries.any (fun e => e.keyIndex.toNat == index) = false := by
  by_contra hfull
  simp only [not_exists, not_and] at hfull
  have hsubset : (List.range n).map (· + 1) ⊆ entries.map (fun e => e.keyIndex.toNat) := by
    intro index hindex
    obtain ⟨e, he, heq⟩ := any_eq_true.mp (Bool.not_eq_false _ ▸ hfull index hindex)
    exact mem_map.mpr ⟨e, he, beq_iff_eq.mp heq⟩
  have hnodup : ((List.range n).map (· + 1)).Nodup :=
    nodup_range.map (fun a b h => Nat.succ.inj h)
  have hle := (hnodup.subperm hsubset).length_le
  rw [length_map, length_map, length_range] at hle
  omega

theorem firstFreeIndex_spec
    (h : entries.length < mMaxKeyNumber P) :
    firstFreeIndex P entries ≠ 0 ∧
      ∀ e ∈ entries, e.keyIndex ≠ firstFreeIndex P entries := by
  obtain ⟨index, hindex⟩ := Option.isSome_iff_exists.mp
    (find?_isSome.mpr (by
      obtain ⟨index, hmem, hfree⟩ := exists_free_index h
      exact ⟨index, hmem, by rw [hfree]; rfl⟩ :
        ∃ index ∈ (List.range (mMaxKeyNumber P)).map (· + 1),
          (!entries.any (fun e => e.keyIndex.toNat == index)) = true))
  have hmem := mem_of_find?_eq_some hindex
  have hfree := find?_some hindex
  obtain ⟨i, hi, rfl⟩ := mem_map.mp hmem
  rw [List.mem_range] at hi
  have hmax := mMaxKeyNumber_lt P
  have hvalue : (firstFreeIndex P entries).toNat = i + 1 := by
    rw [firstFreeIndex, hindex, Option.getD_some, UInt32.toNat_ofNat']
    exact Nat.mod_eq_of_lt (by omega)
  constructor
  · intro h0
    rw [h0] at hvalue
    exact absurd hvalue (by simp)
  · intro e he heq
    rw [Bool.not_eq_true', any_eq_false] at hfree
    refine hfree e he ?_
    rw [heq, hvalue, beq_self_eq_true]

end FreeIndex

section Enumerate

variable {s : AuthState}

/-- The variables that can be enumerated. -/
def enumerated (s : AuthState) : List AuthVariable :=
  s.vars.filter (·.isAccessible s.atRuntime)

/-- Two records of one variable. -/
def AuthVariable.SameName (v w : AuthVariable) : Prop :=
  v.variableName = w.variableName ∧ v.vendorGuid = w.vendorGuid

/-- Every variable has a name, and those that are enumerated have different ones. -/
structure NamesDistinct (s : AuthState) : Prop where
  nonempty : ∀ v ∈ s.vars, v.variableName.chars ≠ []
  distinct : (enumerated s).Pairwise (fun v w => ¬v.SameName w)

theorem findNextVariable_behind
    {before behind : List AuthVariable} {v : AuthVariable}
    (hnames : NamesDistinct s) (hvars : s.vars = before ++ v :: behind)
    (hacc : v.isAccessible s.atRuntime = true) :
    variableExLibFindNextVariable s v.variableName v.vendorGuid =
      behind.find? (·.isAccessible s.atRuntime) := by
  have hname : v.variableName.chars ≠ [] := hnames.nonempty v (by rw [hvars]; simp)
  have hbefore : ∀ w ∈ before,
      (!w.isFound v.variableName v.vendorGuid false s.atRuntime) = true := by
    intro w hw
    rw [isFound_eq, Bool.not_eq_true', Bool.and_eq_false_iff]
    by_contra hboth
    simp only [not_or, Bool.not_eq_false, isNamed_iff] at hboth
    obtain ⟨hsame, hw'⟩ := hboth
    have hdistinct := hnames.distinct
    rw [enumerated, hvars, filter_append, pairwise_append] at hdistinct
    refine hdistinct.2.2 w ?_ v ?_ hsame
    · exact mem_filter.mpr ⟨hw, hw'⟩
    · exact mem_filter.mpr ⟨mem_cons_self, hacc⟩
  have hv : (!v.isFound v.variableName v.vendorGuid false s.atRuntime) = false := by
    rw [isFound_eq, hacc, isNamed_iff.mpr ⟨rfl, rfl⟩]
    rfl
  unfold variableExLibFindNextVariable
  rw [if_neg hname, hvars, dropWhile_append_of_pos hbefore, dropWhile_cons, hv]
  rfl

/-- The collection from one variable on visits those behind it. -/
theorem collectKeys_behind
    (db : List AuthvarKeyDbData) (hnames : NamesDistinct s)
    {fuel : Nat} {before behind : List AuthVariable} {v : AuthVariable}
    (collected : List AuthvarKeyDbData)
    (hvars : s.vars = before ++ v :: behind) (hacc : v.isAccessible s.atRuntime = true)
    (hfuel : behind.length < fuel) :
    collectKeys s db fuel v.variableName v.vendorGuid collected =
      some ((behind.filter (·.isAccessible s.atRuntime)).foldl (collectKey db) collected) := by
  induction fuel generalizing before behind v collected with
  | zero => omega
  | succ fuel ih =>
      unfold collectKeys
      rw [findNextVariable_behind hnames hvars hacc]
      cases hnext : behind.find? (·.isAccessible s.atRuntime) with
      | none =>
          have hnil : behind.filter (·.isAccessible s.atRuntime) = [] := by
            rw [filter_eq_nil_iff]
            exact find?_eq_none.mp hnext
          rw [hnil]
          rfl
      | some w =>
          obtain ⟨hw, skipped, rest, hsplit, hskipped⟩ := find?_eq_some_iff_append.mp hnext
          have hfilter : behind.filter (·.isAccessible s.atRuntime) =
              w :: rest.filter (·.isAccessible s.atRuntime) := by
            rw [hsplit]
            exact filter_append_cons hskipped hw
          have hvars' : s.vars = (before ++ v :: skipped) ++ w :: rest := by
            rw [hvars, hsplit]
            simp
          have hlength : rest.length < fuel := by
            rw [hsplit, length_append, length_cons] at hfuel
            omega
          dsimp only
          rw [hfilter, foldl_cons]
          exact ih (collectKey db collected w) hvars' hw hlength

theorem collectKeys_all
    (db : List AuthvarKeyDbData) (hnames : NamesDistinct s) {guid : Guid}
    {name : Char16Str} (hname : name.chars = []) :
    collectKeys s db (s.vars.length + 1) name guid [] =
      some ((enumerated s).foldl (collectKey db) []) := by
  unfold collectKeys variableExLibFindNextVariable
  rw [if_pos hname]
  cases hfirst : s.vars.find? (isEnumerated s) with
  | none =>
      have hnil : enumerated s = [] := by
        rw [enumerated, filter_eq_nil_iff]
        exact find?_eq_none.mp hfirst
      rw [hnil]
      rfl
  | some w =>
      obtain ⟨hw, skipped, rest, hsplit, hskipped⟩ := find?_eq_some_iff_append.mp hfirst
      have hfilter : enumerated s = w :: rest.filter (·.isAccessible s.atRuntime) := by
        rw [enumerated, hsplit]
        exact filter_append_cons hskipped hw
      dsimp only
      rw [hfilter, foldl_cons]
      refine collectKeys_behind db hnames (collectKey db [] w) hsplit hw ?_
      rw [hsplit, length_append, length_cons]
      omega

end Enumerate

section Collect

variable {db collected : List AuthvarKeyDbData} {v : AuthVariable}
  {entries : List AuthvarKeyDbData} {entry : AuthvarKeyDbData}

/-- The keys collected are entries of the database, with different indices. -/
structure CollectedFrom (db collected : List AuthvarKeyDbData) : Prop where
  subset : collected ⊆ db
  nodup : (collected.map AuthvarKeyDbData.keyIndex).Nodup

theorem findKey_isSome_iff
    {keyIndex : UInt32} :
    (findKey entries keyIndex).isSome = true ↔
      keyIndex ∈ entries.map AuthvarKeyDbData.keyIndex := by
  simp [findKey]

theorem filter_keyIndex
    (hnodup : (entries.map AuthvarKeyDbData.keyIndex).Nodup) (hentry : entry ∈ entries) :
    entries.filter (·.keyIndex == entry.keyIndex) = [entry] := by
  induction entries with
  | nil => cases hentry
  | cons e entries ih =>
      rw [map_cons, nodup_cons] at hnodup
      obtain ⟨hnot, hnodup⟩ := hnodup
      rcases mem_cons.mp hentry with rfl | hentry
      · have hnil : entries.filter (·.keyIndex == entry.keyIndex) = [] := by
          rw [filter_eq_nil_iff]
          intro e' he' heq
          exact hnot (mem_map.mpr ⟨e', he', beq_iff_eq.mp heq⟩)
        rw [filter_cons, beq_self_eq_true, if_pos rfl, hnil]
      · have hne : (e.keyIndex == entry.keyIndex) = false := by
          rw [beq_eq_false_iff_ne]
          intro heq
          exact hnot (mem_map.mpr ⟨entry, hentry, heq.symm⟩)
        rw [filter_cons, hne, if_neg Bool.false_ne_true]
        exact ih hnodup hentry

theorem collectKey_from
    (h : CollectedFrom db collected) (v : AuthVariable) :
    CollectedFrom db (collectKey db collected v) := by
  unfold collectKey
  split
  · exact h
  · split
    · exact h
    · rename_i entry hentry
      have hindex : entry.keyIndex = v.pubKeyIndex := by
        simpa using find?_some hentry
      split
      · exact h
      · rename_i hnew
        constructor
        · exact append_subset.mpr ⟨h.subset,
            cons_subset.mpr
              ⟨mem_of_find?_eq_some hentry, nil_subset _⟩⟩
        · rw [findKey_isSome_iff] at hnew
          rw [map_append, map_singleton, nodup_append]
          refine ⟨h.nodup, nodup_singleton _, fun a ha b hb hab => hnew ?_⟩
          rw [mem_singleton] at hb
          rw [← hindex, ← hb, ← hab]
          exact ha

theorem collectKey_subset
    (v : AuthVariable) :
    collected ⊆ collectKey db collected v := by
  unfold collectKey
  split
  · exact List.Subset.refl _
  · split
    · exact List.Subset.refl _
    · split
      · exact List.Subset.refl _
      · exact subset_append_left _ _

theorem collectKey_mem
    (hnodup : (db.map AuthvarKeyDbData.keyIndex).Nodup)
    (h : CollectedFrom db collected) (hv : v.pubKeyIndex ≠ 0) (hentry : entry ∈ db)
    (hindex : entry.keyIndex = v.pubKeyIndex) :
    entry ∈ collectKey db collected v := by
  have hunique : ∀ e ∈ db, e.keyIndex = v.pubKeyIndex → e = entry := fun e he heq =>
    inj_on_of_nodup_map hnodup he hentry (heq.trans hindex.symm)
  have hfound : findKey db v.pubKeyIndex = some entry := by
    obtain ⟨e, he⟩ := Option.isSome_iff_exists.mp
      (findKey_isSome_iff.mpr (mem_map.mpr ⟨entry, hentry, hindex⟩))
    rw [he, hunique e (mem_of_find?_eq_some he) (by simpa using find?_some he)]
  unfold collectKey
  rw [if_neg hv, hfound]
  dsimp only
  split
  · rename_i hsome
    rw [findKey_isSome_iff, mem_map] at hsome
    obtain ⟨e, he, heq⟩ := hsome
    rw [← hunique e (h.subset he) heq]
    exact he
  · exact mem_append_right _ (mem_singleton.mpr rfl)

theorem collect_spec
    (hnodup : (db.map AuthvarKeyDbData.keyIndex).Nodup) (vars : List AuthVariable)
    (h : CollectedFrom db collected) :
    CollectedFrom db (vars.foldl (collectKey db) collected) ∧
      collected ⊆ vars.foldl (collectKey db) collected ∧
      ∀ v ∈ vars, v.pubKeyIndex ≠ 0 → ∀ entry ∈ db, entry.keyIndex = v.pubKeyIndex →
        entry ∈ vars.foldl (collectKey db) collected := by
  induction vars generalizing collected with
  | nil => exact ⟨h, List.Subset.refl _, fun v hv => absurd hv not_mem_nil⟩
  | cons w vars ih =>
      obtain ⟨hfrom, hsubset, hkeys⟩ := ih (collectKey_from h w)
      refine ⟨hfrom, List.Subset.trans (collectKey_subset w) hsubset, ?_⟩
      intro v hv hindex entry hentry hkey
      rcases mem_cons.mp hv with rfl | hv
      · exact hsubset (collectKey_mem hnodup h hindex hentry hkey)
      · exact hkeys v hv hindex entry hentry hkey

theorem collect_none
    {vars : List AuthVariable} (h : ∀ v ∈ vars, v.pubKeyIndex = 0) :
    vars.foldl (collectKey db) collected = collected := by
  induction vars with
  | nil => rfl
  | cons w vars ih =>
      have hw : collectKey db collected w = collected :=
        if_pos (h w mem_cons_self)
      rw [foldl_cons, hw]
      exact ih (fun v hv => h v (mem_cons_of_mem _ hv))

end Collect

end AuthVariableLib
end Udk
