import Udk.AuthVariableLib.KeyDatabase
import Udk.AuthVariableLib.Requests

/-!
# Public key indices

A counter-based variable names its key by an index.  While the key store in memory and
the stored database both hold the key of every variable under its index, with different
indices, an index that is free in memory belongs to no variable.
-/

namespace Udk
namespace AuthVariableLib

open Variable List

section Invariant

/-- The keys in `AuthVarKeyDatabase`. -/
def persistentKeys (s : AuthState) : List AuthvarKeyDbData :=
  match findVariable s authvarKeydbName efiAuthenticatedVariableGuid true with
  | none => []
  | some v => readKeyDb v.data (v.data.length / keyDbDataSize)

/-- A record of `AuthVarKeyDatabase` as the library writes it. -/
structure IsDbRecord (v : AuthVariable) : Prop where
  attributes : v.attributes = variableAttributeNvBsRtAw
  pubKeyIndex : v.pubKeyIndex = 0
  data : v.data = [0] ∨ ∃ entries, v.data = keyDbBytes entries

/-- The entries hold the key of every variable under its index. -/
def BoundIn (entries : List AuthvarKeyDbData) (key : Char16Str → Guid → PublicKey)
    (s : AuthState) : Prop :=
  ∀ v ∈ s.vars, v.pubKeyIndex ≠ 0 →
    ⟨v.pubKeyIndex, key v.variableName v.vendorGuid⟩ ∈ entries

/-- The stored database holds the keys of the stored variables. -/
structure KeysStored (P : Platform) (key : Char16Str → Guid → PublicKey) (s : AuthState) :
    Prop extends NamesDistinct s where
  nodup : ((persistentKeys s).map AuthvarKeyDbData.keyIndex).Nodup
  length : (persistentKeys s).length ≤ mMaxKeyNumber P
  bound : BoundIn (persistentKeys s) key s

/-- So does the key store in memory. -/
structure KeysBound (P : Platform) (key : Char16Str → Guid → PublicKey) (s : AuthState) :
    Prop extends KeysStored P key s where
  db : ∃ v, recordsOf s authvarKeydbName efiAuthenticatedVariableGuid = [v] ∧ IsDbRecord v
  nodup_memory : (s.mPubKeyStore.map AuthvarKeyDbData.keyIndex).Nodup
  length_memory : s.mPubKeyStore.length ≤ mMaxKeyNumber P
  bound_memory : BoundIn s.mPubKeyStore key s

end Invariant

section Frame

variable {P : Platform} {env : Environment} {s s' : AuthState}
variable {key key' : Char16Str → Guid → PublicKey} {v : AuthVariable}

theorem persistentKeys_eq
    (h : recordsOf s' authvarKeydbName efiAuthenticatedVariableGuid =
      recordsOf s authvarKeydbName efiAuthenticatedVariableGuid) :
    persistentKeys s' = persistentKeys s := by
  unfold persistentKeys
  rw [findVariable_ignore, findVariable_ignore, h]

theorem persistentKeys_of_record
    (h : recordsOf s authvarKeydbName efiAuthenticatedVariableGuid = [v]) :
    persistentKeys s = readKeyDb v.data (v.data.length / keyDbDataSize) := by
  unfold persistentKeys
  rw [findVariable_ignore, h]
  rfl

theorem persistentKeys_keyDbBytes
    {entries : List AuthvarKeyDbData}
    (h : recordsOf s authvarKeydbName efiAuthenticatedVariableGuid = [v])
    (hdata : v.data = keyDbBytes entries) :
    persistentKeys s = entries := by
  have hnumber : (keyDbBytes entries).length / keyDbDataSize = entries.length := by
    rw [keyDbBytes_length]
    exact Nat.mul_div_cancel_left _ (by decide)
  rw [persistentKeys_of_record h, hdata, hnumber, readKeyDb_keyDbBytes]

theorem IsDbRecord.isAccessible
    (h : IsDbRecord v) (atRuntime : Bool) :
    v.isAccessible atRuntime = true := by
  have hruntime : hasAttribute v.attributes efiVariableRuntimeAccess = true := by
    rw [h.attributes]
    decide
  simp [AuthVariable.isAccessible, hruntime]

theorem IsDbRecord.found
    (h : IsDbRecord v)
    (hv : recordsOf s authvarKeydbName efiAuthenticatedVariableGuid = [v]) :
    variableExLibFindVariable s authvarKeydbName efiAuthenticatedVariableGuid = some v := by
  rw [variableExLibFindVariable, findVariable_eq, hv]
  simp [h.isAccessible]

theorem BoundIn.mono
    {entries entries' : List AuthvarKeyDbData} (hsubset : entries ⊆ entries')
    (h : BoundIn entries key s) :
    BoundIn entries' key s :=
  fun v hv hindex => hsubset (h v hv hindex)

theorem mem_vars_update
    {req : UpdateRequest}
    (hv : v ∈ (variableExLibUpdateVariable P env s req).2.vars) :
    v ∈ s.vars ∨ (v.variableName = req.variableName ∧ v.vendorGuid = req.vendorGuid ∧
      v.pubKeyIndex = req.keyIndex) := by
  rcases update_vars P env s req with ⟨h, -⟩ | ⟨-, h⟩ | ⟨w, hw, h⟩
  · rw [h] at hv
    exact Or.inl hv
  · rw [h] at hv
    exact Or.inl (mem_of_mem_eraseP hv)
  · rw [h, mem_append, mem_singleton] at hv
    rcases hv with hv | rfl
    · exact Or.inl (mem_of_mem_eraseP hv)
    · obtain ⟨data, rfl⟩ := updateDecision_install hw
      exact Or.inr ⟨rfl, rfl, rfl⟩

theorem not_isFound_of_eraseP
    {name : Char16Str} {guid : Guid} {atRuntime : Bool} {l : List AuthVariable}
    (h : (l.filter (·.isAccessible atRuntime)).Pairwise (fun v w => ¬v.SameName w))
    {w : AuthVariable} (hw : w ∈ l.eraseP (·.isFound name guid false atRuntime)) :
    w.isFound name guid false atRuntime = false := by
  induction l with
  | nil => cases hw
  | cons a l ih =>
      rw [isFound_eq]
      cases ha : a.isFound name guid false atRuntime with
      | true =>
          rw [eraseP_cons, ha, cond_true] at hw
          rw [isFound_eq, Bool.and_eq_true, isNamed_iff] at ha
          rw [filter_cons, if_pos ha.2, pairwise_cons] at h
          by_contra hcontra
          rw [Bool.not_eq_false, Bool.and_eq_true, isNamed_iff] at hcontra
          exact h.1 w (mem_filter.mpr ⟨hw, hcontra.2⟩)
            ⟨ha.1.1.trans hcontra.1.1.symm, ha.1.2.trans hcontra.1.2.symm⟩
      | false =>
          rw [eraseP_cons, ha, cond_false] at hw
          rw [← isFound_eq]
          rcases mem_cons.mp hw with rfl | hw
          · exact ha
          · refine ih ?_ hw
            by_cases hacc : a.isAccessible atRuntime = true
            · rw [filter_cons, if_pos hacc, pairwise_cons] at h
              exact h.2
            · rw [filter_cons, if_neg hacc] at h
              exact h

theorem NamesDistinct.update
    (req : UpdateRequest) (hname : req.variableName.chars ≠ []) (h : NamesDistinct s) :
    NamesDistinct (variableExLibUpdateVariable P env s req).2 := by
  have hwithout : ((withoutFound s req).filter (·.isAccessible s.atRuntime)).Pairwise
      (fun v w => ¬v.SameName w) :=
    h.distinct.sublist (eraseP_sublist.filter _)
  constructor
  · intro v hv
    rcases mem_vars_update hv with hv | ⟨hv, -, -⟩
    · exact h.nonempty v hv
    · rw [hv]
      exact hname
  · rw [enumerated, update_atRuntime]
    rcases update_vars P env s req with ⟨hvars, -⟩ | ⟨-, hvars⟩ | ⟨w, hw, hvars⟩
    · rw [hvars]
      exact h.distinct
    · rw [hvars]
      exact hwithout
    · rw [hvars, filter_append, pairwise_append]
      refine ⟨hwithout, ?_, ?_⟩
      · exact (pairwise_singleton _ w).sublist filter_sublist
      · intro a ha b hb hsame
        obtain ⟨hamem, hacc⟩ := mem_filter.mp ha
        obtain ⟨data, rfl⟩ := updateDecision_install hw
        rw [mem_singleton.mp (mem_filter.mp hb).1] at hsame
        have hnot := not_isFound_of_eraseP h.distinct hamem
        have hnamed : a.isNamed req.variableName req.vendorGuid = true := isNamed_iff.mpr hsame
        rw [isFound_eq, hacc, hnamed] at hnot
        exact absurd hnot (by decide)

/-- An update that leaves the database, with an index whose key is there. -/
theorem KeysBound.update_records
    (req : UpdateRequest) (hname : req.variableName.chars ≠ [])
    (hrecords : recordsOf (variableExLibUpdateVariable P env s req).2 authvarKeydbName
      efiAuthenticatedVariableGuid = recordsOf s authvarKeydbName efiAuthenticatedVariableGuid)
    (hindex : req.keyIndex ≠ 0 →
      ⟨req.keyIndex, key req.variableName req.vendorGuid⟩ ∈ s.mPubKeyStore ∧
        ⟨req.keyIndex, key req.variableName req.vendorGuid⟩ ∈ persistentKeys s)
    (h : KeysBound P key s) :
    KeysBound P key (variableExLibUpdateVariable P env s req).2 := by
  have hkeys : persistentKeys (variableExLibUpdateVariable P env s req).2 = persistentKeys s :=
    persistentKeys_eq hrecords
  refine ⟨⟨h.toNamesDistinct.update req hname, ?_, ?_, ?_⟩, ?_, ?_, ?_, ?_⟩
  · rw [hkeys]
    exact h.nodup
  · rw [hkeys]
    exact h.length
  · intro v hv hv0
    rw [hkeys]
    rcases mem_vars_update hv with hv | ⟨hn, hg, hi⟩
    · exact h.bound v hv hv0
    · rw [hn, hg, hi]
      exact (hindex (by rw [← hi]; exact hv0)).2
  · rw [hrecords]
    exact h.db
  · rw [update_mPubKeyStore]
    exact h.nodup_memory
  · rw [update_mPubKeyStore]
    exact h.length_memory
  · intro v hv hv0
    rw [update_mPubKeyStore]
    rcases mem_vars_update hv with hv | ⟨hn, hg, hi⟩
    · exact h.bound_memory v hv hv0
    · rw [hn, hg, hi]
      exact (hindex (by rw [← hi]; exact hv0)).1

/-- An update of another variable than the database. -/
theorem KeysBound.update
    (req : UpdateRequest) (hname : req.variableName.chars ≠ [])
    (hother : ¬(authvarKeydbName = req.variableName ∧
      efiAuthenticatedVariableGuid = req.vendorGuid))
    (hindex : req.keyIndex ≠ 0 →
      ⟨req.keyIndex, key req.variableName req.vendorGuid⟩ ∈ s.mPubKeyStore ∧
        ⟨req.keyIndex, key req.variableName req.vendorGuid⟩ ∈ persistentKeys s)
    (h : KeysBound P key s) :
    KeysBound P key (variableExLibUpdateVariable P env s req).2 :=
  h.update_records req hname (recordsOf_update_of_ne P env s req hother) hindex

/-- An update after which the database holds the key store. -/
theorem NamesDistinct.stores
    {req : UpdateRequest} (h : NamesDistinct s) (hname : req.variableName.chars ≠ [])
    (hindex : req.keyIndex = 0)
    (hnodup : (s.mPubKeyStore.map AuthvarKeyDbData.keyIndex).Nodup)
    (hlength : s.mPubKeyStore.length ≤ mMaxKeyNumber P) (hbound : BoundIn s.mPubKeyStore key s)
    (hdb : ∃ v, recordsOf (variableExLibUpdateVariable P env s req).2 authvarKeydbName
      efiAuthenticatedVariableGuid = [v] ∧ IsDbRecord v)
    (hkeys : persistentKeys (variableExLibUpdateVariable P env s req).2 = s.mPubKeyStore) :
    KeysBound P key (variableExLibUpdateVariable P env s req).2 := by
  have hmem : BoundIn s.mPubKeyStore key (variableExLibUpdateVariable P env s req).2 := by
    intro v hv hne
    rcases mem_vars_update hv with hv | ⟨-, -, heq⟩
    · exact hbound v hv hne
    · exact absurd (heq.trans hindex) hne
  have hmemory := update_mPubKeyStore P env s req
  rw [← hmemory] at hnodup hlength hmem hkeys
  exact ⟨⟨h.update req hname, by rwa [hkeys], by rwa [hkeys], by rwa [hkeys]⟩, hdb, hnodup,
    hlength, hmem⟩

theorem KeysStored.congr
    (hvars : s'.vars = s.vars) (hruntime : s'.atRuntime = s.atRuntime) (h : KeysStored P key s) :
    KeysStored P key s' := by
  have hkeys : persistentKeys s' = persistentKeys s :=
    persistentKeys_eq (by rw [recordsOf, hvars]; rfl)
  have hnames : NamesDistinct s' := by
    refine ⟨by rw [hvars]; exact h.nonempty, ?_⟩
    rw [enumerated, hvars, hruntime]
    exact h.distinct
  refine ⟨hnames, ?_, ?_, ?_⟩
  · rw [hkeys]
    exact h.nodup
  · rw [hkeys]
    exact h.length
  · rw [BoundIn, hvars, hkeys]
    exact h.bound

theorem KeysBound.congr
    (hvars : s'.vars = s.vars) (hruntime : s'.atRuntime = s.atRuntime)
    (hstore : s'.mPubKeyStore = s.mPubKeyStore) (h : KeysBound P key s) :
    KeysBound P key s' := by
  refine ⟨h.toKeysStored.congr hvars hruntime, ?_, ?_, ?_, ?_⟩
  · rw [recordsOf, hvars]
    exact h.db
  · rw [hstore]
    exact h.nodup_memory
  · rw [hstore]
    exact h.length_memory
  · rw [BoundIn, hvars, hstore]
    exact h.bound_memory

theorem KeysBound.congr_key
    (hkey : ∀ v ∈ s.vars, key' v.variableName v.vendorGuid = key v.variableName v.vendorGuid)
    (h : KeysBound P key s) :
    KeysBound P key' s := by
  refine ⟨⟨h.toNamesDistinct, h.nodup, h.length, fun v hv hindex => ?_⟩, h.db, h.nodup_memory,
    h.length_memory, fun v hv hindex => ?_⟩
  · rw [hkey v hv]
    exact h.bound v hv hindex
  · rw [hkey v hv]
    exact h.bound_memory v hv hindex

/-- Overwriting a byte of a variable other than the database. -/
theorem KeysBound.writeByte
    (name : Char16Str) (guid : Guid) (byte : UInt8)
    (hother : ¬(authvarKeydbName = name ∧ efiAuthenticatedVariableGuid = guid))
    (h : KeysBound P key s) :
    KeysBound P key (setFirstByte s name guid byte) := by
  have hrecords := recordsOf_setFirstByte (s := s) byte hother
  have hkeys : persistentKeys (setFirstByte s name guid byte) =
      persistentKeys s := persistentKeys_eq hrecords
  have hmem : ∀ v ∈ (setFirstByte s name guid byte).vars, ∃ w ∈ s.vars,
      w.variableName = v.variableName ∧ w.vendorGuid = v.vendorGuid ∧
        w.pubKeyIndex = v.pubKeyIndex := by
    intro v hv
    have hfields := map_recordsOf_setFirstByte
      (fun v => (v.variableName, v.vendorGuid, v.pubKeyIndex)) (fun _ _ => rfl) s name
      v.variableName guid v.vendorGuid byte
    have hv' : (v.variableName, v.vendorGuid, v.pubKeyIndex) ∈
        (recordsOf s v.variableName v.vendorGuid).map
          (fun v => (v.variableName, v.vendorGuid, v.pubKeyIndex)) := by
      rw [← hfields]
      exact mem_map_of_mem (mem_recordsOf.mpr ⟨hv, rfl, rfl⟩)
    obtain ⟨w, hw, heq⟩ := mem_map.mp hv'
    simp only [Prod.mk.injEq] at heq
    exact ⟨w, (mem_recordsOf.mp hw).1, heq⟩
  have hnames : NamesDistinct (setFirstByte s name guid byte) := by
    constructor
    · intro v hv
      obtain ⟨w, hw, hn, -, -⟩ := hmem v hv
      rw [← hn]
      exact h.nonempty w hw
    · have hpairs : ((enumerated (setFirstByte s name guid byte)).map
          (fun v => (v.variableName, v.vendorGuid))) =
          (enumerated s).map (fun v => (v.variableName, v.vendorGuid)) := by
        refine map_filter_replaceF (fun v v' hv => ?_) s.vars
        rw [Option.ite_none_right_eq_some] at hv
        obtain ⟨-, heq⟩ := hv
        cases heq
        exact ⟨rfl, rfl⟩
      have hdistinct : ((enumerated s).map (fun v => (v.variableName, v.vendorGuid))).Pairwise
          (fun a b => ¬(a.1 = b.1 ∧ a.2 = b.2)) := pairwise_map.mpr h.distinct
      rw [← hpairs] at hdistinct
      exact pairwise_map.mp hdistinct
  refine ⟨⟨hnames, ?_, ?_, ?_⟩, ?_, h.nodup_memory, h.length_memory, ?_⟩
  · rw [hkeys]
    exact h.nodup
  · rw [hkeys]
    exact h.length
  · intro v hv hindex
    obtain ⟨w, hw, hn, hg, hi⟩ := hmem v hv
    rw [hkeys, ← hn, ← hg, ← hi]
    exact h.bound w hw (by rw [hi]; exact hindex)
  · rw [hrecords]
    exact h.db
  · intro v hv hindex
    obtain ⟨w, hw, hn, hg, hi⟩ := hmem v hv
    rw [← hn, ← hg, ← hi]
    exact h.bound_memory w hw (by rw [hi]; exact hindex)

/-- Updates without key index of named variables other than the database. -/
def withoutKey : Permits where
  update := fun req => req.variableName.chars ≠ [] ∧ req.keyIndex = 0 ∧
    ¬(authvarKeydbName = req.variableName ∧ efiAuthenticatedVariableGuid = req.vendorGuid)
  keys := False
  mode := True

theorem KeysBound.moves
    (hmoves : Moves P env withoutKey s s') (h : KeysBound P key s) :
    KeysBound P key s' := by
  refine hmoves.keeps (I := fun s => KeysBound P key s) (fun a b hab ha => ?_) h
  cases hab with
  | update req hreq =>
      exact ha.update req hreq.1 hreq.2.2 (fun hindex => absurd hreq.2.1 hindex)
  | ask query | vendor state
  | lang platformLangCodes langCodes => exact KeysBound.congr (s := a) rfl rfl rfl ha
  | keyStore hkeys entries => exact False.elim hkeys
  | mode hmode mode =>
      have hset : KeysBound P key
          (setFirstByte a efiSetupModeName efiGlobalVariableGuid mode.toByte) :=
        ha.writeByte efiSetupModeName efiGlobalVariableGuid mode.toByte (by decide)
      exact @KeysBound.congr P (setFirstByte a efiSetupModeName efiGlobalVariableGuid mode.toByte)
        (withPlatformMode a mode) key rfl rfl rfl hset

end Frame

section AddKey

variable {P : Platform} {env : Environment} {s s' : AuthState}
variable {key : Char16Str → Guid → PublicKey}

/-- When the key store is full, the variables with a key can be enumerated. -/
def CompactionSees (P : Platform) (s : AuthState) : Prop :=
  s.mPubKeyStore.length = mMaxKeyNumber P →
    ∀ v ∈ s.vars, v.pubKeyIndex ≠ 0 → v.isAccessible s.atRuntime = true

theorem collected_spec
    {v : AuthVariable} (h : KeysStored P key s)
    (hv : recordsOf s authvarKeydbName efiAuthenticatedVariableGuid = [v]) (hdb : IsDbRecord v) :
    CollectedFrom (persistentKeys s) ((enumerated s).foldl (collectKey (keyDbEntries v.data)) []) ∧
      ∀ w ∈ enumerated s, w.pubKeyIndex ≠ 0 →
        ⟨w.pubKeyIndex, key w.variableName w.vendorGuid⟩ ∈
          (enumerated s).foldl (collectKey (keyDbEntries v.data)) [] := by
  rcases hdb.data with hdata | ⟨entries, hdata⟩
  · -- Without entries there are no variables with a key.
    have hnil : persistentKeys s = [] := by
      rw [persistentKeys_of_record hv, hdata]
      rfl
    have hnone : ∀ w ∈ enumerated s, w.pubKeyIndex = 0 := by
      intro w hw
      by_contra hindex
      have hmem := h.bound w (mem_filter.mp hw).1 hindex
      rw [hnil] at hmem
      exact not_mem_nil hmem
    rw [collect_none hnone]
    exact ⟨⟨nil_subset _, nodup_nil⟩, fun w hw hindex => absurd (hnone w hw) hindex⟩
  · have hentries : keyDbEntries v.data = persistentKeys s := by
      rw [hdata, keyDbEntries_keyDbBytes, persistentKeys_keyDbBytes hv hdata]
    rw [hentries]
    obtain ⟨hfrom, -, hkeys⟩ := collect_spec h.nodup (enumerated s)
      ⟨nil_subset (persistentKeys s), nodup_nil⟩
    exact ⟨hfrom, fun w hw hindex =>
      hkeys w hw hindex _ (h.bound w (mem_filter.mp hw).1 hindex) rfl⟩

/-- `GetAvailableKeyIndex` keeps the invariant, and its index is free in memory. -/
theorem getAvailableKeyIndex_bound
    {keyIndex : UInt32} (h : KeysBound P key s) (hsees : CompactionSees P s)
    (hget : getAvailableKeyIndex P s = some (keyIndex, s')) :
    KeysBound P key s' ∧ s' = { s with mPubKeyStore := s'.mPubKeyStore } ∧
      (keyIndex ≠ 0 → s'.mPubKeyStore.length < mMaxKeyNumber P ∧
        ∀ e ∈ s'.mPubKeyStore, e.keyIndex ≠ keyIndex) := by
  obtain ⟨v, hv, hdb⟩ := h.db
  unfold getAvailableKeyIndex at hget
  rw [hdb.found hv] at hget
  dsimp only at hget
  split at hget
  case isFalse hnotfull =>
      cases hget
      have hlt : s.mPubKeyStore.length < mMaxKeyNumber P :=
        lt_of_le_of_ne h.length_memory hnotfull
      exact ⟨h, rfl, fun _ => ⟨hlt, (firstFreeIndex_spec P hlt).2⟩⟩
  case isTrue hfull =>
      rw [collectKeys_all (keyDbEntries v.data) h.toNamesDistinct rfl] at hget
      dsimp only at hget
      obtain ⟨hfrom, hkeys⟩ := collected_spec h.toKeysStored hv hdb
      revert hfrom hkeys hget
      generalize (enumerated s).foldl (collectKey (keyDbEntries v.data)) [] = collected
      intro hget hfrom hkeys
      have hlength : collected.length ≤ (persistentKeys s).length :=
        (hfrom.nodup.of_map _).subperm hfrom.subset |>.length_le
      have hbound : KeysBound P key { s with mPubKeyStore := collected } := by
        refine ⟨⟨⟨h.nonempty, h.distinct⟩, h.nodup, h.length, h.bound⟩, h.db, hfrom.nodup,
          hlength.trans h.length, fun w hw hindex => ?_⟩
        refine hkeys w (mem_filter.mpr ⟨hw, hsees hfull w hw hindex⟩) hindex
      split at hget
      case isTrue hstill =>
          cases hget
          exact ⟨hbound, rfl, fun hindex => absurd rfl hindex⟩
      case isFalse hroom =>
          cases hget
          have hlt : collected.length < mMaxKeyNumber P :=
            lt_of_le_of_ne (hlength.trans h.length) hroom
          exact ⟨hbound, rfl, fun _ => ⟨hlt, (firstFreeIndex_spec P hlt).2⟩⟩

/-- The request that writes the key store to the database. -/
def keyDbRequest (s : AuthState) : UpdateRequest :=
  plainRequest authvarKeydbName efiAuthenticatedVariableGuid (keyDbBytes s.mPubKeyStore)
    variableAttributeNvBsRtAw

theorem keyDbRequest_isDelete
    (hmemory : s.mPubKeyStore ≠ []) :
    (keyDbRequest s).isDelete = false ∧ (keyDbRequest s).isAppend = false := by
  have happend : (keyDbRequest s).isAppend = false := by
    simp only [UpdateRequest.isAppend, keyDbRequest, plainRequest]
    decide
  have haccess : hasAttribute (keyDbRequest s).attributes
      (efiVariableRuntimeAccess ||| efiVariableBootserviceAccess) = true := by
    simp only [keyDbRequest, plainRequest]
    decide
  have hdata : (keyDbRequest s).data.isEmpty = false := by
    have hlength := keyDbBytes_length s.mPubKeyStore
    have hpos : 0 < s.mPubKeyStore.length := length_pos_iff.mpr hmemory
    rw [isEmpty_eq_false_iff, ← length_pos_iff]
    simp only [keyDbRequest, plainRequest, hlength, keyDbDataSize]
    omega
  simp [UpdateRequest.isDelete, happend, haccess, hdata]

/-- Writing the key store keeps the invariant; on success the database holds it. -/
theorem KeysBound.writeDb
    (hmemory : s.mPubKeyStore ≠ []) (h : KeysBound P key s) :
    KeysBound P key (variableExLibUpdateVariable P env s (keyDbRequest s)).2 ∧
      ((variableExLibUpdateVariable P env s (keyDbRequest s)).1.isError = false →
        persistentKeys (variableExLibUpdateVariable P env s (keyDbRequest s)).2 =
          s.mPubKeyStore) := by
  obtain ⟨v, hv, hdb⟩ := h.db
  obtain ⟨hdelete, happend⟩ := keyDbRequest_isDelete hmemory
  have hname : (keyDbRequest s).variableName.chars ≠ [] := by
    simp only [keyDbRequest, plainRequest]
    decide
  rcases recordsOf_update_found P env s (keyDbRequest s) hv (hdb.found hv) with
    ⟨hsame, hkeep⟩ | ⟨hremove, -⟩ | ⟨-, hnew⟩
  · refine ⟨h.update_records _ hname (hsame.trans hv.symm) fun hindex => absurd rfl hindex,
      fun hsuccess => ?_⟩
    exact persistentKeys_keyDbBytes hsame (hkeep hsuccess).2.1
  · rw [hdelete] at hremove
    cases hremove
  · rw [happend, if_neg Bool.false_ne_true] at hnew
    have hkeys := persistentKeys_keyDbBytes hnew rfl
    have hdb' : IsDbRecord (newVariable (keyDbRequest s) (some v) (keyDbRequest s).data) := by
      refine ⟨?_, rfl, Or.inr ⟨_, rfl⟩⟩
      simp only [newVariable, keyDbRequest, plainRequest]
      decide
    exact ⟨h.toNamesDistinct.stores hname rfl h.nodup_memory h.length_memory h.bound_memory
      ⟨_, hnew, hdb'⟩ hkeys, fun _ => hkeys⟩

/-- The state in which a key has been added in memory. -/
def withKey (s : AuthState) (entry : AuthvarKeyDbData) : AuthState :=
  { s with mPubKeyStore := s.mPubKeyStore ++ [entry] }

theorem KeysBound.addKey
    {entry : AuthvarKeyDbData} (h : KeysBound P key s)
    (hlt : s.mPubKeyStore.length < mMaxKeyNumber P)
    (hfree : ∀ e ∈ s.mPubKeyStore, e.keyIndex ≠ entry.keyIndex) :
    KeysBound P key (withKey s entry) := by
  refine ⟨⟨⟨h.nonempty, h.distinct⟩, h.nodup, h.length, h.bound⟩, h.db, ?_, ?_, ?_⟩
  · rw [withKey, map_append, map_singleton, nodup_append]
    refine ⟨h.nodup_memory, nodup_singleton _, fun a ha b hb hab => ?_⟩
    obtain ⟨e, he, rfl⟩ := mem_map.mp ha
    exact hfree e he (hab.trans (mem_singleton.mp hb))
  · rw [withKey, length_append, length_singleton]
    omega
  · exact h.bound_memory.mono (subset_append_left _ _)

/-- `AddPubKeyInStore` keeps the invariant, and a key it reports is in memory and stored. -/
theorem addPubKeyInStore_bound
    {pubKey : PublicKey} {keyIndex : UInt32} (h : KeysBound P key s)
    (hsees : (∀ e ∈ s.mPubKeyStore, e.keyData ≠ pubKey) → CompactionSees P s)
    (hstored : ∀ e ∈ s.mPubKeyStore, e.keyData = pubKey → e ∈ persistentKeys s)
    (hadd : addPubKeyInStore P env s pubKey = some (keyIndex, s')) :
    KeysBound P key s' ∧
      (keyIndex ≠ 0 → ⟨keyIndex, pubKey⟩ ∈ s'.mPubKeyStore ∧
        ⟨keyIndex, pubKey⟩ ∈ persistentKeys s') := by
  unfold addPubKeyInStore at hadd
  split at hadd
  · rename_i entry hentry
    cases hadd
    have hmem : entry ∈ s.mPubKeyStore := mem_of_find?_eq_some hentry
    have hdata : entry.keyData = pubKey := by simpa using find?_some hentry
    subst hdata
    exact ⟨h, fun _ => ⟨hmem, hstored entry hmem rfl⟩⟩
  · rename_i hnone
    have hnew : ∀ e ∈ s.mPubKeyStore, e.keyData ≠ pubKey := by
      simpa using find?_eq_none.mp hnone
    split at hadd
    · cases hadd
    · rename_i index s1 hget
      obtain ⟨h1, -, hfree⟩ := getAvailableKeyIndex_bound h (hsees hnew) hget
      split at hadd
      · cases hadd
        exact ⟨h1, fun hindex => absurd rfl hindex⟩
      · rename_i hindex
        split at hadd
        · cases hadd
          exact ⟨h1, fun hindex => absurd rfl hindex⟩
        · obtain ⟨hlt, hfree⟩ := hfree hindex
          have hmem : ⟨index, pubKey⟩ ∈ (withKey s1 ⟨index, pubKey⟩).mPubKeyStore :=
            mem_append_right _ (mem_singleton.mpr rfl)
          obtain ⟨h3, hstored3⟩ :=
            @KeysBound.writeDb P env _ key (ne_nil_of_mem hmem) (h1.addKey hlt hfree)
          have hresult : some
              (if (variableExLibUpdateVariable P env (withKey s1 ⟨index, pubKey⟩)
                  (keyDbRequest (withKey s1 ⟨index, pubKey⟩))).1.isError then 0 else index,
                (variableExLibUpdateVariable P env (withKey s1 ⟨index, pubKey⟩)
                  (keyDbRequest (withKey s1 ⟨index, pubKey⟩))).2) = some (keyIndex, s') := hadd
          rw [Option.some.injEq, Prod.mk.injEq] at hresult
          obtain ⟨hindex', rfl⟩ := hresult
          refine ⟨h3, fun hne => ?_⟩
          cases herror : (variableExLibUpdateVariable P env (withKey s1 ⟨index, pubKey⟩)
              (keyDbRequest (withKey s1 ⟨index, pubKey⟩))).1.isError with
          | true =>
              rw [herror, if_pos rfl] at hindex'
              exact absurd hindex'.symm hne
          | false =>
              rw [herror, if_neg Bool.false_ne_true] at hindex'
              subst hindex'
              rw [update_mPubKeyStore, hstored3 herror]
              exact ⟨hmem, hmem⟩

end AddKey

section Step

variable {P : Platform} {env : Environment} {s s' : AuthState}
variable {key : Char16Str → Guid → PublicKey}
  {req : SetRequest} {status : EfiStatus} {auth : VariableAuthentication}

/-- The key of a request that may create the variable. -/
def creatingKey (name : Char16Str) (guid : Guid) (s : AuthState) : ServiceEvent → Option PublicKey
  | .setVariable _ req _ =>
      if req.isCounterCall name guid && (recordsOf s name guid).isEmpty then
        (readAuthentication req.data).map VariableAuthentication.publicKey
      else none
  | .exitBootServices => none

/-- The keys with which variables were created, after an event. -/
def keysAfter (key : Char16Str → Guid → PublicKey) (s : AuthState) (e : ServiceEvent) :
    Char16Str → Guid → PublicKey :=
  fun name guid => (creatingKey name guid s e).getD (key name guid)

/-- The keys with which variables were created, after a run; `key` tells them for the
variables that were there before. -/
def createdWith (key : Char16Str → Guid → PublicKey)
    (trace : List (AuthState × ServiceEvent)) : Char16Str → Guid → PublicKey :=
  trace.foldl (fun key x => keysAfter key x.1 x.2) key

/-- A counter-based request that keeps keys bound.  It does not delete the database as a
present user may; and if it is for a variable that does not exist, then its key is stored
when it is in memory, and a compaction sees every variable with a key when it is not. -/
def KeysKept (P : Platform) (s : AuthState) : ServiceEvent → Prop
  | .setVariable env req _ =>
      req.isCounterBased = true →
        (req.variableName = authvarKeydbName → req.vendorGuid = efiAuthenticatedVariableGuid →
          (isDeleteAuthVariable req.data req.attributes variableAttributeNvBsRtAw &&
            env.userPhysicalPresent) = false) ∧
        (recordsOf s req.variableName req.vendorGuid = [] → ∀ auth,
          readAuthentication req.data = some auth → auth.payload.isEmpty = false →
          (∀ e ∈ s.mPubKeyStore, e.keyData = auth.publicKey → e ∈ persistentKeys s) ∧
            ((∀ e ∈ s.mPubKeyStore, e.keyData ≠ auth.publicKey) → CompactionSees P s))
  | .exitBootServices => True

theorem keysAfter_of_mem
    {e : ServiceEvent} {v : AuthVariable} (hv : v ∈ s.vars) :
    keysAfter key s e v.variableName v.vendorGuid = key v.variableName v.vendorGuid := by
  have hne : (recordsOf s v.variableName v.vendorGuid).isEmpty = false := by
    rw [isEmpty_eq_false_iff]
    exact ne_nil_of_mem (mem_recordsOf.mpr ⟨hv, rfl, rfl⟩)
  cases e with
  | setVariable env req status => simp [keysAfter, creatingKey, hne]
  | exitBootServices => rfl

theorem keysAfter_creating
    (hcounter : req.isCounterBased = true)
    (hnone : recordsOf s req.variableName req.vendorGuid = [])
    (hauth : readAuthentication req.data = some auth) :
    keysAfter key s (.setVariable env req status) req.variableName req.vendorGuid =
      auth.publicKey := by
  simp [keysAfter, creatingKey, SetRequest.isCounterCall, hcounter, hnone, hauth]

theorem allowsInternal_withoutKey :
    AllowsInternal withoutKey where
  certDb := fun _ => ⟨by simp only [plainRequest]; decide, rfl, by simp only [plainRequest]; decide⟩
  vendorKeysNv := fun _ =>
    ⟨by simp only [plainRequest]; decide, rfl, by simp only [plainRequest]; decide⟩
  vendorKeys := fun _ =>
    ⟨by simp only [plainRequest]; decide, rfl, by simp only [plainRequest]; decide⟩

theorem allowsMode_withoutKey :
    AllowsMode withoutKey where
  mode := trivial
  secureBoot := fun _ =>
    ⟨by simp only [plainRequest]; decide, rfl, by simp only [plainRequest]; decide⟩
  secureBootEnable := fun _ =>
    ⟨by simp only [plainRequest]; decide, rfl, by simp only [plainRequest]; decide⟩

theorem allowsLang_withoutKey
    (name : Char16Str) :
    AllowsLang withoutKey name := by
  rintro lang data (rfl | rfl) -
  · exact ⟨by simp only [plainRequest]; decide, rfl, by simp only [plainRequest]; decide⟩
  · exact ⟨by simp only [plainRequest]; decide, rfl, by simp only [plainRequest]; decide⟩

theorem allowsOwn_withoutKey
    {name : Char16Str} {guid : Guid} (attributes : UInt32) (hname : name.chars ≠ [])
    (hother : ¬(authvarKeydbName = name ∧ efiAuthenticatedVariableGuid = guid)) :
    AllowsOwn withoutKey name guid attributes :=
  fun _ _ _ _ => ⟨hname, rfl, hother⟩

theorem keydb_attributes
    (h : KeysBound P key s)
    (hname : req.variableName = authvarKeydbName)
    (hguid : req.vendorGuid = efiAuthenticatedVariableGuid)
    (hcounter : req.isCounterBased = false) (hcheck : checkExisting s req = .success) :
    req.attributes = 0 := by
  obtain ⟨v, hv, hdb⟩ := h.db
  have hrecords : recordsOf s req.variableName req.vendorGuid = [v] := by
    rw [hname, hguid]
    exact hv
  by_contra hattributes
  obtain ⟨-, hsame⟩ := checkExisting_head hcheck hattributes hrecords
  have hmask : ~~~efiVariableAppendWrite &&& efiVariableAuthenticatedWriteAccess =
      efiVariableAuthenticatedWriteAccess := by decide
  rw [SetRequest.isCounterBased, hasAttribute, ← hmask, ← UInt32.and_assoc, hsame,
    hdb.attributes] at hcounter
  exact absurd hcounter (by decide)

theorem keydb_unchanged
    {data : Bytes} (h : KeysBound P key s)
    (hprocess : authVariableLibProcessVariable P env s authvarKeydbName
      efiAuthenticatedVariableGuid data 0 = some (status, s')) :
    s' = s := by
  obtain ⟨v, hv, hdb⟩ := h.db
  have hkey : isKeyVariable authvarKeydbName efiAuthenticatedVariableGuid = false := by decide
  have hphysical : needPhysicallyPresent authvarKeydbName efiAuthenticatedVariableGuid =
      false := by decide
  have hdelete : isDeleteAuthVariable data 0 v.attributes = false := by
    have hne : ((0 : UInt32) == variableAttributeNvBsRtAw) = false := by decide
    rw [isDeleteAuthVariable, hdb.attributes, hne]
    rfl
  have hnone : hasAttribute 0 efiVariableTimeBasedAuthenticatedWriteAccess = false ∧
      hasAttribute 0 efiVariableAuthenticatedWriteAccess = false := by decide
  have hauthenticated : v.isAuthenticated = true := by
    rw [AuthVariable.isAuthenticated, hdb.attributes]
    decide
  rw [process_ordinary hkey] at hprocess
  simp only [processVariable, hdb.found hv, Option.any_some, hdelete, hphysical, hnone.1, hnone.2,
    hauthenticated, Bool.false_and, Bool.false_eq_true, if_false, if_true, Option.some.injEq,
    Prod.mk.injEq] at hprocess
  exact hprocess.2.symm

theorem langHook_bound
    (req : SetRequest) (h : KeysBound P key s) :
    KeysBound P key (langHook P env s req).2 ∧
      (langHook P env s req).2.mPubKeyStore = s.mPubKeyStore ∧
      persistentKeys (langHook P env s req).2 = persistentKeys s ∧
      (CompactionSees P s → CompactionSees P (langHook P env s req).2) := by
  have hmoves : Moves P env withoutKey s (langHook P env s req).2 :=
    langHook_moves P env s req (allowsLang_withoutKey _)
  have hstore : (langHook P env s req).2.mPubKeyStore = s.mPubKeyStore :=
    hmoves.mPubKeyStore_eq not_false
  have hkeys : persistentKeys (langHook P env s req).2 = persistentKeys s :=
    persistentKeys_eq (hmoves.recordsOf_eq (fun req (hreq : withoutKey.update req) => hreq.2.2)
      (Or.inr (by decide)))
  refine ⟨h.moves hmoves, hstore, hkeys, fun hsees hfull v hv hindex => ?_⟩
  have hplain : Moves P env ⟨fun req => req.keyIndex = 0, False, False⟩ s
      (langHook P env s req).2 := langHook_moves P env s req (fun _ _ _ _ => rfl)
  have hmem : v ∈ s.vars := by
    refine hplain.keeps (I := fun x => ∀ v ∈ x.vars, v.pubKeyIndex ≠ 0 → v ∈ s.vars)
      (fun a b hab ha => ?_) (fun _ hv _ => hv) v hv hindex
    cases hab with
    | update req hreq =>
        intro v hv hindex
        rcases mem_vars_update hv with hv | ⟨-, -, hindex'⟩
        · exact ha v hv hindex
        · exact absurd (hindex'.trans hreq) hindex
    | ask query | vendor state | lang platformLangCodes langCodes => exact ha
    | keyStore hkeys entries => exact False.elim hkeys
    | mode hmode mode => exact False.elim hmode
  rw [hmoves.atRuntime_eq]
  exact hsees (by rw [← hstore]; exact hfull) v hmem hindex

theorem otherCall_bound
    (h : KeysBound P key s)
    (hcounter : req.isCounterBased = false)
    (hcall : variableServiceSetVariable P env s req = some (status, s')) :
    KeysBound P key s' := by
  obtain ⟨hhook, -, -, -⟩ := @langHook_bound P env s key req h
  rcases variableServiceSetVariable_cases hcall with ⟨-, rfl | rfl⟩ | ⟨hcheck, -, hprocess⟩
  · exact h
  · exact hhook
  · by_cases hdb : authvarKeydbName = req.variableName ∧
        efiAuthenticatedVariableGuid = req.vendorGuid
    case pos =>
        obtain ⟨hname, hguid⟩ := hdb
        rw [keydb_attributes h hname.symm hguid.symm hcounter (checkRequest_success hcheck).2.2,
          ← hname, ← hguid] at hprocess
        rw [keydb_unchanged hhook hprocess]
        exact hhook
    case neg =>
        refine hhook.moves (authVariableLibProcessVariable_moves P env _ req.variableName
          req.vendorGuid req.data req.attributes allowsInternal_withoutKey.toAllowsVendorKeys
          (fun _ _ => allowsInternal_withoutKey.toAllowsCertDb)
          (allowsOwn_withoutKey req.attributes (checkRequest_name hcheck) hdb) (fun hbased => ?_)
          (fun _ => allowsMode_withoutKey) _ _ hprocess)
        rw [SetRequest.isCounterBased, hbased] at hcounter
        exact absurd hcounter (by decide)

theorem keyIndexFor_absent_bound
    {keyIndex : Option UInt32}
    (h : KeysBound P key s)
    (hkept : auth.payload.isEmpty = false →
      (∀ e ∈ s.mPubKeyStore, e.keyData = auth.publicKey → e ∈ persistentKeys s) ∧
        ((∀ e ∈ s.mPubKeyStore, e.keyData ≠ auth.publicKey) → CompactionSees P s))
    (hkey : keyIndexFor P env s none auth = some (keyIndex, s')) :
    KeysBound P key s' ∧ ∀ index, keyIndex = some index → index ≠ 0 →
      ⟨index, auth.publicKey⟩ ∈ s'.mPubKeyStore ∧
        ⟨index, auth.publicKey⟩ ∈ persistentKeys s' := by
  unfold keyIndexFor at hkey
  dsimp only at hkey
  split at hkey
  · cases hkey
    exact ⟨h, fun index hindex hne => absurd (Option.some.inj hindex).symm hne⟩
  · rename_i hpayload
    obtain ⟨hstored, hsees⟩ := hkept (by simpa using hpayload)
    split at hkey
    · cases hkey
    · rename_i index s1 hadd
      cases hkey
      obtain ⟨h', hmem⟩ := addPubKeyInStore_bound h hsees hstored hadd
      refine ⟨h', fun index' hindex' hne => ?_⟩
      split at hindex'
      · cases hindex'
      · cases hindex'
        exact hmem hne

/-- The last update of a counter-based request carries an index whose key is there. -/
theorem counterUpdate_bound
    {name : Char16Str} {guid : Guid} {attributes : UInt32} {auth : VariableAuthentication}
    {keyIndex : Option UInt32} (h : KeysBound P key s) (hname : name.chars ≠ [])
    (hkey : recordsOf s name guid = [] → key name guid = auth.publicKey ∧
      (auth.payload.isEmpty = false →
        (∀ e ∈ s.mPubKeyStore, e.keyData = auth.publicKey → e ∈ persistentKeys s) ∧
          ((∀ e ∈ s.mPubKeyStore, e.keyData ≠ auth.publicKey) → CompactionSees P s)))
    (hold : ∀ old ∈ (recordsOf s name guid).head?, old.pubKeyIndex ≠ 0)
    (hindex : keyIndexFor P env s (recordsOf s name guid).head? auth = some (keyIndex, s')) :
    KeysBound P key s' ∧ ∀ index, keyIndex = some index →
      KeysBound P key (variableExLibUpdateVariable P env s'
        ⟨name, guid, auth.payload, attributes, index, auth.monotonicCount, none⟩).2 := by
  have hother : ¬(authvarKeydbName = name ∧ efiAuthenticatedVariableGuid = guid) := by
    rintro ⟨rfl, rfl⟩
    obtain ⟨v, hv, hdb⟩ := h.db
    exact hold v (by rw [hv]; rfl) hdb.pubKeyIndex
  cases hrecords : recordsOf s name guid with
  | nil =>
      obtain ⟨hcreated, hkept⟩ := hkey hrecords
      rw [hrecords] at hindex
      obtain ⟨h', hmem⟩ := keyIndexFor_absent_bound h hkept hindex
      refine ⟨h', fun index hsome => h'.update _ hname hother (fun hne => ?_)⟩
      have hentry := hmem index hsome hne
      rw [← hcreated] at hentry
      exact hentry
  | cons old rest =>
      rw [hrecords] at hindex
      cases hindex
      refine ⟨h, fun index hsome => h.update _ hname hother (fun hne => ?_)⟩
      cases hsome
      have hmem : old ∈ recordsOf s name guid := by
        rw [hrecords]
        exact mem_cons_self
      obtain ⟨hvars, rfl, rfl⟩ := mem_recordsOf.mp hmem
      exact ⟨h.bound_memory old hvars hne, h.bound old hvars hne⟩

/-- A counter-based request keeps keys bound, those of variables that it may create
included. -/
theorem counterCall_bound
    (h : KeysBound P key s)
    (hcounter : req.isCounterBased = true)
    (hkey : recordsOf s req.variableName req.vendorGuid = [] → ∀ auth,
      readAuthentication req.data = some auth →
        key req.variableName req.vendorGuid = auth.publicKey)
    (hkept : KeysKept P s (.setVariable env req status))
    (hcall : variableServiceSetVariable P env s req = some (status, s')) :
    KeysBound P key s' := by
  obtain ⟨hdelete, hcreate⟩ := hkept hcounter
  obtain ⟨hhook, hstore, hkeys, hsees⟩ := @langHook_bound P env s key req h
  rcases variableServiceSetVariable_cases hcall with ⟨-, rfl | rfl⟩ | ⟨hcheck, -, hprocess⟩
  · exact h
  · exact hhook
  · obtain ⟨htime, -⟩ := checkRequest_counter hcheck hcounter
    have hexisting : checkExisting s req = .success := (checkRequest_success hcheck).2.2
    have hname : req.variableName.chars ≠ [] := checkRequest_name hcheck
    obtain ⟨hrecords, hruntime⟩ := @langHook_records P env s req.vendorGuid req
    have horg := counterCall_org hexisting hcounter hrecords hruntime
    revert hprocess hhook hrecords hruntime hstore hkeys hsees horg
    generalize (langHook P env s req).2 = s1
    intro hhook hstore hkeys hsees hprocess hrecords hruntime horg
    cases hspecial : isKeyVariable req.variableName req.vendorGuid with
    | true =>
        rw [process_keyVariable hspecial htime] at hprocess
        cases hprocess
        exact hhook
    | false =>
        rw [process_ordinary hspecial] at hprocess
        rcases processVariable_counter_cases hcounter htime hprocess with
          ⟨-, rfl⟩ | ⟨hpresent, hresult⟩ | hcount
        · exact hhook
        · -- A deletion by a present user, of another variable than the database.
          obtain ⟨-, rfl⟩ := Prod.ext_iff.mp hresult
          refine hhook.update _ hname ?_ (fun hindex => absurd rfl hindex)
          rintro ⟨hdbname, hdbguid⟩
          obtain ⟨v, hv, hdb⟩ := hhook.db
          have hname' : authvarKeydbName = req.variableName := hdbname
          have hguid' : efiAuthenticatedVariableGuid = req.vendorGuid := hdbguid
          rw [← hname', ← hguid', variableExLibFindVariable, findVariable_eq, hv] at hpresent
          rw [find?_singleton, hdb.isAccessible, if_pos rfl, Option.any_some,
            hdb.attributes, hdelete hname'.symm hguid'.symm] at hpresent
          exact absurd hpresent (by decide)
        · rw [horg] at hcount
          obtain ⟨auth, hauth, hcases⟩ := processCounterBased_eq_some hcount
          rcases hcases with ⟨-, rfl⟩ | ⟨hpasses, verified, s2, hs2, hcases⟩
          · exact hhook
          · obtain ⟨hvars2, hruntime2, hmemory2⟩ := verifyCounterBasedPayload_frame hs2
            have h2 : KeysBound P key s2 := hhook.congr hvars2 hruntime2 hmemory2
            rcases hcases with ⟨-, rfl⟩ | ⟨-, keyIndex, s3, hindex, hcases⟩
            · exact h2
            · have hrecords2 : recordsOf s2 req.variableName req.vendorGuid =
                  recordsOf s req.variableName req.vendorGuid := by
                rw [← hrecords, recordsOf, hvars2]
                rfl
              have hkeys2 : persistentKeys s2 = persistentKeys s := by
                rw [← hkeys]
                refine persistentKeys_eq ?_
                rw [recordsOf, hvars2]
                rfl
              have hstore2 : s2.mPubKeyStore = s.mPubKeyStore := hmemory2.trans hstore
              have hsees2 : CompactionSees P s → CompactionSees P s2 := by
                intro hsees'
                rw [CompactionSees, hvars2, hruntime2, hmemory2]
                exact hsees hsees'
              rw [← hrecords2] at hindex hpasses
              have hnew : recordsOf s2 req.variableName req.vendorGuid = [] →
                  key req.variableName req.vendorGuid = auth.publicKey ∧
                    (auth.payload.isEmpty = false →
                      (∀ e ∈ s2.mPubKeyStore, e.keyData = auth.publicKey →
                        e ∈ persistentKeys s2) ∧
                      ((∀ e ∈ s2.mPubKeyStore, e.keyData ≠ auth.publicKey) →
                        CompactionSees P s2)) := by
                intro hnil
                rw [hrecords2] at hnil
                rw [hstore2, hkeys2]
                refine ⟨hkey hnil auth hauth, fun hpayload => ?_⟩
                obtain ⟨hstored, hsees'⟩ := hcreate hnil auth hauth hpayload
                exact ⟨hstored, fun hfresh => hsees2 (hsees' hfresh)⟩
              have hold : ∀ old ∈ (recordsOf s2 req.variableName req.vendorGuid).head?,
                  old.pubKeyIndex ≠ 0 := by
                intro old hold
                rw [Option.mem_def.mp hold, Option.all_some] at hpasses
                simp only [passesKeyAndCount, Bool.and_eq_true, bne_iff_ne] at hpasses
                exact hpasses.1.1
              obtain ⟨h3, hupdate⟩ := @counterUpdate_bound P env s2 s3 key req.variableName
                req.vendorGuid req.attributes auth keyIndex h2 hname hnew hold hindex
              rcases hcases with ⟨-, -, rfl⟩ | ⟨index, hsome, hresult⟩
              · exact h3
              · obtain ⟨-, rfl⟩ := Prod.ext_iff.mp hresult
                exact hupdate index hsome

theorem keys_step
    {e : ServiceEvent} (h : KeysBound P key s) (hkept : KeysKept P s e)
    (hstep : ServiceStep P s e s') :
    KeysBound P (keysAfter key s e) s' := by
  have h' : KeysBound P (keysAfter key s e) s := h.congr_key (fun v hv => keysAfter_of_mem hv)
  cases hstep with
  | setVariable hcall =>
      rename_i env req status
      cases hcounter : req.isCounterBased with
      | false => exact otherCall_bound h' hcounter hcall
      | true =>
          exact counterCall_bound h' hcounter
            (fun hnone auth hauth => keysAfter_creating hcounter hnone hauth) hkept hcall
  | exitBootServices =>
      refine ⟨⟨⟨h'.nonempty, ?_⟩, h'.nodup, h'.length, h'.bound⟩, h'.db, h'.nodup_memory,
        h'.length_memory, h'.bound_memory⟩
      refine h'.distinct.sublist (monotone_filter_right s.vars (fun v hv => ?_))
      have hruntime : hasAttribute v.attributes efiVariableRuntimeAccess = true := by
        simpa [AuthVariable.isAccessible] using hv
      simp [AuthVariable.isAccessible, hruntime]

theorem keys_run
    {trace : List (AuthState × ServiceEvent)} (hrun : Run (ServiceStep P) s trace s')
    (hkept : ∀ x ∈ trace, KeysKept P x.1 x.2) (h : KeysBound P key s) :
    KeysBound P (createdWith key trace) s' := by
  induction hrun generalizing key with
  | nil s => exact h
  | cons hstep _ ih =>
      exact ih (fun x hx => hkept x (mem_cons_of_mem _ hx))
        (keys_step h (hkept _ mem_cons_self) hstep)

end Step

section Initialize

variable {P : Platform} {env : Environment} {s s' : AuthState}
variable {key : Char16Str → Guid → PublicKey}

/-- A store that the initialization may find: the keys of its variables are stored, and the
database is absent or one the library wrote. -/
structure KeysAtRest (P : Platform) (key : Char16Str → Guid → PublicKey) (s : AuthState) :
    Prop extends KeysStored P key s where
  db : recordsOf s authvarKeydbName efiAuthenticatedVariableGuid = [] ∨
    ∃ v, recordsOf s authvarKeydbName efiAuthenticatedVariableGuid = [v] ∧ IsDbRecord v

theorem allowsInit_withoutKey :
    AllowsInit withoutKey where
  toAllowsInternal := allowsInternal_withoutKey
  initial := by
    have hnames : ∀ x ∈ initVariables, x.1.chars ≠ [] ∧
        ¬(authvarKeydbName = x.1 ∧ efiAuthenticatedVariableGuid = x.2) := by decide
    exact fun x hx _ _ => ⟨(hnames x hx).1, rfl, (hnames x hx).2⟩

/-- The request that creates the database. -/
def createDbRequest : UpdateRequest :=
  plainRequest authvarKeydbName efiAuthenticatedVariableGuid [0] variableAttributeNvBsRtAw

/-- Creating the database, with an empty key store. -/
theorem createKeyDb_bound
    (h : KeysStored P key s) (hmemory : s.mPubKeyStore = [])
    (hnone : recordsOf s authvarKeydbName efiAuthenticatedVariableGuid = [])
    (hsuccess : (variableExLibUpdateVariable P env s createDbRequest).1.isError = false) :
    KeysBound P key (variableExLibUpdateVariable P env s createDbRequest).2 := by
  have hv : recordsOf (variableExLibUpdateVariable P env s createDbRequest).2 authvarKeydbName
      efiAuthenticatedVariableGuid = [newVariable createDbRequest none [0]] := by
    rcases recordsOf_update_absent P env s createDbRequest hnone with ⟨-, hkeep⟩ | ⟨-, hrecords⟩
    · cases (hkeep hsuccess).1
    · exact hrecords
  have hnokeys : persistentKeys s = [] := by
    unfold persistentKeys
    rw [findVariable_ignore, hnone]
    rfl
  have hkeys := persistentKeys_of_record hv
  refine h.toNamesDistinct.stores (by decide) rfl ?_ ?_ ?_ ⟨_, hv, by decide, rfl, Or.inl rfl⟩
    (hkeys.trans hmemory.symm)
  · rw [hmemory]
    exact nodup_nil
  · rw [hmemory]
    exact Nat.zero_le _
  · rw [hmemory, ← hnokeys]
    exact h.bound

theorem authVariableLibInitialize_bound
    {fuel : Nat} (h : KeysAtRest P key s)
    (hinit : authVariableLibInitialize P env s fuel = some (.success, s')) :
    KeysBound P key s' := by
  obtain ⟨s1, hkeys, hmoves⟩ := authVariableLibInitialize_cases allowsInit_withoutKey hinit
  have hs1 : KeysBound P key s1 := by
    unfold initKeyDatabase at hkeys
    rcases h.db with hnone | ⟨v, hv, hdb⟩
    · have hfound : variableExLibFindVariable s authvarKeydbName efiAuthenticatedVariableGuid =
          none := by
        rw [variableExLibFindVariable, findVariable_eq, hnone]
        rfl
      rw [hfound] at hkeys
      have hresult : variableExLibUpdateVariable P env { s with mPubKeyStore := [] }
          createDbRequest = (.success, s1) := hkeys
      have hempty : KeysStored P key { s with mPubKeyStore := [] } :=
        @KeysStored.congr P s { s with mPubKeyStore := [] } key rfl rfl h.toKeysStored
      have hcreated := @createKeyDb_bound P env _ key hempty rfl hnone (by rw [hresult]; rfl)
      rw [hresult] at hcreated
      exact hcreated
    · rw [hdb.found hv] at hkeys
      have hentries := persistentKeys_of_record hv
      obtain ⟨-, hs1⟩ := Prod.ext_iff.mp hkeys
      dsimp only at hs1
      rw [← hentries] at hs1
      subst hs1
      exact ⟨@KeysStored.congr P s { s with mPubKeyStore := persistentKeys s } key rfl rfl
        h.toKeysStored, ⟨v, hv, hdb⟩, h.nodup, h.length, h.bound⟩
  exact KeysBound.moves hmoves (@KeysBound.congr P s1 (initPlatformMode s1) key rfl rfl rfl hs1)

end Initialize

section Sample

/-- No key. -/
def noKey : PublicKey :=
  ⟨List.replicate 256 0, by decide +kernel⟩

theorem emptyState_atRest :
    KeysAtRest authPlatform (fun _ _ => noKey) emptyState where
  nonempty := fun _ hv => absurd hv not_mem_nil
  distinct := List.Pairwise.nil
  nodup := nodup_nil
  length := Nat.zero_le _
  bound := fun _ hv => absurd hv not_mem_nil
  db := Or.inl rfl

/-- Every store update is refused. -/
def refusingEnvironment : Environment :=
  { acceptingEnvironment with storeOutcome := fun _ => .refused ⟨.outOfResources, rfl⟩ }

/-- The creation of `C` has failed, since the key database could not be written. -/
def refusedState : AuthState :=
  returned (variableServiceSetVariable authPlatform refusingEnvironment initializedState
    (counterRequest 1 10))

/-- Then the creation has been repeated. -/
def unboundState : AuthState :=
  returned (setCounter refusedState 1 10)

end Sample

end AuthVariableLib
end Udk
