import Udk.Variable.AtRest

/-!
# Whether a reclaim changes what is readable

A lookup takes the last record in transition of a name that has no added one, a
reclaim promotes the first.  So a reclaim keeps every answer, and leaves one record
for each name, exactly when the two records agree and no name has two added ones.
-/

namespace Udk
namespace Variable

open List

section Records

variable {authFormat : Bool}

/-- The records a walk of a store meets. -/
def storeRecords (authFormat : Bool) (store : Bytes) : List Bytes :=
  (storeWalk authFormat store).map (fun ptr => slice store ptr (recordSize authFormat store ptr))

theorem storeRecords_layout {P : Platform} {store header tail : Bytes} {rs : List Bytes}
    (h : Layout P.authFormat store header rs tail) : storeRecords P.authFormat store = rs := by
  have hslice : ∀ e ∈ located storeHeaderSize rs,
      slice store e.1 (recordSize P.authFormat store e.1) = e.2 := by
    rintro ⟨off, r⟩ hmem
    obtain ⟨hsize, hslice⟩ := recordSize_located h hmem
    rw [hsize, hslice]
  rw [storeRecords, h.storeWalk_eq, map_map]
  calc ((located storeHeaderSize rs).map
        ((fun ptr => slice store ptr (recordSize P.authFormat store ptr)) ∘ Prod.fst))
      = (located storeHeaderSize rs).map Prod.snd := map_congr_left hslice
    _ = rs := located_map_snd _ _

/-- Which record of a name counts is not a matter of the order of the search. -/
structure Unambiguous (authFormat : Bool) (rs : List Bytes) : Prop where
  added : ∀ key, (ofKey authFormat isAdded rs key).length ≤ 1
  inTransition : ∀ key, ofKey authFormat isAdded rs key = [] →
    (ofKey authFormat isInTransition rs key).head?.map (recordValue authFormat) =
      (ofKey authFormat isInTransition rs key).getLast?.map (recordValue authFormat)

theorem unambiguous_append_dead {rs junk : List Bytes} (hdead : ∀ r ∈ junk, isLive r = false) :
    Unambiguous authFormat (rs ++ junk) ↔ Unambiguous authFormat rs := by
  have hadded : ∀ key, ofKey authFormat isAdded (rs ++ junk) key =
      ofKey authFormat isAdded rs key := by
    intro key
    rw [ofKey_append, ofKey_eq_nil (fun r hr => (dead_states (hdead r hr)).1), append_nil]
  have htrans : ∀ key, ofKey authFormat isInTransition (rs ++ junk) key =
      ofKey authFormat isInTransition rs key := by
    intro key
    rw [ofKey_append, ofKey_eq_nil (fun r hr => (dead_states (hdead r hr)).2), append_nil]
  constructor
  · rintro ⟨h1, h2⟩
    exact ⟨fun key => hadded key ▸ h1 key, fun key => hadded key ▸ htrans key ▸ h2 key⟩
  · rintro ⟨h1, h2⟩
    refine ⟨fun key => (hadded key).symm ▸ h1 key, fun key => ?_⟩
    rw [hadded, htrans]
    exact h2 key

theorem nodup_added_iff (rs : List Bytes) :
    ((rs.filter isAdded).map (recordKey authFormat)).Nodup ↔
      ∀ key, (ofKey authFormat isAdded rs key).length ≤ 1 := by
  have hcount : ∀ key, ((rs.filter isAdded).map (recordKey authFormat)).count key =
      (ofKey authFormat isAdded rs key).length := by
    intro key
    rw [count_eq_countP, countP_map, countP_filter, countP_eq_length_filter,
      ofKey]
    congr 1
    apply filter_congr
    intro r _
    rw [Function.comp_apply, Bool.and_comm]
    congr 1
    rw [Bool.eq_iff_iff, beq_iff_eq, decide_eq_true_eq]
  rw [nodup_iff_count_le_one]
  simp only [hcount]

section Compact

variable {rs : List Bytes} (hrec : ∀ r ∈ rs, IsRecord authFormat r)
include hrec

theorem keptRecords_nodup_iff :
    ((keptRecords authFormat none none rs).map (recordKey authFormat)).Nodup ↔
      ∀ key, (ofKey authFormat isAdded rs key).length ≤ 1 := by
  rw [keptRecords, remaining_none, VersionLog.compact_nodup_iff
    (fun r hr ht => recordKey_promote (hrec r hr) ht), nodup_added_iff]

theorem lookupRecords_kept (key : Guid × Bytes) :
    lookupRecords authFormat (keptRecords authFormat none none rs) key =
      ((ofKey authFormat isAdded rs key).head?.or
        (ofKey authFormat isInTransition rs key).head?).map (recordValue authFormat) := by
  rw [lookupRecords, keptRecords, remaining_none, VersionLog.lookup_compact
    (fun r hr _ => isAdded_promote (hrec r hr)) (fun _ h => isInTransition_not_added h)
    (fun r hr ht => recordKey_promote (hrec r hr) ht)
    (fun r hr ht => recordValue_promote (hrec r hr) ht)]
  simp only [ofKey, head?_filter]

theorem unambiguous_iff :
    Unambiguous authFormat rs ↔
      (∀ key, lookupRecords authFormat (keptRecords authFormat none none rs) key =
        lookupRecords authFormat rs key) ∧
      ((keptRecords authFormat none none rs).map (recordKey authFormat)).Nodup := by
  have hlookup : ∀ key, lookupRecords authFormat (keptRecords authFormat none none rs) key =
      lookupRecords authFormat rs key ↔ (ofKey authFormat isAdded rs key = [] →
        (ofKey authFormat isInTransition rs key).head?.map (recordValue authFormat) =
          (ofKey authFormat isInTransition rs key).getLast?.map (recordValue authFormat)) := by
    intro key
    rw [lookupRecords_kept hrec, lookupRecords_eq]
    cases ofKey authFormat isAdded rs key with
    | nil => simp
    | cons r more => simp
  rw [keptRecords_nodup_iff hrec]
  constructor
  · rintro ⟨h1, h2⟩
    exact ⟨fun key => (hlookup key).mpr (h2 key), h1⟩
  · rintro ⟨h1, h2⟩
    exact ⟨h2, fun key => (hlookup key).mp (h1 key)⟩

end Compact

end Records

section Reclaim

variable {P : Platform} {d d' : Driver}

/-- A reclaim that keeps every answer and leaves a clean store. -/
structure ReclaimKeeps (P : Platform) (d d' : Driver) : Prop where
  answers : ∀ name guid, name.chars ≠ [] →
    readVariable P.authFormat d'.flash name guid = readVariable P.authFormat d.flash name guid
  added : ∀ r ∈ storeRecords P.authFormat d'.flash, isAdded r = true
  unique : ((storeRecords P.authFormat d'.flash).map (recordKey P.authFormat)).Nodup
  contiguous : d'.flash.take d'.nonVolatileLastVariableOffset =
    d'.flash.take storeHeaderSize ++ (storeRecords P.authFormat d'.flash).flatten
  erased : Erased d'.flash d'.nonVolatileLastVariableOffset

theorem lookupRecords_eq_none {authFormat : Bool} {rs : List Bytes} (hwf : WellFormed authFormat rs)
    {key : Guid × Bytes} (hkey : ∀ name guid, name.chars ≠ [] → key ≠ keyOf name guid) :
    lookupRecords authFormat rs key = none := by
  have hdead : ∀ p : Bytes → Bool, (∀ r, p r = true → isLive r = true) →
      ofKey authFormat p rs key = [] := by
    intro p hp
    rw [eq_nil_iff_forall_not_mem]
    intro r hr
    obtain ⟨hmem, hpr, rfl⟩ := mem_ofKey.mp hr
    obtain ⟨name, hne, hname⟩ := (hwf r hmem (hp r hpr)).hasName
    exact hkey name (vendorGuid authFormat r) hne (by rw [recordKey, keyOf, hname])
  rw [lookupRecords_eq, hdead isAdded (fun r hr => by rw [isLive_eq, hr, Bool.true_or]),
    hdead isInTransition (fun r hr => by rw [isLive_eq, hr, Bool.or_true])]
  rfl

/-- What a reclaim that succeeds leaves, and when it keeps every answer. -/
theorem NvInv.reclaimKeeps_iff {rs : List Bytes} (h : NvInv P d rs)
    (hreclaim : Variable.reclaim P d false none none none = (.success, d')) :
    ReclaimKeeps P d d' ↔ Unambiguous P.authFormat rs := by
  obtain ⟨status, d1, heq, -, -, hres⟩ := h.reclaimAll
  cases hreclaim.symm.trans heq
  cases hres with
  | done _ hroom hinv herased htotals hhistory =>
      rw [reclaimedRecords, Option.map_none, Option.toList_none, append_nil] at hinv
      have hlast := hinv.last
      obtain ⟨header, m, hlayout⟩ := hinv.flash.erased (hlast ▸ herased)
      have hrecords := storeRecords_layout hlayout
      have hrec := h.flash.isRecord
      have hanswers : (∀ name guid, name.chars ≠ [] →
          readVariable P.authFormat d'.flash name guid =
            readVariable P.authFormat d.flash name guid) ↔
          ∀ key, lookupRecords P.authFormat (keptRecords P.authFormat none none rs) key =
            lookupRecords P.authFormat rs key := by
        constructor
        · intro hsame key
          by_cases hkey : ∃ name guid, name.chars ≠ [] ∧ key = keyOf name guid
          · obtain ⟨name, guid, hne, rfl⟩ := hkey
            rw [← hinv.flash.read hinv.wellFormed guid hne, ← h.flash.read h.wellFormed guid hne]
            exact hsame name guid hne
          · have hnot : ∀ name guid, name.chars ≠ [] → key ≠ keyOf name guid :=
              fun name guid hne heq => hkey ⟨name, guid, hne, heq⟩
            rw [lookupRecords_eq_none hinv.wellFormed hnot,
              lookupRecords_eq_none h.wellFormed hnot]
        · intro hsame name guid hne
          rw [hinv.flash.read hinv.wellFormed guid hne, h.flash.read h.wellFormed guid hne]
          exact hsame _
      rw [unambiguous_iff hrec, ← hanswers]
      constructor
      · intro hkeeps
        exact ⟨hkeeps.answers, hrecords ▸ hkeeps.unique⟩
      · rintro ⟨hans, hnodup⟩
        refine ⟨hans, ?_, hrecords.symm ▸ hnodup, ?_, herased⟩
        · intro r hr
          rw [hrecords] at hr
          exact (keptRecords_facts none none hrec h.wellFormed r hr).2.1
        · rw [hrecords, hlast, hlayout.eq, take_left' hlayout.header_length,
            ← append_assoc, take_left']
          rw [length_append, hlayout.header_length]

end Reclaim

section Sample

/-- The store writes that fail: the deletion of the old record in the second update, and the
header of the new one in the third. -/
def interruptedFaults : Faults :=
  ⟨List.replicate 9 false ++ [true, false, true], [], []⟩

/-- The variable is set to `1`, then to `2` and to `3`. -/
def interruptedUpdate (d : Driver) (b : UInt8) : Driver :=
  (updateVariableBody samplePlatform d (sampleRequest 65 (by decide) 7 [b])
    (trackOf samplePlatform d (sampleRequest 65 (by decide) 7 [b]) true)).driver

def interruptedStart : Driver :=
  { sampleDriver [] with faults := interruptedFaults }

def interruptedStore : Driver :=
  interruptedUpdate (interruptedUpdate (interruptedUpdate interruptedStart 1) 2) 3

end Sample

end Variable
end Udk

/-!
## The record that stands for a name

With at most one added record for each name, the record an update finds is the one a
lookup of the whole store finds, and the record it installs takes its place.
-/

namespace Udk
namespace Variable

section Lists

variable {authFormat : Bool} {rs : List Bytes} {key : Guid × Bytes}

/-- No name has two added records. -/
def OneAdded (authFormat : Bool) (rs : List Bytes) : Prop :=
  ∀ key, (ofKey authFormat isAdded rs key).length ≤ 1

/-- A search with the given access sees every live record of the key. -/
def KeyVisible (authFormat : Bool) (rs : List Bytes) (key : Guid × Bytes)
    (ignoreRtCheck atRuntime : Bool) : Prop :=
  ∀ r ∈ rs, isLive r = true → recordKey authFormat r = key →
    isVisible ignoreRtCheck atRuntime r = true

end Lists

section Durable

open List

variable {authFormat : Bool} {rs rsC : List Bytes}

/-- The copy in memory shows the same records under every other name than that of the flag. -/
theorem lookupRecords_mirror
    (hrecords : ∀ r ∈ rs, IsRecord authFormat r)
    (hmirror : List.Forall₂ (Mirrors authFormat) rs rsC)
    {key : Guid × Bytes} (hkey : key ≠ varErrorFlagKey) :
    lookupRecords authFormat rsC key = lookupRecords authFormat rs key := by
  have hsame : ∀ p : Bytes → Bool, ofKey authFormat p rsC key = ofKey authFormat p rs key := by
    intro p
    induction hmirror with
    | nil => rfl
    | @cons r c rs rsC hrc _ ih =>
        rw [ofKey_cons, ofKey_cons, ih fun r hr => hrecords r (mem_cons_of_mem _ hr),
          (hrc.agree (hrecords r mem_cons_self)).2.2.1]
        by_cases hr : recordKey authFormat r = key
        · rw [hrc.same (hr ▸ hkey)]
        · rw [if_neg (fun h => hr h.2), if_neg (fun h => hr h.2)]
  rw [lookupRecords_eq, lookupRecords_eq, hsame, hsame]

theorem wellFormed_mirror
    (hrecords : ∀ r ∈ rs, IsRecord authFormat r)
    (hmirror : List.Forall₂ (Mirrors authFormat) rs rsC)
    (hwf : WellFormed authFormat rs) :
    WellFormed authFormat rsC := by
  induction hmirror with
  | nil => exact hwf
  | @cons r c rs rsC hrc _ ih =>
      have hr := hrecords r mem_cons_self
      obtain ⟨hstate, -, -, -, hdata, -⟩ := hrc.agree hr
      refine forall_mem_cons.mpr ⟨fun hlive => ?_, ih (fun r hr => hrecords r (mem_cons_of_mem _ hr))
        (fun r hr => hwf r (mem_cons_of_mem _ hr))⟩
      have h := hwf r mem_cons_self (by rwa [isLive, ← hstate])
      exact ⟨hrc.hasName hr h.hasName, by rw [hdata]; exact h.data_pos⟩

variable {P : Platform} {start d : Driver} {trace : List (Driver × Op)}

end Durable

end Variable
end Udk
