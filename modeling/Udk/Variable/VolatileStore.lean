import Udk.Variable.NvTrack
import Udk.Variable.ReclaimReadback

/-!
# The volatile store between two updates

`VolInv` says what the volatile store holds: records one behind the other up to
`VolatileLastVariableOffset`, and erased bytes behind them.  An update changes the
store in three ways: it clears state bits of a record, writes a record behind the
last one, or reclaims the store.
-/

namespace Udk
namespace Variable

open List

section Distinct

variable {authFormat : Bool} {rs before after : List Bytes} {r r' : Bytes}

/-- No name has two live records. -/
def Distinct (authFormat : Bool) (rs : List Bytes) : Prop :=
  ∀ key, (ofKey authFormat isLive rs key).length ≤ 1

theorem Distinct.tail (h : Distinct authFormat (r :: rs)) : Distinct authFormat rs := by
  intro key
  have hlen := h key
  rw [ofKey_cons, length_append] at hlen
  omega

theorem Distinct.head (h : Distinct authFormat (r :: rs)) (hlive : isLive r = true) :
    ofKey authFormat isLive rs (recordKey authFormat r) = [] := by
  have hlen := h (recordKey authFormat r)
  rw [ofKey_cons, if_pos ⟨hlive, rfl⟩, length_append, length_singleton] at hlen
  exact eq_nil_of_length_eq_zero (by omega)

theorem Distinct.located_eq {base off off' : Nat} (h : Distinct authFormat rs)
    (hmem : (off, r) ∈ located base rs) (hmem' : (off', r') ∈ located base rs)
    (hlive : isLive r = true) (hlive' : isLive r' = true)
    (hkey : recordKey authFormat r = recordKey authFormat r') : off = off' ∧ r = r' := by
  induction rs generalizing base with
  | nil => cases hmem
  | cons x xs ih =>
      have habsent : ∀ {o y}, isLive x = true → (o, y) ∈ located (base + x.length) xs →
          isLive y = true → recordKey authFormat y ≠ recordKey authFormat x := by
        intro o y hx hy hly hk
        have hin : y ∈ ofKey authFormat isLive xs (recordKey authFormat x) :=
          mem_ofKey.mpr ⟨mem_of_mem_located hy, hly, hk⟩
        rw [h.head hx] at hin
        cases hin
      rcases mem_cons.mp hmem with hx | hm <;> rcases mem_cons.mp hmem' with hx' | hm'
      · cases hx
        cases hx'
        exact ⟨rfl, rfl⟩
      · cases hx
        exact absurd hkey.symm (habsent hlive hm' hlive')
      · cases hx'
        exact absurd hkey (habsent hlive' hm hlive)
      · exact ih h.tail hm hm'

theorem Distinct.replace (h : Distinct authFormat (before ++ r :: after))
    (hlive : isLive r = true) (hkey : recordKey authFormat r' = recordKey authFormat r) :
    Distinct authFormat (before ++ r' :: after) := by
  intro key
  have hlen := h key
  rw [ofKey_append, ofKey_cons, length_append, length_append] at hlen ⊢
  rw [hkey]
  by_cases hk : recordKey authFormat r = key
  · rw [if_pos ⟨hlive, hk⟩, length_singleton] at hlen
    split_ifs
    · rw [length_singleton]
      omega
    · rw [length_nil]
      omega
  · rw [if_neg (fun hr => hk hr.2)] at hlen ⊢
    exact hlen

theorem Distinct.snoc (h : Distinct authFormat rs)
    (habsent : ofKey authFormat isLive rs (recordKey authFormat r) = []) :
    Distinct authFormat (rs ++ [r]) := by
  intro key
  have hlen := h key
  rw [ofKey_append, ofKey_singleton, length_append]
  split_ifs with hr
  · rw [← hr.2, habsent, length_nil, length_singleton]
  · rw [length_nil]
    omega

theorem ofKey_dead (hdead : isLive r = false) (key : Guid × Bytes) :
    ofKey authFormat isLive (before ++ r :: after) key =
      ofKey authFormat isLive (before ++ after) key := by
  rw [ofKey_append, ofKey_cons, if_neg (by simp [hdead]), nil_append, ← ofKey_append]

theorem Distinct.erase (h : Distinct authFormat (before ++ r :: after)) :
    Distinct authFormat (before ++ after) := by
  intro key
  have hlen := h key
  rw [ofKey_append, length_append] at hlen ⊢
  rw [ofKey_cons, length_append] at hlen
  omega

theorem Distinct.others (h : Distinct authFormat (before ++ r :: after)) (hlive : isLive r = true) :
    ofKey authFormat isLive (before ++ after) (recordKey authFormat r) = [] := by
  have hlen := h (recordKey authFormat r)
  rw [ofKey_append, ofKey_cons, if_pos ⟨hlive, rfl⟩] at hlen
  simp only [length_append, length_singleton] at hlen
  rw [ofKey_append]
  exact eq_nil_of_length_eq_zero (by rw [length_append]; omega)

end Distinct

/-- The volatile store: its header, the records `rs` and an erased rest. -/
structure VolInv (P : Platform) (header : Bytes) (d : Driver) (rs : List Bytes) : Prop where
  layout : ∃ n, Layout P.authFormat d.volatileStore header rs (List.replicate n 0xff)
  wellFormed : WellFormed P.authFormat rs
  last : d.volatileLastVariableOffset = storeHeaderSize + rs.flatten.length
  size_mod : storeSize header % 4 = 0

section Invariant

variable {P : Platform} {header : Bytes} {d d' : Driver} {rs : List Bytes} {off : Nat} {r : Bytes}

namespace VolInv

variable {name : Char16Str}

theorem congr (h : VolInv P header d rs) (hstore : d'.volatileStore = d.volatileStore)
    (hlast : d'.volatileLastVariableOffset = d.volatileLastVariableOffset) :
    VolInv P header d' rs where
  layout := by rw [hstore]; exact h.layout
  wellFormed := h.wellFormed
  last := by rw [hlast]; exact h.last
  size_mod := h.size_mod

theorem isRecord (h : VolInv P header d rs) : ∀ r ∈ rs, IsRecord P.authFormat r := by
  obtain ⟨n, hlayout⟩ := h.layout
  exact hlayout.records

theorem shows (h : VolInv P header d rs) : Shows P.authFormat d.volatileStore rs := by
  obtain ⟨n, hlayout⟩ := h.layout
  exact hlayout.shows

theorem storeSize_eq (h : VolInv P header d rs) :
    storeSize d.volatileStore = storeSize header ∧ storeSize header = d.volatileStore.length := by
  obtain ⟨n, hlayout⟩ := h.layout
  have hsize : storeSize d.volatileStore = storeSize header := by
    rw [hlayout.eq, Layout.storeSize_append _ hlayout.header_length]
  exact ⟨hsize, by rw [← hsize, hlayout.size_eq]⟩

theorem storeRecords_eq (h : VolInv P header d rs) :
    storeRecords P.authFormat d.volatileStore = rs := by
  obtain ⟨n, hlayout⟩ := h.layout
  exact storeRecords_layout hlayout

theorem last_facts (h : VolInv P header d rs) :
    d.volatileLastVariableOffset ≤ storeSize header ∧ d.volatileLastVariableOffset % 4 = 0 ∧
      storeSize header < 2 ^ 32 := by
  obtain ⟨n, hlayout⟩ := h.layout
  have hlen := hlayout.length_eq
  have hmod := flatten_mod rs h.isRecord
  have hlast := h.last
  have h28 : storeHeaderSize = 28 := rfl
  refine ⟨?_, by omega, field_lt _ _ _⟩
  rw [h.storeSize_eq.2]
  omega

theorem start {signature : Guid} {size : Nat} (hsize : size < 2 ^ 32)
    (hfit : storeHeaderSize ≤ size) (hmod : size % 4 = 0)
    (hstore : d.volatileStore = storeImage signature size [])
    (hlast : d.volatileLastVariableOffset = getStartPointer) :
    VolInv P (storeHeader signature size) d [] where
  layout := ⟨_, by rw [hstore]; exact layout_storeImage hsize (by simpa using hfit) (by simp)⟩
  wellFormed := by
    intro r hr
    cases hr
  last := hlast
  size_mod := by rw [storeSize_storeHeader hsize]; exact hmod

theorem track (h : VolInv P header d rs) (guid : Guid) (ignoreRtCheck : Bool)
    (hne : name.chars ≠ []) :
    NvTrack P.authFormat rs (keyOf name guid)
      (findVariableIn P d name guid ignoreRtCheck .volatile) := by
  have hfind := findVariableEx_sought h.shows h.wellFormed guid ignoreRtCheck d.atRuntime hne
  have heq : findVariableIn P d name guid ignoreRtCheck .volatile =
      ⟨(findVariableEx P.authFormat d.volatileStore name guid ignoreRtCheck d.atRuntime).1,
        (findVariableEx P.authFormat d.volatileStore name guid ignoreRtCheck d.atRuntime).2,
        .volatile⟩ := rfl
  rw [heq, hfind]
  exact .of_scan P.authFormat rs name guid ignoreRtCheck d.atRuntime .volatile

theorem track_inTransition (h : VolInv P header d rs) (hdist : Distinct P.authFormat rs)
    (guid : Guid) (ignoreRtCheck : Bool) (hne : name.chars ≠ []) :
    (findVariableIn P d name guid ignoreRtCheck .volatile).inDeletedTransitionPtr = none := by
  have htrack := h.track guid ignoreRtCheck hne
  cases hptr : (findVariableIn P d name guid ignoreRtCheck .volatile).inDeletedTransitionPtr with
  | none => rfl
  | some ptr =>
      exfalso
      obtain ⟨⟨rt, hmemt, htrans, hkeyt⟩, p, ra, hp, hmema, hadded⟩ := htrack.inTransition ptr hptr
      obtain ⟨rc, hmemc, hlive, hkey⟩ := htrack.curr p hp
      have hsame := located_unique h.shows.ne_nil hmema hmemc
      subst hsame
      have heq := hdist.located_eq hmema hmemt hlive (isLive_of_inTransition htrans)
        (hkey.trans hkeyt.symm)
      rw [heq.2, isInTransition_not_added htrans] at hadded
      cases hadded

theorem absent (h : VolInv P header d rs) (guid : Guid) (ignoreRtCheck : Bool)
    (hne : name.chars ≠ []) (hboot : d.atRuntime = false)
    (hnone : (findVariableIn P d name guid ignoreRtCheck .volatile).currPtr = none) :
    ofKey P.authFormat isLive rs (keyOf name guid) = [] := by
  have hfind := findVariableEx_sought h.shows h.wellFormed guid ignoreRtCheck d.atRuntime hne
  have hscan : (findVariableEx P.authFormat d.volatileStore name guid ignoreRtCheck
      d.atRuntime).1 = none := hnone
  rw [hfind, Option.map_eq_none_iff] at hscan
  have hall := (VersionLog.current_eq_none_iff _ _ _).mp hscan
  rw [eq_nil_iff_forall_not_mem]
  intro r hr
  obtain ⟨hmem, hlive, hkey⟩ := mem_ofKey.mp hr
  rw [← located_map_snd storeHeaderSize rs, mem_map] at hmem
  obtain ⟨e, he, rfl⟩ := hmem
  have hsought : isSought P.authFormat name guid ignoreRtCheck d.atRuntime e.2 = true := by
    rw [isSought, isVisible, hboot, hkey]
    simp
  have hdead := hall e he
  rw [hsought, Bool.and_true, Bool.and_true] at hdead
  rw [isLive_eq, hdead.1, hdead.2] at hlive
  cases hlive

end VolInv

end Invariant

/-- The space a reclaim for a record of the given length needs. -/
def reclaimedSize (authFormat : Bool) (updating updatingInTransition : Option Nat)
    (rs : List Bytes) (varSize : Nat) : Nat :=
  storeHeaderSize + (keptRecords authFormat updating updatingInTransition rs).flatten.length +
    headerAlign varSize

/-- The driver once the allocation of `ValidBuffer` has been tried. -/
def allocated (d : Driver) : Driver :=
  { d with faults := { d.faults with pool := d.faults.pool.tail } }

section Operations

variable {P : Platform} {header : Bytes} {d : Driver} {rs : List Bytes} {off : Nat} {r : Bytes}

namespace VolInv

/-- Clearing bits in the state of a live record. -/
theorem writeState (h : VolInv P header d rs) (hmem : (off, r) ∈ located storeHeaderSize rs)
    (hlive : isLive r = true) {mask : UInt8}
    (hmask : mask = varInDeletedTransition ∨ mask = varDeleted) :
    ∃ store, Variable.writeState P d true off mask =
        (.success, { d with volatileStore := store }) ∧
      VolInv P header { d with volatileStore := store } (maskAt off mask rs) := by
  obtain ⟨n, hlayout⟩ := h.layout
  have hrec := hlayout.isRecord_of_located hmem
  have h32 := hrec.length_ge
  have h2 : 2 < r.length := by omega
  obtain ⟨hff, hsff⟩ := masked_state hlive hmask
  obtain ⟨rest, hdrop⟩ := hlayout.drop_located hmem
  have hread : state (d.volatileStore.drop off) = state r := by
    rw [hdrop, state_append rest h32]
  have hrange := (le_of_mem_located hmem).2
  have hlen := hlayout.length_eq
  have hfit : 2 + [state r &&& mask].length ≤ r.length := by
    rw [length_singleton]
    omega
  have hover := hlayout.overlay_located (fun _ new => new) hmem hfit
  have hset := overlay_state (fun _ new => new) (state r &&& mask) h2
  have hmod := modifyAt_congr h.shows.ne_nil hmem
    (f := fun x => overlay (fun _ new => new) x 2 [state r &&& mask]) (g := maskState mask)
    (by rw [hset, maskState])
  rw [hmod] at hover
  have hrec' : IsRecord P.authFormat (maskState mask r) := isRecord_setState _ hff hsff h2 hrec
  have hlayout' := hlayout.modify hmem (f := maskState mask) (setState_length _) hrec'
  rw [← hover] at hlayout'
  refine ⟨copyMem d.volatileStore (off + 2) [state r &&& mask], ?_, ⟨n, hlayout'⟩, ?_, ?_,
    h.size_mod⟩
  · have hstore : updateVariableStore P d true (off + 2) [state r &&& mask] = (.success,
        { d with volatileStore := copyMem d.volatileStore (off + 2) [state r &&& mask] }) := by
      rw [updateVariableStore, if_pos rfl, if_neg]
      rw [hlayout.size_eq, length_singleton]
      omega
    have hupdated : d.updatedStore true = d.volatileStore := rfl
    simp only [Variable.writeState, hupdated, hread, hstore]
    rfl
  · intro x hx hxlive
    rcases mem_modifyAt h.shows.ne_nil hmem hx with hx | rfl
    · exact h.wellFormed x hx hxlive
    · obtain ⟨hname, hdata⟩ := h.wellFormed r (mem_of_mem_located hmem) hlive
      refine ⟨?_, ?_⟩
      · rw [HasName, maskState, variableName_setState _ hff hsff h2]
        exact hname
      · rw [maskState, dataSizeOfVariable_setState _ hff hsff h2]
        exact hdata
  · rw [maskAt, flatten_length_modifyAt h.shows.ne_nil hmem (by rw [maskState, setState_length])]
    exact h.last

variable {req : UpdateRequest} {old : Option Bytes} {data : Bytes}

/-- Writing a record behind the last one. -/
theorem append (h : VolInv P header d rs)
    (hroom : (buildVariable P.authFormat req old data).length + d.volatileLastVariableOffset <
      storeSize header)
    (hname : req.variableName.chars ≠ []) (hdata : data ≠ []) :
    ∃ store, updateVariableStore P d true d.volatileLastVariableOffset
          ((buildVariable P.authFormat req old data).set 2 varAdded) =
        (.success, { d with volatileStore := store }) ∧
      VolInv P header
        { d with
          volatileStore := store
          volatileLastVariableOffset := d.volatileLastVariableOffset +
            headerAlign (buildVariable P.authFormat req old data).length }
        (rs ++ [addedRecord P.authFormat req old data]) := by
  obtain ⟨_, hmod, hlt⟩ := h.last_facts
  obtain ⟨n, hlayout⟩ := h.layout
  have hlen := hlayout.length_eq
  have hsize := h.storeSize_eq
  have hsmod := h.size_mod
  have hsum := h.last
  have hrecsize : (buildVariable P.authFormat req old data).length < 2 ^ 32 := by omega
  have hfit : headerAlign (buildVariable P.authFormat req old data).length ≤ n := by
    rw [length_replicate] at hlen
    unfold headerAlign
    omega
  have hcopy := copyMem_record req old data hlayout hfit
  have hrec : IsRecord P.authFormat (addedRecord P.authFormat req old data) :=
    addedRecord_isRecord P.authFormat hrecsize
  have hlayout' := layout_record hlayout hrec (by rw [addedRecord_length]; exact hfit)
  rw [← hcopy, ← h.last] at hlayout'
  refine ⟨copyMem d.volatileStore d.volatileLastVariableOffset
    ((buildVariable P.authFormat req old data).set 2 varAdded), ?_, ⟨_, hlayout'⟩, ?_, ?_,
    h.size_mod⟩
  · simp only [updateVariableStore, if_true]
    rw [if_neg (by rw [hsize.1, length_set]; omega)]
  · intro x hx hxlive
    rcases mem_append.mp hx with hx | hx
    · exact h.wellFormed x hx hxlive
    · rw [mem_singleton.mp hx]
      exact liveRecord_addedRecord hrecsize hname hdata
  · simp only [flatten_append, flatten_singleton, length_append,
      addedRecord_length, h.last]
    omega

theorem append_refused (h : VolInv P header d rs) {next : Bytes}
    (hroom : storeSize header ≤ next.length + d.volatileLastVariableOffset) :
    updateVariableStore P d true d.volatileLastVariableOffset (next.set 2 varAdded) =
      (.invalidParameter, d) := by
  simp only [updateVariableStore, if_true]
  rw [if_pos (by rw [h.storeSize_eq.1, length_set]; omega)]

section Reclaim

variable {updating updatingInTransition : Option Nat}

variable (ht : TracksInTransition rs updatingInTransition)
include ht

theorem reclaimBuffer_eq (h : VolInv P header d rs) :
    (storeSize header < reclaimedSize P.authFormat updating updatingInTransition rs
          (buildVariable P.authFormat req old data).length →
        reclaimBuffer P d true d.volatileStore updating updatingInTransition
          (some (padRecord (buildVariable P.authFormat req old data))) = none) ∧
      (reclaimedSize P.authFormat updating updatingInTransition rs
          (buildVariable P.authFormat req old data).length ≤ storeSize header →
        ∃ buffer, reclaimBuffer P d true d.volatileStore updating updatingInTransition
            (some (padRecord (buildVariable P.authFormat req old data))) = some buffer ∧
          buffer.bytes = header ++ (keptRecords P.authFormat updating updatingInTransition rs ++
            [addedRecord P.authFormat req old data]).flatten) := by
  obtain ⟨n, hlayout⟩ := h.layout
  have hb := (reinstall_holds (d := d) updating hlayout h.wellFormed ht).bytes
  have hlen := congrArg List.length hb
  rw [length_append, hlayout.header_length] at hlen
  have hsize := h.storeSize_eq.1
  have hpad := padRecord_length (buildVariable P.authFormat req old data)
  unfold reclaimedSize
  constructor
  · intro hfull
    rw [reclaimBuffer, installNew, if_pos (by omega)]
  · intro hfit
    rw [reclaimBuffer, installNew]
    simp only [Bool.not_true, Bool.false_and, Bool.false_eq_true, if_false]
    rw [if_neg (by omega)]
    refine ⟨_, rfl, ?_⟩
    have hset : (padRecord (buildVariable P.authFormat req old data)).set 2 varAdded =
        addedRecord P.authFormat req old data := setState_padRecord P.authFormat
    rw [hset, hb, flatten_append, flatten_singleton, append_assoc]

theorem reclaim_refused (h : VolInv P header d rs)
    (hrefused : d.faults.pool.headD false = true ∨
      storeSize header < reclaimedSize P.authFormat updating updatingInTransition rs
        (buildVariable P.authFormat req old data).length) :
    reclaimVolatile P d updating updatingInTransition
        (some (padRecord (buildVariable P.authFormat req old data))) =
      (.outOfResources, allocated d) := by
  rw [reclaimVolatile]
  simp only
  split_ifs with hpool
  · rfl
  · have hfull := hrefused.resolve_left hpool
    rw [(h.reclaimBuffer_eq ht).1 hfull]
    rfl

/-- A reclaim leaves the records it keeps and the new one. -/
theorem reclaim_done (h : VolInv P header d rs)
    (hpool : d.faults.pool.headD false = false)
    (hfit : reclaimedSize P.authFormat updating updatingInTransition rs
      (buildVariable P.authFormat req old data).length ≤ storeSize header)
    (hname : req.variableName.chars ≠ []) (hdata : data ≠ []) :
    ∃ store last, reclaimVolatile P d updating updatingInTransition
          (some (padRecord (buildVariable P.authFormat req old data))) =
        (.success, { allocated d with
          volatileStore := store
          volatileLastVariableOffset := last }) ∧
      VolInv P header
        { allocated d with
          volatileStore := store
          volatileLastVariableOffset := last }
        (keptRecords P.authFormat updating updatingInTransition rs ++
          [addedRecord P.authFormat req old data]) := by
  obtain ⟨buffer, hbuffer, hbytes⟩ := (h.reclaimBuffer_eq ht).2 hfit
  obtain ⟨n, hlayout⟩ := h.layout
  have hsize := h.storeSize_eq.1
  have hlt := h.last_facts.2.2
  have hle := le_headerAlign (buildVariable P.authFormat req old data).length
  unfold reclaimedSize at hfit
  have hrecsize : (buildVariable P.authFormat req old data).length < 2 ^ 32 := by omega
  have hkept := keptRecords_facts updating updatingInTransition h.isRecord h.wellFormed
  have hrecs : ∀ x ∈ keptRecords P.authFormat updating updatingInTransition rs ++
      [addedRecord P.authFormat req old data], IsRecord P.authFormat x := by
    intro x hx
    rcases mem_append.mp hx with hx | hx
    · exact (hkept x hx).1
    · rw [mem_singleton.mp hx]
      exact addedRecord_isRecord P.authFormat hrecsize
  have hlayout' := layout_validBuffer hlayout.header_length rfl
    (by
      rw [flatten_append, flatten_singleton, length_append, addedRecord_length]
      omega) hrecs
  rw [← hbytes, ← hsize] at hlayout'
  refine ⟨validBuffer (storeSize d.volatileStore) buffer.bytes, buffer.bytes.length, ?_,
    ⟨_, hlayout'⟩, ?_, ?_, h.size_mod⟩
  · rw [reclaimVolatile]
    simp only
    rw [if_neg (by rw [hpool]; decide), hbuffer]
    rfl
  · intro x hx _
    rcases mem_append.mp hx with hx | hx
    · exact (hkept x hx).2.2
    · rw [mem_singleton.mp hx]
      exact liveRecord_addedRecord hrecsize hname hdata
  · simp only [hbytes, length_append, hlayout.header_length]

end Reclaim

end VolInv

end Operations

end Variable
end Udk
