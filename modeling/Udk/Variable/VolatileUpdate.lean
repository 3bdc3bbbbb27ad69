import Udk.Variable.VolatileStore

/-!
# Updates of the volatile store

What an update does to the volatile store: an update of a non-volatile variable
leaves it alone, and one of a volatile variable deletes a record, or sets the old
record in transition and installs a new one.
-/

namespace Udk
namespace Variable

open List

section Frame

variable {track : PointerTrack}

/-- The volatile store is not touched. -/
structure SameVolatile (d d' : Driver) : Prop where
  store : d'.volatileStore = d.volatileStore
  last : d'.volatileLastVariableOffset = d.volatileLastVariableOffset

namespace SameVolatile

variable {P : Platform} {d d' d'' : Driver}

theorem refl (d : Driver) : SameVolatile d d :=
  ⟨rfl, rfl⟩

theorem trans (h : SameVolatile d d') (h' : SameVolatile d' d'') : SameVolatile d d'' :=
  ⟨h'.store.trans h.store, h'.last.trans h.last⟩

end SameVolatile

theorem VolInv.of_same {P : Platform} {header : Bytes} {d d' : Driver} {rs : List Bytes}
    (h : VolInv P header d rs) (hsame : SameVolatile d d') : VolInv P header d' rs :=
  h.congr hsame.store hsame.last

variable (P : Platform)

theorem fvbWrite_sameVolatile (d : Driver) (offset : Nat) (buffer : Bytes) :
    SameVolatile d (fvbWrite P d offset buffer).2 := by
  unfold fvbWrite
  dsimp only
  split_ifs <;> exact ⟨rfl, rfl⟩

theorem writeBlocks_sameVolatile (blocks : List Nat) (linearOffset : Nat) (d : Driver) (ptr : Nat)
    (buffer : Bytes) : SameVolatile d (writeBlocks P blocks linearOffset d ptr buffer).2 := by
  induction blocks generalizing linearOffset d ptr buffer with
  | nil => exact .refl d
  | cons length blocks ih =>
      rw [writeBlocks]
      split_ifs
      · exact fvbWrite_sameVolatile P d _ _
      · have hfirst := fvbWrite_sameVolatile P d (ptr - P.headerLength)
          (buffer.take (linearOffset + length - ptr))
        dsimp only
        split_ifs
        · exact hfirst
        · exact hfirst.trans (ih _ _ _ _)
      · exact ih _ _ _ _

theorem updateVariableStore_sameVolatile (d : Driver) (offset : Nat) (buffer : Bytes) :
    SameVolatile d (updateVariableStore P d false offset buffer).2 := by
  rw [updateVariableStore, if_neg (by decide)]
  split_ifs
  · exact .refl d
  · exact .refl d
  · exact (writeBlocks_sameVolatile P P.blockLengths 0 d _ buffer).trans ⟨rfl, rfl⟩

theorem writeState_sameVolatile (d : Driver) (ptr : Nat) (mask : UInt8) :
    SameVolatile d (writeState P d false ptr mask).2 := by
  have hstore := updateVariableStore_sameVolatile P d (ptr + 2)
    [state ((d.updatedStore false).drop ptr) &&& mask]
  unfold writeState
  dsimp only
  split_ifs
  · exact hstore
  · exact hstore.trans ⟨rfl, rfl⟩

theorem deleteRecords_sameVolatile (d : Driver) (currPtr : Nat)
    (h : track.isVolatile = false) : SameVolatile d (deleteRecords P d track currPtr).2 := by
  rw [deleteRecords, h]
  cases track.inDeletedTransitionPtr with
  | none => exact writeState_sameVolatile P d currPtr varDeleted
  | some ptr =>
      have hfirst := writeState_sameVolatile P d ptr varDeleted
      dsimp only
      split_ifs
      · exact hfirst
      · exact hfirst.trans (writeState_sameVolatile P _ currPtr varDeleted)

theorem writeSequence_sameVolatile (d : Driver) (writes : List (Nat × Bytes)) :
    SameVolatile d (writeSequence P d writes).2 := by
  induction writes generalizing d with
  | nil => exact .refl d
  | cons w writes ih =>
      have hfirst := updateVariableStore_sameVolatile P d w.1 w.2
      rw [writeSequence]
      dsimp only
      split_ifs
      · exact hfirst
      · exact hfirst.trans (ih _)

theorem reclaimNv_sameVolatile (d : Driver) (updating updatingInTransition : Option Nat)
    (newVariable : Option Bytes) :
    SameVolatile d (reclaimNv P d updating updatingInTransition newVariable).2 := by
  unfold reclaimNv ftwVariableSpace
  dsimp only
  split
  · exact ⟨rfl, rfl⟩
  · split_ifs <;> exact ⟨rfl, rfl⟩

theorem deleteReplaced_sameVolatile (d : Driver) (intoVolatile : Bool)
    (h : track.isVolatile = false) : SameVolatile d (deleteReplaced P d track intoVolatile).driver := by
  rw [deleteReplaced]
  split
  · exact .refl d
  · exact deleteRecords_sameVolatile P d _ h

theorem installNonVolatile_sameVolatile (d : Driver) (req : UpdateRequest)
    (next : Bytes) (h : track.isVolatile = false) :
    SameVolatile d (installNonVolatile P d req track next).driver := by
  unfold installNonVolatile
  split_ifs
  · exact .refl d
  · have hreclaim := reclaimNv_sameVolatile P d (trackedIn false track track.currPtr)
      (trackedIn false track track.inDeletedTransitionPtr) (some (padRecord next))
    simp only [reclaim, Bool.false_eq_true, if_false]
    split_ifs <;> exact hreclaim
  · have hwrite : SameVolatile d (writeRecord P d next req.isHwErr
        (isCommonUserVariable P d req next)).2 := by
      have hseq := writeSequence_sameVolatile P d
        (recordWrites P d.nonVolatileLastVariableOffset next)
      unfold writeRecord
      dsimp only
      split_ifs
      · exact hseq
      · exact hseq.trans ⟨rfl, rfl⟩
    dsimp only
    split_ifs
    · exact hwrite
    · exact hwrite.trans (deleteReplaced_sameVolatile P _ false h)

end Frame

section Records

variable {authFormat : Bool} {rs before after : List Bytes} {r r' : Bytes} {off : Nat}

theorem head?_ofKey_replace (hlive : isLive r' = isLive r)
    (hkey : recordKey authFormat r' = recordKey authFormat r)
    (hvalue : recordValue authFormat r' = recordValue authFormat r) (key : Guid × Bytes) :
    (ofKey authFormat isLive (before ++ r' :: after) key).head?.map (recordValue authFormat) =
      (ofKey authFormat isLive (before ++ r :: after) key).head?.map (recordValue authFormat) := by
  rw [ofKey_append, ofKey_append, ofKey_cons, ofKey_cons, hlive, hkey]
  cases ofKey authFormat isLive before key with
  | cons x xs => rfl
  | nil =>
      split_ifs
      · simp only [nil_append, singleton_append, head?_cons, Option.map_some, hvalue]
      · rfl

theorem Distinct.lookup (h : Distinct authFormat rs) (key : Guid × Bytes) :
    lookupRecords authFormat rs key =
      (ofKey authFormat isLive rs key).head?.map (recordValue authFormat) := by
  have hsplit : ∀ p : Bytes → Bool, (∀ r, p r = true → isLive r = true) →
      ofKey authFormat p rs key = (ofKey authFormat isLive rs key).filter p := by
    intro p hp
    rw [ofKey, ofKey, filter_filter]
    apply filter_congr
    intro r _
    cases hr : p r with
    | false => rfl
    | true => rw [hp r hr, Bool.true_and, Bool.true_and]
  have hlen := h key
  rw [lookupRecords_eq, hsplit isAdded (fun r hr => by rw [isLive_eq, hr, Bool.true_or]),
    hsplit isInTransition (fun r hr => isLive_of_inTransition hr)]
  cases hkey : ofKey authFormat isLive rs key with
  | nil => rfl
  | cons x xs =>
      rw [hkey, length_cons] at hlen
      obtain rfl : xs = [] := eq_nil_of_length_eq_zero (by omega)
      have hx : x ∈ ofKey authFormat isLive rs key := by
        rw [hkey]
        exact mem_singleton_self x
      have hlive := (mem_ofKey.mp hx).2.1
      cases ht : isInTransition x with
      | true =>
          have ha := isInTransition_not_added ht
          simp [ha, ht]
      | false =>
          have ha := isAdded_of_live hlive ht
          simp [ha, ht]

theorem Distinct.mark (h : Distinct authFormat rs) (hrec : ∀ x ∈ rs, IsRecord authFormat x)
    (hmem : (off, r) ∈ located storeHeaderSize rs) (hlive : isLive r = true) :
    Distinct authFormat (maskAt off varInDeletedTransition rs) ∧
      (off, maskState varInDeletedTransition r) ∈
        located storeHeaderSize (maskAt off varInDeletedTransition rs) ∧
      ∀ key, lookupRecords authFormat (maskAt off varInDeletedTransition rs) key =
        lookupRecords authFormat rs key := by
  have hne : ∀ x ∈ rs, x ≠ [] := by
    rintro x hx rfl
    have := (hrec [] hx).length_ge
    simp at this
  have hr := hrec r (mem_of_mem_located hmem)
  obtain ⟨-, hkey, hvalue⟩ := maskState_record hr hlive (Or.inl rfl)
  have hlive' : isLive (maskState varInDeletedTransition r) = true :=
    isLive_of_inTransition (maskState_inTransition hr hlive).1
  have hmem' := mem_located_modifyAt_self (f := maskState varInDeletedTransition) hne hmem
  obtain ⟨before, after, rfl, hoff⟩ := mem_located hmem
  have hsplit : maskAt off varInDeletedTransition (before ++ r :: after) =
      before ++ maskState varInDeletedTransition r :: after :=
    maskAt_split (fun x hx => hne x (mem_append_left _ hx)) hoff varInDeletedTransition
  have hdist : Distinct authFormat (maskAt off varInDeletedTransition (before ++ r :: after)) := by
    rw [hsplit]
    exact h.replace hlive hkey
  refine ⟨hdist, hmem', ?_⟩
  intro key
  rw [hdist.lookup, h.lookup, hsplit]
  exact head?_ofKey_replace (hlive'.trans hlive.symm) hkey hvalue key

theorem Distinct.of_dead (h : Distinct authFormat (before ++ after)) (hdead : isLive r = false) :
    Distinct authFormat (before ++ r :: after) := by
  intro key
  rw [ofKey_dead hdead]
  exact h key

theorem Distinct.kept {updating updatingInTransition : Option Nat}
    (h : Distinct authFormat (remaining updating updatingInTransition rs))
    (hrec : ∀ x ∈ rs, IsRecord authFormat x) :
    Distinct authFormat (keptRecords authFormat updating updatingInTransition rs) := by
  have hsub : ∀ x ∈ remaining updating updatingInTransition rs, IsRecord authFormat x := by
    intro x hx
    rw [remaining, mem_map] at hx
    obtain ⟨e, he, rfl⟩ := hx
    exact hrec e.2 (mem_of_mem_located (mem_filter.mp he).1)
  have hadded : ∀ key, (ofKey authFormat isAdded
      (remaining updating updatingInTransition rs) key).length ≤ 1 := by
    intro key
    refine le_trans ?_ (h key)
    apply List.Sublist.length_le
    apply monotone_filter_right
    intro r hr
    rw [Bool.and_eq_true] at hr ⊢
    exact ⟨by rw [isLive_eq, hr.1, Bool.true_or], hr.2⟩
  have hnodup := (VersionLog.compact_nodup_iff
    (fun r hr ht => recordKey_promote (hsub r hr) ht)).mpr ((nodup_added_iff _).mpr hadded)
  intro key
  have hcount := nodup_iff_count_le_one.mp hnodup key
  rw [count_eq_countP, countP_map, countP_eq_length_filter] at hcount
  refine le_trans ?_ hcount
  apply List.Sublist.length_le
  apply monotone_filter_right
  intro r hr
  rw [Bool.and_eq_true, decide_eq_true_eq] at hr
  rw [Function.comp_apply, beq_iff_eq]
  exact hr.2

theorem ofKey_kept {updating updatingInTransition : Option Nat} {key : Guid × Bytes}
    (hrec : ∀ x ∈ rs, IsRecord authFormat x)
    (habsent : ofKey authFormat isLive (remaining updating updatingInTransition rs) key = []) :
    ofKey authFormat isLive (keptRecords authFormat updating updatingInTransition rs) key = [] := by
  have hnone : ∀ x ∈ remaining updating updatingInTransition rs, isLive x = true →
      recordKey authFormat x ≠ key := by
    intro x hx hlive hkey
    have hin := mem_ofKey.mpr ⟨hx, hlive, hkey⟩
    rw [habsent] at hin
    cases hin
  rw [eq_nil_iff_forall_not_mem]
  intro r hr
  obtain ⟨hmem, hlive, hkey⟩ := mem_ofKey.mp hr
  rcases VersionLog.mem_compact hmem with ⟨hx, _⟩ | ⟨x, hx, ht, rfl⟩
  · exact hnone r hx hlive hkey
  · have hin : x ∈ rs := by
      rw [remaining, mem_map] at hx
      obtain ⟨e, he, rfl⟩ := hx
      exact mem_of_mem_located (mem_filter.mp he).1
    rw [recordKey_promote (hrec x hin) ht] at hkey
    exact hnone x hx (isLive_of_inTransition ht) hkey

end Records

section Install

variable {P : Platform} {header : Bytes} {d : Driver} {rs : List Bytes} {track : PointerTrack}
variable {req : UpdateRequest} {old : Option Bytes} {data : Bytes}

/-- A track for a record of the volatile store, or for none. -/
structure VolTrack (rs : List Bytes) (track : PointerTrack) : Prop where
  inTransition : track.inDeletedTransitionPtr = none
  found : ∀ ptr, track.currPtr = some ptr → track.isVolatile = true ∧
    ∃ r, (ptr, r) ∈ located storeHeaderSize rs ∧ isLive r = true

/-- The records once the one of the track is deleted. -/
def replacedRecords (track : PointerTrack) (rs : List Bytes) : List Bytes :=
  match track.currPtr with
  | none => rs
  | some ptr => maskAt ptr varDeleted rs

namespace VolTrack

theorem updating (h : VolTrack rs track) : trackedIn true track track.currPtr = track.currPtr := by
  rw [trackedIn]
  cases hcurr : track.currPtr with
  | none => exact ite_self _
  | some ptr =>
      rw [(h.found ptr hcurr).1]
      rfl

theorem updatingInTransition (h : VolTrack rs track) :
    trackedIn true track track.inDeletedTransitionPtr = none := by
  rw [trackedIn, h.inTransition]
  exact ite_self _

theorem append (h : VolTrack rs track) (new : List Bytes) : VolTrack (rs ++ new) track where
  inTransition := h.inTransition
  found := by
    intro ptr hptr
    obtain ⟨hvol, r, hmem, hlive⟩ := h.found ptr hptr
    refine ⟨hvol, r, ?_, hlive⟩
    rw [located_append]
    exact mem_append_left _ hmem

end VolTrack

theorem tracksInTransition_none (rs : List Bytes) : TracksInTransition rs none := by
  intro off r _ hnone
  cases hnone

theorem VolInv.deleteReplaced (h : VolInv P header d rs) (ht : VolTrack rs track) :
    ∃ d', Variable.deleteReplaced P d track true = ⟨.success, .done, d'⟩ ∧
      VolInv P header d' (replacedRecords track rs) := by
  rw [Variable.deleteReplaced, replacedRecords]
  cases hcurr : track.currPtr with
  | none => exact ⟨d, rfl, h⟩
  | some ptr =>
      obtain ⟨hvol, r, hmem, hlive⟩ := ht.found ptr hcurr
      obtain ⟨store, hwrite, hinv⟩ := h.writeState hmem hlive (Or.inr rfl)
      refine ⟨_, ?_, hinv⟩
      simp only [deleteRecords, ht.inTransition, hvol, hwrite]
      rfl

/-- How installing a record in the volatile store can end.  The three comparisons of the
code leave a gap: a record that ends at the end of the store, or whose end does not fit 32
bits, is written in place and refused. -/
inductive VolatileResult (P : Platform) (header : Bytes) (d : Driver) (rs : List Bytes)
    (track : PointerTrack) (req : UpdateRequest) (old : Option Bytes) (data : Bytes) :
    Outcome → Prop
  /-- The reclaim gets no memory, or there is no room for the record. -/
  | noRoom
      (hreclaim : storeSize header < ((buildVariable P.authFormat req old data).length +
        d.volatileLastVariableOffset) % 2 ^ 32)
      (hrefused : d.faults.pool.headD false = true ∨
        storeSize header < reclaimedSize P.authFormat track.currPtr none rs
          (buildVariable P.authFormat req old data).length) :
      VolatileResult P header d rs track req old data ⟨.outOfResources, .done, allocated d⟩
  | reclaimed (d' : Driver)
      (hreclaim : storeSize header < ((buildVariable P.authFormat req old data).length +
        d.volatileLastVariableOffset) % 2 ^ 32)
      (hpool : d.faults.pool.headD false = false)
      (hfit : reclaimedSize P.authFormat track.currPtr none rs
        (buildVariable P.authFormat req old data).length ≤ storeSize header)
      (hinv : VolInv P header d' (keptRecords P.authFormat track.currPtr none rs ++
        [addedRecord P.authFormat req old data])) :
      VolatileResult P header d rs track req old data ⟨.success, .done, d'⟩
  /-- No reclaim, but the write is refused. -/
  | outside
      (hplace : ((buildVariable P.authFormat req old data).length +
        d.volatileLastVariableOffset) % 2 ^ 32 ≤ storeSize header)
      (hend : storeSize header ≤ (buildVariable P.authFormat req old data).length +
        d.volatileLastVariableOffset) :
      VolatileResult P header d rs track req old data ⟨.invalidParameter, .done, d⟩
  | written (d' : Driver)
      (hend : (buildVariable P.authFormat req old data).length +
        d.volatileLastVariableOffset < storeSize header)
      (hinv : VolInv P header d' (replacedRecords track
        (rs ++ [addedRecord P.authFormat req old data]))) :
      VolatileResult P header d rs track req old data ⟨.success, .done, d'⟩

theorem VolInv.installVolatile (h : VolInv P header d rs) (ht : VolTrack rs track)
    (hname : req.variableName.chars ≠ []) (hdata : data ≠ []) :
    VolatileResult P header d rs track req old data
      (Variable.installVolatile P d track (buildVariable P.authFormat req old data)) := by
  rw [Variable.installVolatile]
  simp only [h.storeSize_eq.1, reclaim, if_true, ht.updating, ht.updatingInTransition]
  by_cases hreclaim : storeSize header < ((buildVariable P.authFormat req old data).length +
      d.volatileLastVariableOffset) % 2 ^ 32
  · rw [if_pos hreclaim]
    by_cases hrefused : d.faults.pool.headD false = true ∨
        storeSize header < reclaimedSize P.authFormat track.currPtr none rs
          (buildVariable P.authFormat req old data).length
    · rw [h.reclaim_refused (tracksInTransition_none rs) hrefused]
      exact .noRoom hreclaim hrefused
    · rw [not_or, Bool.not_eq_true, not_lt] at hrefused
      obtain ⟨store, last, hdone, hinv⟩ :=
        h.reclaim_done (tracksInTransition_none rs) hrefused.1 hrefused.2 hname hdata
      rw [hdone]
      exact .reclaimed _ hreclaim hrefused.1 hrefused.2 hinv
  · rw [if_neg hreclaim]
    by_cases hend : storeSize header ≤ (buildVariable P.authFormat req old data).length +
        d.volatileLastVariableOffset
    · rw [h.append_refused hend]
      exact .outside (by omega) hend
    · rw [not_le] at hend
      obtain ⟨store, hwrite, hinv⟩ := h.append hend hname hdata
      obtain ⟨d', hreplaced, hinv'⟩ := hinv.deleteReplaced (ht.append _)
      rw [hwrite]
      simp only [EfiStatus.isError, bne_self_eq_false, Bool.false_eq_true, if_false]
      rw [hreplaced]
      exact .written d' hend hinv'

end Install

section Keep

variable {P : Platform} {header : Bytes} {d : Driver} {rs : List Bytes} {track : PointerTrack}
variable {req : UpdateRequest} {old : Option Bytes} {data : Bytes} {key : Guid × Bytes}

/-- The track stands for the live record of a name. -/
structure TracksName (authFormat : Bool) (rs : List Bytes) (track : PointerTrack)
    (key : Guid × Bytes) : Prop where
  found : ∀ ptr r, track.currPtr = some ptr → (ptr, r) ∈ located storeHeaderSize rs →
    recordKey authFormat r = key
  absent : track.currPtr = none → ofKey authFormat isLive rs key = []

theorem TracksName.remaining (h : TracksName P.authFormat rs track key) (ht : VolTrack rs track)
    (hdist : Distinct P.authFormat rs) (hne : ∀ x ∈ rs, x ≠ []) :
    Distinct P.authFormat (Variable.remaining track.currPtr none rs) ∧
      ofKey P.authFormat isLive (Variable.remaining track.currPtr none rs) key = [] := by
  cases hcurr : track.currPtr with
  | none =>
      rw [remaining_none]
      exact ⟨hdist, h.absent hcurr⟩
  | some ptr =>
      obtain ⟨-, r, hmem, hlive⟩ := ht.found ptr hcurr
      have hkey := h.found ptr r hcurr hmem
      obtain ⟨before, after, rfl, hoff⟩ := mem_located hmem
      rw [remaining_split hne hoff, ← hkey]
      exact ⟨hdist.erase, hdist.others hlive⟩

theorem Distinct.delete {authFormat : Bool} {off : Nat} {r : Bytes} (h : Distinct authFormat rs)
    (hrec : ∀ x ∈ rs, IsRecord authFormat x) (hne : ∀ x ∈ rs, x ≠ [])
    (hmem : (off, r) ∈ located storeHeaderSize rs) (hlive : isLive r = true) :
    Distinct authFormat (maskAt off varDeleted rs) := by
  have hr := hrec r (mem_of_mem_located hmem)
  have hdead := masked_live hlive (Or.inr rfl) (by have := hr.length_ge; omega)
  obtain ⟨before, after, rfl, hoff⟩ := mem_located hmem
  rw [maskAt_split (fun x hx => hne x (mem_append_left _ hx)) hoff]
  exact h.erase.of_dead hdead

/-- **Installing a record keeps the store**, whether or not it succeeds. -/
theorem VolatileResult.keeps (h : VolInv P header d rs) (hdist : Distinct P.authFormat rs)
    (ht : VolTrack rs track)
    (hname : TracksName P.authFormat rs track (keyOf req.variableName req.vendorGuid))
    {o : Outcome} (hres : VolatileResult P header d rs track req old data o) :
    ∃ rs', VolInv P header o.driver rs' ∧ Distinct P.authFormat rs' := by
  have hlt := h.last_facts.2.2
  have hrec := h.isRecord
  have hne := h.shows.ne_nil
  obtain ⟨hrest, habsent⟩ := hname.remaining ht hdist hne
  cases hres with
  | noRoom hreclaim hrefused => exact ⟨rs, h.congr rfl rfl, hdist⟩
  | outside hplace hend => exact ⟨rs, h, hdist⟩
  | reclaimed d' hreclaim hpool hfit hinv =>
      have hsize : (buildVariable P.authFormat req old data).length < 2 ^ 32 := by
        have hle := le_headerAlign (buildVariable P.authFormat req old data).length
        unfold reclaimedSize at hfit
        omega
      refine ⟨_, hinv, (hrest.kept hrec).snoc ?_⟩
      rw [recordKey_addedRecord hsize]
      exact ofKey_kept hrec habsent
  | written d' hend hinv =>
      have hkey : recordKey P.authFormat (addedRecord P.authFormat req old data) =
          keyOf req.variableName req.vendorGuid := recordKey_addedRecord (by omega)
      refine ⟨_, hinv, ?_⟩
      rw [replacedRecords]
      cases hcurr : track.currPtr with
      | none =>
          apply hdist.snoc
          rw [hkey]
          exact hname.absent hcurr
      | some ptr =>
          obtain ⟨-, r, hmem, hlive⟩ := ht.found ptr hcurr
          have hr := hrec r (mem_of_mem_located hmem)
          have hdead := masked_live hlive (Or.inr rfl) (by have := hr.length_ge; omega)
          rw [hcurr] at hrest habsent
          obtain ⟨before, after, rfl, hoff⟩ := mem_located hmem
          rw [remaining_split hne hoff] at hrest habsent
          dsimp only
          rw [append_assoc, cons_append,
            maskAt_split (fun x hx => hne x (mem_append_left _ hx)) hoff]
          refine Distinct.of_dead ?_ hdead
          rw [← append_assoc]
          apply hrest.snoc
          rw [hkey]
          exact habsent

end Keep

section Update

variable {P : Platform} {header : Bytes} {d : Driver} {rs : List Bytes} {track : PointerTrack}
variable {req : UpdateRequest} {ignoreRtCheck : Bool}

/-- What `UpdateVariable` may rely on at boot time: its caller has checked that the name is
not empty and that the new attributes are those of the variable it found. -/
structure VolatileCall (P : Platform) (d : Driver) (req : UpdateRequest) (ignoreRtCheck : Bool) :
    Prop where
  boot : d.atRuntime = false
  name_ne : req.variableName.chars ≠ []
  side : ∀ track, redirectHob P d req (trackOf P d req ignoreRtCheck) = some track →
    track.currPtr.isSome = true → req.isDelete = false →
    track.isVolatile = !hasAttribute req.attributes efiVariableNonVolatile

/-- The store once the old record of an update, if there is one, is in transition. -/
structure PreparedVolatile (P : Platform) (header : Bytes) (d : Driver) (rs : List Bytes)
    (track : PointerTrack) (key : Guid × Bytes) (d1 : Driver) (rs1 : List Bytes) : Prop where
  inv : VolInv P header d1 rs1
  distinct : Distinct P.authFormat rs1
  volTrack : VolTrack rs1 track
  name : TracksName P.authFormat rs1 track key
  lookup : ∀ k, lookupRecords P.authFormat rs1 k = lookupRecords P.authFormat rs k
  driver : d1 = { d with volatileStore := d1.volatileStore }
  reclaimed : ∀ n, reclaimedSize P.authFormat track.currPtr none rs1 n =
    reclaimedSize P.authFormat track.currPtr none rs n

theorem findVariableIn_absent (P : Platform) (d : Driver) {name : Char16Str} {guid : Guid}
    {type : StoreType} (h : (findVariableIn P d name guid ignoreRtCheck type).currPtr = none) :
    (findVariableIn P d name guid ignoreRtCheck type).inDeletedTransitionPtr = none := by
  unfold findVariableIn at h ⊢
  cases hs : d.searchedStore type with
  | none => rfl
  | some store =>
      rw [hs] at h
      dsimp only at h ⊢
      cases hptr : (findVariableEx P.authFormat store name guid ignoreRtCheck d.atRuntime).2 with
      | none => rfl
      | some ptr =>
          obtain ⟨p, -, hp, -⟩ := VersionLog.scan_snd_added _ _ hptr
          have hfound : (findVariableEx P.authFormat store name guid ignoreRtCheck
              d.atRuntime).1 = some p := hp
          rw [h] at hfound
          cases hfound

namespace VolInv

theorem volTrack (h : VolInv P header d rs) (hdist : Distinct P.authFormat rs) {name : Char16Str}
    (guid : Guid) (ignoreRtCheck : Bool) (hne : name.chars ≠ []) :
    VolTrack rs (findVariableIn P d name guid ignoreRtCheck .volatile) where
  inTransition := h.track_inTransition hdist guid ignoreRtCheck hne
  found := by
    intro ptr hptr
    obtain ⟨r, hmem, hlive, -⟩ := (h.track guid ignoreRtCheck hne).curr ptr hptr
    exact ⟨rfl, r, hmem, hlive⟩

theorem mark (h : VolInv P header d rs) (hdist : Distinct P.authFormat rs)
    (ht : VolTrack rs track) {key : Guid × Bytes}
    (hname : TracksName P.authFormat rs track key) {currPtr : Nat}
    (hcurr : track.currPtr = some currPtr) :
    ∃ d1, Variable.writeState P d true currPtr varInDeletedTransition = (.success, d1) ∧
      PreparedVolatile P header d rs track key d1 (maskAt currPtr varInDeletedTransition rs) := by
  obtain ⟨hvol, r, hmem, hlive⟩ := ht.found currPtr hcurr
  obtain ⟨store, hwrite, hinv⟩ := h.writeState hmem hlive (Or.inl rfl)
  obtain ⟨hdist', hmem', hlookup⟩ := hdist.mark h.isRecord hmem hlive
  have hne := h.shows.ne_nil
  have hr := h.isRecord r (mem_of_mem_located hmem)
  have hlive' : isLive (maskState varInDeletedTransition r) = true :=
    isLive_of_inTransition (maskState_inTransition hr hlive).1
  refine ⟨_, hwrite, hinv, hdist', ⟨ht.inTransition, ?_⟩, ⟨?_, ?_⟩, hlookup, rfl, ?_⟩
  · intro ptr hptr
    obtain rfl : currPtr = ptr := Option.some_inj.mp (hcurr.symm.trans hptr)
    exact ⟨hvol, _, hmem', hlive'⟩
  · intro ptr r' hptr hr'
    obtain rfl : currPtr = ptr := Option.some_inj.mp (hcurr.symm.trans hptr)
    obtain rfl := located_unique hinv.shows.ne_nil hr' hmem'
    rw [(maskState_record hr hlive (Or.inl rfl)).2.1]
    exact hname.found currPtr r hcurr hmem
  · intro hnone
    rw [hcurr] at hnone
    cases hnone
  · intro n
    have hne' := hinv.shows.ne_nil
    obtain ⟨before, after, rfl, hoff⟩ := mem_located hmem
    have hsplit : maskAt currPtr varInDeletedTransition (before ++ r :: after) =
        before ++ maskState varInDeletedTransition r :: after :=
      maskAt_split (fun x hx => hne x (mem_append_left _ hx)) hoff varInDeletedTransition
    rw [hsplit] at hne' ⊢
    rw [reclaimedSize, reclaimedSize, keptRecords, keptRecords, hcurr, remaining_split hne' hoff,
      remaining_split hne hoff]

/-- An update that installs a volatile record: the old record has been set in transition
before the new one is installed. -/
theorem prepare (h : VolInv P header d rs) (hdist : Distinct P.authFormat rs)
    (hcall : VolatileCall P d req ignoreRtCheck)
    (hattr : hasAttribute req.attributes efiVariableNonVolatile = false)
    {mark : Option Nat} {data : Bytes}
    (hplan : plan P d req (trackOf P d req ignoreRtCheck) = .install track mark data) :
    data ≠ [] ∧ ∃ d1 rs1 old,
      PreparedVolatile P header d rs track (keyOf req.variableName req.vendorGuid) d1 rs1 ∧
      execute P d req (.install track mark data) =
        Variable.installVolatile P d1 track (buildVariable P.authFormat req old data) := by
  obtain ⟨hred, -, hcases⟩ := plan_install P d req hplan
  have hne := hcall.name_ne
  have hdel := plan_install_not_delete hplan
  rcases hcases with ⟨hnone, rfl, rfl, hdata, -⟩ | ⟨currPtr, hcurr, -, -, hlive⟩
  · -- There is no record to replace, so the volatile store has none of the name.
    have hvolnone : (findVariableIn P d req.variableName req.vendorGuid ignoreRtCheck
        .volatile).currPtr = none := by
      cases hv : (findVariableIn P d req.variableName req.vendorGuid ignoreRtCheck
          .volatile).currPtr with
      | none => rfl
      | some p =>
          exfalso
          have htrack : trackOf P d req ignoreRtCheck =
              findVariableIn P d req.variableName req.vendorGuid ignoreRtCheck .volatile := by
            rw [trackOf, findVariable]
            simp only [hv, Option.isSome_some, if_true]
          rw [htrack, redirectHob, findVariableIn_type] at hred
          rw [if_neg (by simp)] at hred
          rw [← Option.some_inj.mp hred, hv] at hnone
          cases hnone
    have htrans : track.inDeletedTransitionPtr = none := by
      rcases redirectHob_cases P d hred with ⟨-, hsome⟩ | ⟨ign, -, htrack⟩
      · rw [hnone] at hsome
        cases hsome
      · rw [htrack] at hnone ⊢
        exact findVariableIn_absent P d hnone
    refine ⟨hdata, d, rs, track.currPtr.map (trackedRecord d track), ⟨h, hdist, ⟨htrans, ?_⟩,
      ⟨?_, ?_⟩, fun k => rfl, rfl, fun n => rfl⟩, ?_⟩
    · intro ptr hptr
      rw [hnone] at hptr
      cases hptr
    · intro ptr r hptr
      rw [hnone] at hptr
      cases hptr
    · intro _
      exact h.absent req.vendorGuid ignoreRtCheck hne hcall.boot hvolnone
    · simp only [execute, executeInstall, installVariable, hattr, Bool.false_eq_true, if_false]
  · have hvol : track.isVolatile = true := by
      have hside := hcall.side track hred (by rw [hcurr]; rfl) hdel
      rw [hattr] at hside
      exact hside
    obtain ⟨htrack, -⟩ : track = findVariableIn P d req.variableName req.vendorGuid ignoreRtCheck
        .volatile ∧ track.currPtr.isSome = true := by
      rcases redirectHob_cases P d hred with hv | ⟨ign, -, htrack⟩
      · exact hv
      · rw [htrack, PointerTrack.isVolatile, findVariableIn_type] at hvol
        cases hvol
    have ht : VolTrack rs track := by
      rw [htrack]
      exact h.volTrack hdist req.vendorGuid ignoreRtCheck hne
    obtain ⟨r, hmem, hrlive, hkey⟩ :=
      (h.track req.vendorGuid ignoreRtCheck hne).curr currPtr (by rw [← htrack]; exact hcurr)
    have hname : TracksName P.authFormat rs track (keyOf req.variableName req.vendorGuid) := by
      constructor
      · intro ptr r' hptr hr'
        obtain rfl : currPtr = ptr := Option.some_inj.mp (hcurr.symm.trans hptr)
        obtain rfl := located_unique h.shows.ne_nil hr' hmem
        exact hkey
      · intro hnone
        rw [hcurr] at hnone
        cases hnone
    have hr := h.isRecord r (mem_of_mem_located hmem)
    obtain ⟨rest, hdrop⟩ := h.shows.drop_located hmem
    have hold : trackedRecord d track currPtr = r ++ rest := by
      rw [trackedRecord, Driver.updatedStore, hvol]
      exact hdrop
    have holdlive : isLive (trackedRecord d track currPtr) = true := by
      rw [hold, isLive, state_append rest hr.length_ge]
      exact hrlive
    rcases hlive with ⟨-, rfl, hmerged⟩ | ⟨hdead, -, -⟩
    · obtain ⟨d1, hwrite, hprep⟩ := h.mark hdist ht hname hcurr
      refine ⟨mergedData_ne_nil hmerged (fun _ => Or.inl ?_) hdel, d1, _,
        track.currPtr.map (trackedRecord d1 track), hprep, ?_⟩
      · rw [hold, hr.variableContents_append, ← length_pos_iff, hr.variableContents_length]
        exact (h.wellFormed r (mem_of_mem_located hmem) hrlive).data_pos
      · simp only [execute, executeInstall, hvol, hwrite, EfiStatus.isError, bne_self_eq_false,
          installVariable, hattr, Bool.false_eq_true, if_false]
    · rw [holdlive] at hdead
      cases hdead

end VolInv

theorem installNonVolatile_plan (hcall : VolatileCall P d req ignoreRtCheck)
    (hattr : hasAttribute req.attributes efiVariableNonVolatile = true)
    {mark : Option Nat} {data : Bytes}
    (hplan : plan P d req (trackOf P d req ignoreRtCheck) = .install track mark data) :
    SameVolatile d (execute P d req (.install track mark data)).driver := by
  obtain ⟨hred, -, -⟩ := plan_install P d req hplan
  have hdel := plan_install_not_delete hplan
  have hvol : track.isVolatile = false := by
    rcases redirectHob_cases P d hred with ⟨-, hsome⟩ | ⟨ign, -, htrack⟩
    · rw [hcall.side track hred hsome hdel, hattr]
      rfl
    · rw [htrack, PointerTrack.isVolatile, findVariableIn_type]
      rfl
  cases mark with
  | none =>
      simp only [execute, executeInstall, installVariable, hattr, if_true]
      exact installNonVolatile_sameVolatile P d req _ hvol
  | some currPtr =>
      have hwrite := writeState_sameVolatile P d currPtr varInDeletedTransition
      simp only [execute, executeInstall, installVariable, hattr, if_true, hvol]
      split_ifs
      · exact hwrite
      · exact hwrite.trans (installNonVolatile_sameVolatile P _ req _ hvol)

theorem VolInv.update (h : VolInv P header d rs) (hdist : Distinct P.authFormat rs)
    (hcall : VolatileCall P d req ignoreRtCheck) :
    ∃ rs', VolInv P header (updateVariableBody P d req (trackOf P d req ignoreRtCheck)).driver rs' ∧
      Distinct P.authFormat rs' := by
  rw [updateVariableBody_eq]
  cases hplan : plan P d req (trackOf P d req ignoreRtCheck) with
  | stop status exit => exact ⟨rs, h, hdist⟩
  | delete track currPtr =>
      obtain ⟨hred, hcurr, -⟩ := plan_delete P d req hplan
      simp only [execute]
      rcases redirectHob_cases P d hred with ⟨htrack, -⟩ | ⟨ign, -, htrack⟩
      · have ht : VolTrack rs track := by
          rw [htrack]
          exact h.volTrack hdist req.vendorGuid ignoreRtCheck hcall.name_ne
        obtain ⟨hvol, r, hmem, hlive⟩ := ht.found currPtr hcurr
        obtain ⟨store, hwrite, hinv⟩ := h.writeState hmem hlive (Or.inr rfl)
        simp only [deleteRecords, ht.inTransition, hvol, hwrite]
        exact ⟨_, hinv, hdist.delete h.isRecord h.shows.ne_nil hmem hlive⟩
      · have hvol : track.isVolatile = false := by
          rw [htrack, PointerTrack.isVolatile, findVariableIn_type]
          rfl
        exact ⟨rs, h.of_same (deleteRecords_sameVolatile P d currPtr hvol), hdist⟩
  | install track mark data =>
      cases hattr : hasAttribute req.attributes efiVariableNonVolatile with
      | true => exact ⟨rs, h.of_same (installNonVolatile_plan hcall hattr hplan), hdist⟩
      | false =>
          obtain ⟨hdata, d1, rs1, old, hprep, heq⟩ := h.prepare hdist hcall hattr hplan
          rw [heq]
          exact (hprep.inv.installVolatile hprep.volTrack hcall.name_ne hdata).keeps hprep.inv
            hprep.distinct hprep.volTrack hprep.name

end Update

end Variable
end Udk
