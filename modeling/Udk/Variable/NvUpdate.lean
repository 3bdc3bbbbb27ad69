import Udk.Variable.NvReclaim
import Udk.Variable.Plan

/-!
# What an update does to the non-volatile store

One inversion lemma for each part of an update: deleting records, installing a
record, and the body as a whole.  They list every way the part can end, with the
records that flash shows then and the flash images in between.
-/

namespace Udk
namespace Variable

/-- Everything but the volatile store agrees. -/
structure SameNv (d d' : Driver) : Prop where
  flash : d'.flash = d.flash
  cache : d'.mNvVariableCache = d.mNvVariableCache
  last : d'.nonVolatileLastVariableOffset = d.nonVolatileLastVariableOffset
  totals : d'.totals = d.totals
  history : d'.history = d.history
  hob : d'.hob = d.hob
  fvbInstance : d'.fvbInstance = d.fvbInstance
  mEndOfDxe : d'.mEndOfDxe = d.mEndOfDxe
  atRuntime : d'.atRuntime = d.atRuntime
  varErrFlag : d'.mCurrentBootVarErrFlag = d.mCurrentBootVarErrFlag
  fvb : d'.faults.fvb = d.faults.fvb
  ftw : d'.faults.ftw = d.faults.ftw

namespace SameNv

variable {d d' d'' : Driver}

theorem refl (d : Driver) : SameNv d d :=
  ⟨rfl, rfl, rfl, rfl, rfl, rfl, rfl, rfl, rfl, rfl, rfl, rfl⟩

theorem trans (h : SameNv d d') (h' : SameNv d' d'') : SameNv d d'' :=
  ⟨h'.flash.trans h.flash, h'.cache.trans h.cache, h'.last.trans h.last,
    h'.totals.trans h.totals, h'.history.trans h.history, h'.hob.trans h.hob,
    h'.fvbInstance.trans h.fvbInstance, h'.mEndOfDxe.trans h.mEndOfDxe,
    h'.atRuntime.trans h.atRuntime, h'.varErrFlag.trans h.varErrFlag, h'.fvb.trans h.fvb,
    h'.ftw.trans h.ftw⟩

end SameNv

theorem NvInv.congr {P : Platform} {d d' : Driver} {rs : List Bytes}
    (h : NvInv P d rs) (hflash : d'.flash = d.flash)
    (hcache : d'.mNvVariableCache = d.mNvVariableCache)
    (hlast : d'.nonVolatileLastVariableOffset = d.nonVolatileLastVariableOffset) :
    NvInv P d' rs where
  flash := by rw [hflash]; exact h.flash
  cache := by rw [hcache]; exact h.cache
  wellFormed := h.wellFormed
  last := by rw [hlast]; exact h.last
  erased := by rw [hflash, hcache, hlast]; exact h.erased
  flash_length := by rw [hflash]; exact h.flash_length
  cache_length := by rw [hcache]; exact h.cache_length

section Volatile

variable (P : Platform)

theorem updateVariableStore_volatile (d : Driver) (offset : Nat) (buffer : Bytes) :
    ∃ status d', updateVariableStore P d true offset buffer = (status, d') ∧ SameNv d d' := by
  simp only [updateVariableStore, if_true]
  split_ifs
  · exact ⟨_, d, rfl, .refl d⟩
  · refine ⟨_, _, rfl, ?_⟩
    exact ⟨rfl, rfl, rfl, rfl, rfl, rfl, rfl, rfl, rfl, rfl, rfl, rfl⟩

theorem writeState_volatile (d : Driver) (ptr : Nat) (mask : UInt8) :
    SameNv d (writeState P d true ptr mask).2 := by
  obtain ⟨status, d', heq, hsame⟩ := updateVariableStore_volatile P d (ptr + 2)
    [state ((d.updatedStore true).drop ptr) &&& mask]
  simp only [writeState, heq, Bool.or_true, if_true]
  exact hsame

theorem deleteRecords_volatile (d : Driver) {track : PointerTrack} (currPtr : Nat)
    (h : track.isVolatile = true) : SameNv d (deleteRecords P d track currPtr).2 := by
  rw [deleteRecords, h]
  cases track.inDeletedTransitionPtr with
  | none => exact writeState_volatile P d currPtr varDeleted
  | some ptr =>
      simp only
      have h1 := writeState_volatile P d ptr varDeleted
      split_ifs
      · exact h1
      · exact h1.trans (writeState_volatile P _ currPtr varDeleted)

theorem reclaimVolatile_sameNv (d : Driver) (updating updatingInTransition : Option Nat)
    (new : Option Bytes) :
    SameNv d (reclaimVolatile P d updating updatingInTransition new).2 := by
  unfold reclaimVolatile
  dsimp only
  split_ifs
  · exact ⟨rfl, rfl, rfl, rfl, rfl, rfl, rfl, rfl, rfl, rfl, rfl, rfl⟩
  · split <;> exact ⟨rfl, rfl, rfl, rfl, rfl, rfl, rfl, rfl, rfl, rfl, rfl, rfl⟩

theorem installVolatile_cases (d : Driver) (track : PointerTrack) (next : Bytes) :
    ∃ d', SameNv d d' ∧
      ((∃ status, installVolatile P d track next = ⟨status, .done, d'⟩) ∨
        installVolatile P d track next = deleteReplaced P d' track true) := by
  unfold installVolatile
  dsimp only
  by_cases h : storeSize d.volatileStore <
      (next.length + d.volatileLastVariableOffset) % 2 ^ 32
  · rw [if_pos h]
    exact ⟨_, reclaimVolatile_sameNv P d _ _ _, Or.inl ⟨_, rfl⟩⟩
  · rw [if_neg h]
    obtain ⟨status, d', heq, hsame⟩ := updateVariableStore_volatile P d
      d.volatileLastVariableOffset (next.set 2 varAdded)
    simp only [heq]
    cases status.isError with
    | true => exact ⟨d', hsame, Or.inl ⟨status, rfl⟩⟩
    | false =>
        refine ⟨_, hsame.trans ?_, Or.inr rfl⟩
        exact ⟨rfl, rfl, rfl, rfl, rfl, rfl, rfl, rfl, rfl, rfl, rfl, rfl⟩

end Volatile

section Delete

variable {P : Platform} {d : Driver} {rs : List Bytes}

/-- The records once those of a track are deleted. -/
def deletedRecords (track : PointerTrack) (currPtr : Nat) (rs : List Bytes) : List Bytes :=
  maskAt currPtr varDeleted
    (match track.inDeletedTransitionPtr with
    | none => rs
    | some ptr => maskAt ptr varDeleted rs)

/-- A live record at the current pointer, and one in transition at the other. -/
structure Tracked (rs : List Bytes) (track : PointerTrack) (currPtr : Nat) : Prop where
  curr : ∃ r, (currPtr, r) ∈ located storeHeaderSize rs ∧ isLive r = true
  inTransition : ∀ ptr, track.inDeletedTransitionPtr = some ptr →
    ptr ≠ currPtr ∧ ∃ r, (ptr, r) ∈ located storeHeaderSize rs ∧ isInTransition r = true

/-- How deleting the records of a track can end. -/
inductive DeleteResult (P : Platform) (d : Driver) (rs : List Bytes) (track : PointerTrack)
    (currPtr : Nat) : EfiStatus → Driver → Prop
  | failed (status : EfiStatus) (d' : Driver) (hstatus : status ≠ .success)
      (hinv : NvInv P d' rs) (hflash : d'.flash = d.flash)
      (himages : NewImages d d' (fun img => Shows P.authFormat img rs)) :
      DeleteResult P d rs track currPtr status d'
  /-- Only the record in transition is deleted. -/
  | half (ptr : Nat) (status : EfiStatus) (d' : Driver) (hstatus : status ≠ .success)
      (htrack : track.inDeletedTransitionPtr = some ptr)
      (hinv : NvInv P d' (maskAt ptr varDeleted rs))
      (himages : NewImages d d' (fun img =>
        Shows P.authFormat img (maskAt ptr varDeleted rs))) :
      DeleteResult P d rs track currPtr status d'
  | done (d' : Driver) (hinv : NvInv P d' (deletedRecords track currPtr rs))
      (hhalf : ∀ ptr, track.inDeletedTransitionPtr = some ptr →
        WellFormed P.authFormat (maskAt ptr varDeleted rs))
      (himages : NewImages d d' (fun img =>
        Shows P.authFormat img (deletedRecords track currPtr rs) ∨
          ∃ ptr, track.inDeletedTransitionPtr = some ptr ∧
            Shows P.authFormat img (maskAt ptr varDeleted rs))) :
      DeleteResult P d rs track currPtr .success d'

theorem isLive_of_inTransition {r : Bytes} (h : isInTransition r = true) : isLive r = true := by
  rw [isLive_eq, h, Bool.or_true]

theorem mem_located_maskAt {authFormat : Bool} {img : Bytes}
    (h : Shows authFormat img rs) {off off' : Nat} {r r' : Bytes} (mask : UInt8)
    (hmem : (off, r) ∈ located storeHeaderSize rs)
    (hmem' : (off', r') ∈ located storeHeaderSize rs) (hoff : off' ≠ off) :
    (off', r') ∈ located storeHeaderSize (maskAt off mask rs) :=
  mem_located_modifyAt h.ne_nil hmem (setState_length _) hmem' hoff

/-- **Deleting the records of a track.** -/
theorem NvInv.deleteRecords (h : NvInv P d rs) {track : PointerTrack} {currPtr : Nat}
    (hvol : track.isVolatile = false) (ht : Tracked rs track currPtr) :
    ∃ status d', deleteRecords P d track currPtr = (status, d') ∧ SameEnv d d' ∧
      SameCounters d d' ∧
      (Erased d.flash d.nonVolatileLastVariableOffset →
        Erased d'.flash d.nonVolatileLastVariableOffset) ∧
      DeleteResult P d rs track currPtr status d' := by
  obtain ⟨r, hmem, hlive⟩ := ht.curr
  rw [Variable.deleteRecords, hvol]
  cases hin : track.inDeletedTransitionPtr with
  | none =>
      have hdel : deletedRecords track currPtr rs = maskAt currPtr varDeleted rs := by
        rw [deletedRecords, hin]
      obtain ⟨status, d', heq, henv, hcount, hcase⟩ := h.mark hmem hlive (Or.inr rfl)
      refine ⟨status, d', heq, henv, hcount, ?_, ?_⟩
      · rcases hcase with ⟨-, -, hflash, -⟩ | ⟨-, -, herased, -⟩
        · rw [hflash]
          exact id
        · exact herased
      · rcases hcase with ⟨herr, hinv, hflash, -, himg⟩ | ⟨rfl, hinv, -, himg⟩
        · exact .failed status d' herr hinv hflash himg
        · rw [← hdel] at hinv himg
          refine .done d' hinv (fun ptr hptr => ?_) (himg.mono (fun _ hs => Or.inl hs))
          rw [hin] at hptr
          cases hptr
  | some ptr =>
      obtain ⟨hne, rt, hmemt, htrans⟩ := ht.inTransition ptr hin
      have hdel : deletedRecords track currPtr rs =
          maskAt currPtr varDeleted (maskAt ptr varDeleted rs) := by
        rw [deletedRecords, hin]
      obtain ⟨status, d1, heq, henv, hcount, hcase⟩ :=
        h.mark hmemt (isLive_of_inTransition htrans) (Or.inr rfl)
      simp only [heq]
      rcases hcase with ⟨herr, hinv, hflash, -, himg⟩ | ⟨rfl, hinv, herased, himg⟩
      · simp only [isError_eq_true.mpr herr, if_true]
        refine ⟨status, d1, rfl, henv, hcount, ?_, .failed status d1 herr hinv hflash himg⟩
        rw [hflash]
        exact id
      · simp only [EfiStatus.isError, bne_self_eq_false, Bool.false_eq_true, if_false]
        have hmem1 := mem_located_maskAt h.flash varDeleted hmemt hmem hne.symm
        obtain ⟨status, d2, heq2, henv2, hcount2, hcase2⟩ :=
          hinv.mark hmem1 hlive (Or.inr rfl)
        refine ⟨status, d2, heq2, henv.trans henv2, hcount.trans hcount2, ?_, ?_⟩
        · intro he
          rcases hcase2 with ⟨-, -, hflash, -⟩ | ⟨-, -, herased2, -⟩
          · rw [hflash]
            exact herased he
          · rw [hcount.last] at herased2
            exact herased2 (herased he)
        · rcases hcase2 with ⟨herr, hinv2, -, -, himg2⟩ | ⟨rfl, hinv2, -, himg2⟩
          · exact .half ptr status d2 herr hin hinv2 (himg.trans himg2)
          · rw [← hdel] at hinv2 himg2
            have hhalf : ∀ p, track.inDeletedTransitionPtr = some p →
                WellFormed P.authFormat (maskAt p varDeleted rs) := by
              intro p hp
              cases hin.symm.trans hp
              exact hinv.wellFormed
            refine .done d2 hinv2 hhalf
              (NewImages.trans ?_ (himg2.mono fun _ hs => Or.inl hs))
            exact himg.mono fun _ hs => Or.inr ⟨ptr, hin, hs⟩

end Delete

section Track

variable {P : Platform} {d : Driver} {rs : List Bytes} {track : PointerTrack}

/-- The track of an update in the non-volatile store points to its records. -/
structure TrackOk (rs : List Bytes) (track : PointerTrack) : Prop where
  found : ∀ currPtr, track.currPtr = some currPtr → Tracked rs track currPtr
  absent : track.currPtr = none → track.inDeletedTransitionPtr = none

theorem TrackOk.tracksInTransition (h : TrackOk rs track)
    (hne : ∀ x ∈ rs, x ≠ []) :
    TracksInTransition rs (trackedIn false track track.inDeletedTransitionPtr) := by
  intro off r hmem heq
  have hin : track.inDeletedTransitionPtr = some off := by
    rw [trackedIn] at heq
    split_ifs at heq
    exact heq
  cases hcurr : track.currPtr with
  | none =>
      rw [h.absent hcurr] at hin
      cases hin
  | some currPtr =>
      obtain ⟨-, r', hmem', htrans⟩ := (h.found currPtr hcurr).inTransition off hin
      rw [located_unique hne hmem hmem']
      exact isInTransition_not_added htrans

theorem Tracked.mask {authFormat : Bool} {img : Bytes} {currPtr : Nat}
    (hshow : Shows authFormat img rs) (h : Tracked rs track currPtr) :
    Tracked (maskAt currPtr varInDeletedTransition rs) track currPtr := by
  obtain ⟨r, hmem, hlive⟩ := h.curr
  refine ⟨⟨maskState varInDeletedTransition r, ?_, ?_⟩, ?_⟩
  · exact mem_located_modifyAt_self hshow.ne_nil hmem
  · have hlen := (hshow.isRecord r (mem_of_mem_located hmem)).length_ge
    rw [masked_live hlive (Or.inl rfl) (by omega)]
    rfl
  · intro ptr hptr
    obtain ⟨hne, rt, hmemt, htrans⟩ := h.inTransition ptr hptr
    exact ⟨hne, rt, mem_located_maskAt hshow _ hmem hmemt hne, htrans⟩

theorem TrackOk.mask {authFormat : Bool} {img : Bytes} {currPtr : Nat}
    (hshow : Shows authFormat img rs) (h : TrackOk rs track)
    (hcurr : track.currPtr = some currPtr) :
    TrackOk (maskAt currPtr varInDeletedTransition rs) track where
  found := by
    intro p hp
    cases hcurr.symm.trans hp
    exact (h.found _ hcurr).mask hshow
  absent := by
    intro hnone
    rw [hcurr] at hnone
    cases hnone

theorem TrackOk.append (h : TrackOk rs track) (new : List Bytes) :
    TrackOk (rs ++ new) track where
  found := by
    intro currPtr hcurr
    obtain ⟨⟨r, hmem, hlive⟩, htrans⟩ := h.found currPtr hcurr
    refine ⟨⟨r, ?_, hlive⟩, ?_⟩
    · rw [located_append]
      exact List.mem_append_left _ hmem
    · intro ptr hptr
      obtain ⟨hne, rt, hmemt, hrt⟩ := htrans ptr hptr
      refine ⟨hne, rt, ?_, hrt⟩
      rw [located_append]
      exact List.mem_append_left _ hmemt
  absent := h.absent

/-- How deleting the replaced records can end. -/
inductive ReplaceResult (P : Platform) (d : Driver) (rs : List Bytes) (track : PointerTrack) :
    Outcome → Prop
  | absent (exit : Exit) (hnone : track.currPtr = none) :
      ReplaceResult P d rs track ⟨.success, exit, d⟩
  | volatile (o : Outcome) (hvol : track.isVolatile = true) (hsame : SameNv d o.driver) :
      ReplaceResult P d rs track o
  | deleted (currPtr : Nat) (status : EfiStatus) (exit : Exit) (d' : Driver)
      (hcurr : track.currPtr = some currPtr) (hvol : track.isVolatile = false)
      (henv : SameEnv d d') (hcounters : SameCounters d d')
      (herased : Erased d.flash d.nonVolatileLastVariableOffset →
        Erased d'.flash d.nonVolatileLastVariableOffset)
      (hdelete : DeleteResult P d rs track currPtr status d') :
      ReplaceResult P d rs track ⟨status, exit, d'⟩

theorem NvInv.deleteReplaced (h : NvInv P d rs)
    (hok : track.isVolatile = false → TrackOk rs track) (intoVolatile : Bool) :
    ReplaceResult P d rs track (Variable.deleteReplaced P d track intoVolatile) := by
  unfold Variable.deleteReplaced
  cases hcurr : track.currPtr with
  | none => exact .absent _ hcurr
  | some currPtr =>
      cases hvol : track.isVolatile with
      | true => exact .volatile _ hvol (deleteRecords_volatile P d currPtr hvol)
      | false =>
          obtain ⟨status, d', heq, henv, hcount, herased, hres⟩ :=
            h.deleteRecords hvol ((hok hvol).found currPtr hcurr)
          simp only [heq]
          exact .deleted currPtr status _ d' hcurr hvol henv hcount herased hres

theorem tracksInTransition_of_trackOk
    (hok : track.isVolatile = false → TrackOk rs track) (hne : ∀ x ∈ rs, x ≠ []) :
    TracksInTransition rs (trackedIn false track track.inDeletedTransitionPtr) := by
  cases hvol : track.isVolatile with
  | true =>
      intro off r _ heq
      rw [trackedIn, hvol] at heq
      cases heq
  | false => exact (hok hvol).tracksInTransition hne

end Track

section Install

variable {P : Platform} {d : Driver} {rs : List Bytes}
variable {req : UpdateRequest} {track : PointerTrack} {old : Option Bytes} {data : Bytes}

theorem setState_padRecord (authFormat : Bool) :
    setState (padRecord (buildVariable authFormat req old data)) varAdded =
      addedRecord authFormat req old data := by
  have hlen : 2 < (buildVariable authFormat req old data).length := by
    have h32 := headerSize_le authFormat
    rw [buildVariable_length]
    omega
  rw [setState, padRecord, List.set_append_left _ _ hlen, addedRecord, writtenRecord, recordPad]

theorem padRecord_length (next : Bytes) : (padRecord next).length = headerAlign next.length := by
  have := le_headerAlign next.length
  rw [padRecord, List.length_append, List.length_replicate]
  omega

theorem overQuota_congr {d' : Driver} (req : UpdateRequest) (next : Bytes)
    (htotals : d'.totals = d.totals) (hdxe : d'.mEndOfDxe = d.mEndOfDxe)
    (hrt : d'.atRuntime = d.atRuntime) : overQuota P d' req next = overQuota P d req next := by
  simp only [Driver.totals, Totals.mk.injEq] at htotals
  simp only [overQuota, overHwErr, overCommon, overRuntime, overUser, isCommonUserVariable,
    isUserVariable, htotals, hdxe, hrt]

/-- How installing a record in the non-volatile store can end. -/
inductive InstallResult (P : Platform) (d : Driver) (rs : List Bytes) (req : UpdateRequest)
    (track : PointerTrack) (old : Option Bytes) (data : Bytes) : Outcome → Prop
  /-- At runtime nothing is reclaimed. -/
  | full (exit : Exit) (hruntime : d.atRuntime = true)
      (hquota : overQuota P d req (buildVariable P.authFormat req old data) = true) :
      InstallResult P d rs req track old data ⟨.outOfResources, exit, d⟩
  | reclaimed (status : EfiStatus) (exit : Exit) (d' : Driver) (hruntime : d.atRuntime = false)
      (hquota : overQuota P d req (buildVariable P.authFormat req old data) = true)
      (henv : SameEnv d d') (hcache : d'.mNvVariableCache = d'.flash)
      (hreclaim : ReclaimResult P d rs (trackedIn false track track.currPtr)
        (trackedIn false track track.inDeletedTransitionPtr)
        (some (padRecord (buildVariable P.authFormat req old data))) status d') :
      InstallResult P d rs req track old data ⟨status, exit, d'⟩
  /-- One of the four steps fails. -/
  | unwritten (status : EfiStatus) (d' : Driver) (hstatus : status ≠ .success)
      (hquota : overQuota P d req (buildVariable P.authFormat req old data) = false)
      (henv : SameEnv d d') (hinv : NvInv P d' rs) (hcounters : SameCounters d d')
      (himages : NewImages d d' (fun img => Shows P.authFormat img rs))
      (hrefused : d.faults.fvb = [] → P.headerLength + d.nonVolatileLastVariableOffset +
        (buildVariable P.authFormat req old data).length < P.fvLength → d'.flash = d.flash) :
      InstallResult P d rs req track old data ⟨status, .done, d'⟩
  /-- The record is in place; those it replaces are deleted then. -/
  | written (d' : Driver)
      (hquota : overQuota P d req (buildVariable P.authFormat req old data) = false)
      (henv : SameEnv d d')
      (hinv : NvInv P d' (rs ++ [addedRecord P.authFormat req old data]))
      (herased : Erased d'.flash d'.nonVolatileLastVariableOffset)
      (htotals : d'.totals = totalsWith d
        (headerAlign (buildVariable P.authFormat req old data).length) req.isHwErr
        (isCommonUserVariable P d req (buildVariable P.authFormat req old data)))
      (himages : NewImages d d' (fun img => Shows P.authFormat img rs ∨
        Shows P.authFormat img (rs ++ [addedRecord P.authFormat req old data])))
      (o : Outcome)
      (hreplace : ReplaceResult P d' (rs ++ [addedRecord P.authFormat req old data]) track o) :
      InstallResult P d rs req track old data o

/-- **Installing a record in the non-volatile store.** -/
theorem NvInv.installNonVolatile (h : NvInv P d rs)
    (hok : track.isVolatile = false → TrackOk rs track)
    (hplace : overQuota P d req (buildVariable P.authFormat req old data) = false →
      Erased d.flash d.nonVolatileLastVariableOffset ∧
        d.nonVolatileLastVariableOffset +
          headerAlign (buildVariable P.authFormat req old data).length ≤ P.storeLength)
    (hname : req.variableName.chars ≠ []) (hdata : data ≠ []) :
    InstallResult P d rs req track old data
      (installNonVolatile P d req track (buildVariable P.authFormat req old data)) := by
  have hlt := h.storeLength_lt
  rw [Variable.installNonVolatile]
  cases hquota : overQuota P d req (buildVariable P.authFormat req old data) with
  | true =>
      rw [if_pos rfl]
      cases hrt : d.atRuntime with
      | true =>
          rw [if_pos rfl]
          exact .full _ hrt hquota
      | false =>
          rw [if_neg (by decide)]
          have hnew : ∀ n, some (padRecord (buildVariable P.authFormat req old data)) = some n →
              n.length ≤ P.storeLength → NewRecord P.authFormat n := by
            intro n hn hlen
            cases hn
            rw [padRecord_length] at hlen
            have hle := le_headerAlign (buildVariable P.authFormat req old data).length
            have hsize : (buildVariable P.authFormat req old data).length < 2 ^ 32 := by omega
            exact ⟨by rw [setState_padRecord]; exact addedRecord_isRecord _ hsize,
              by rw [setState_padRecord]; exact liveRecord_addedRecord hsize hname hdata⟩
          obtain ⟨status, d', heq, henv, hcache, hres⟩ :=
            h.reclaim (trackedIn false track track.currPtr)
              (tracksInTransition_of_trackOk hok h.flash.ne_nil) hnew
          simp only [heq]
          cases status.isError with
          | true | false => exact .reclaimed status _ d' hrt hquota henv hcache hres
  | false =>
      rw [if_neg (by decide)]
      obtain ⟨herased, hfit⟩ := hplace hquota
      obtain ⟨status, d', heq, henv, hres⟩ := h.writeRecord herased hfit hname hdata req.isHwErr
        (isCommonUserVariable P d req (buildVariable P.authFormat req old data))
      simp only [heq]
      rcases hres with ⟨herr, hinv, hcount, -, himg, href⟩ | ⟨rfl, hinv, her, -, htot, himg⟩
      · simp only [isError_eq_true.mpr herr, if_true]
        exact .unwritten status d' herr hquota henv hinv hcount himg href
      · simp only [EfiStatus.isError, bne_self_eq_false, Bool.false_eq_true, if_false]
        exact .written d' hquota henv hinv her htot himg _
          (hinv.deleteReplaced (fun hvol => (hok hvol).append _) false)

end Install

section Body

variable {P : Platform} {d : Driver} {rs : List Bytes}
variable {req : UpdateRequest} {cacheVariable : PointerTrack}

/-- The state in which a new record is installed. -/
inductive Prepared (P : Platform) (d : Driver) (rs : List Bytes) (track : PointerTrack) :
    Option Nat → Driver → List Bytes → Prop
  | same (mark : Option Nat) (d' : Driver) (hsame : SameNv d d')
      (hmark : mark = none ∨ track.isVolatile = true) : Prepared P d rs track mark d' rs
  | marked (currPtr : Nat) (d' : Driver) (hvol : track.isVolatile = false)
      (henv : SameEnv d d') (hcounters : SameCounters d d')
      (hinv : NvInv P d' (maskAt currPtr varInDeletedTransition rs))
      (herased : Erased d.flash d.nonVolatileLastVariableOffset →
        Erased d'.flash d.nonVolatileLastVariableOffset)
      (himages : NewImages d d' (fun img =>
        Shows P.authFormat img (maskAt currPtr varInDeletedTransition rs))) :
      Prepared P d rs track (some currPtr) d' (maskAt currPtr varInDeletedTransition rs)

/-- How the body of an update can end, for the non-volatile store. -/
inductive BodyResult (P : Platform) (d : Driver) (rs : List Bytes) (req : UpdateRequest)
    (cacheVariable : PointerTrack) : Outcome → Prop
  | stopped (status : EfiStatus) (exit : Exit)
      (hplan : plan P d req cacheVariable = .stop status exit) :
      BodyResult P d rs req cacheVariable ⟨status, exit, d⟩
  | deletedVolatile (track : PointerTrack) (currPtr : Nat) (o : Outcome)
      (hplan : plan P d req cacheVariable = .delete track currPtr)
      (hvol : track.isVolatile = true) (hsame : SameNv d o.driver) :
      BodyResult P d rs req cacheVariable o
  | deleted (track : PointerTrack) (currPtr : Nat) (status : EfiStatus) (exit : Exit) (d' : Driver)
      (hplan : plan P d req cacheVariable = .delete track currPtr)
      (hvol : track.isVolatile = false) (henv : SameEnv d d') (hcounters : SameCounters d d')
      (herased : Erased d.flash d.nonVolatileLastVariableOffset →
        Erased d'.flash d.nonVolatileLastVariableOffset)
      (hdelete : DeleteResult P d rs track currPtr status d') :
      BodyResult P d rs req cacheVariable ⟨status, exit, d'⟩
  /-- The old record cannot be set in transition. -/
  | unmarked (track : PointerTrack) (currPtr : Nat) (data : Bytes) (status : EfiStatus)
      (d' : Driver) (hplan : plan P d req cacheVariable = .install track (some currPtr) data)
      (hstatus : status ≠ .success) (hinv : NvInv P d' rs) (hcounters : SameCounters d d')
      (hflash : d'.flash = d.flash)
      (hfvb : d.faults.fvb = [] → d'.faults.fvb = []) (hftw : d.faults.ftw = [] → d'.faults.ftw = [])
      (himages : NewImages d d' (fun img => Shows P.authFormat img rs)) :
      BodyResult P d rs req cacheVariable ⟨status, .done, d'⟩
  | installedVolatile (track : PointerTrack) (mark : Option Nat) (data : Bytes) (d1 d2 : Driver)
      (rs1 : List Bytes) (o : Outcome)
      (hplan : plan P d req cacheVariable = .install track mark data)
      (hattr : hasAttribute req.attributes efiVariableNonVolatile = false)
      (hprepared : Prepared P d rs track mark d1 rs1) (hsame : SameNv d1 d2)
      (ho : (∃ status, o = ⟨status, .done, d2⟩) ∨ ReplaceResult P d2 rs1 track o) :
      BodyResult P d rs req cacheVariable o
  | installed (track : PointerTrack) (mark : Option Nat) (data : Bytes) (d1 : Driver)
      (rs1 : List Bytes) (o : Outcome)
      (hplan : plan P d req cacheVariable = .install track mark data)
      (hattr : hasAttribute req.attributes efiVariableNonVolatile = true)
      (hprepared : Prepared P d rs track mark d1 rs1)
      (hinstall : InstallResult P d1 rs1 req track (track.currPtr.map (trackedRecord d1 track))
        data o) :
      BodyResult P d rs req cacheVariable o

/-- An in-place record write of the update starts on an erased area and ends in the store. -/
def InPlaceRoom (P : Platform) (d : Driver) (req : UpdateRequest)
    (cacheVariable : PointerTrack) : Prop :=
  ∀ track mark data old, plan P d req cacheVariable = .install track mark data →
    hasAttribute req.attributes efiVariableNonVolatile = true →
    overQuota P d req (buildVariable P.authFormat req old data) = false →
    Erased d.flash d.nonVolatileLastVariableOffset ∧
      d.nonVolatileLastVariableOffset +
        headerAlign (buildVariable P.authFormat req old data).length ≤ P.storeLength

theorem Prepared.facts {track : PointerTrack} {mark : Option Nat} {d1 : Driver} {rs1 : List Bytes}
    (h : NvInv P d rs) (hprep : Prepared P d rs track mark d1 rs1) :
    NvInv P d1 rs1 ∧ d1.totals = d.totals ∧ d1.mEndOfDxe = d.mEndOfDxe ∧
      d1.atRuntime = d.atRuntime ∧
      d1.nonVolatileLastVariableOffset = d.nonVolatileLastVariableOffset ∧
      (Erased d.flash d.nonVolatileLastVariableOffset →
        Erased d1.flash d1.nonVolatileLastVariableOffset) := by
  cases hprep with
  | same _ _ hsame _ =>
      refine ⟨h.congr hsame.flash hsame.cache hsame.last, hsame.totals, hsame.mEndOfDxe,
        hsame.atRuntime, hsame.last, ?_⟩
      rw [hsame.flash, hsame.last]
      exact id
  | marked currPtr _ hvol henv hcounters hinv herased himages =>
      refine ⟨hinv, hcounters.totals, henv.mEndOfDxe, henv.atRuntime, hcounters.last, ?_⟩
      rw [hcounters.last]
      exact herased

theorem NvInv.installVariable (h : NvInv P d rs) {track : PointerTrack} {mark : Option Nat}
    {data : Bytes} {d1 : Driver} {rs1 : List Bytes}
    (hplan : plan P d req cacheVariable = .install track mark data)
    (hprep : Prepared P d rs track mark d1 rs1)
    (hok : track.isVolatile = false → TrackOk rs1 track)
    (hplace : InPlaceRoom P d req cacheVariable) (hname : req.variableName.chars ≠ [])
    (hdata : hasAttribute req.attributes efiVariableNonVolatile = true → data ≠ []) :
    BodyResult P d rs req cacheVariable (Variable.installVariable P d1 req track data) := by
  obtain ⟨hinv, htotals, hdxe, hrt, hlast, herased⟩ := hprep.facts h
  unfold Variable.installVariable
  dsimp only
  cases hattr : hasAttribute req.attributes efiVariableNonVolatile with
  | true =>
      rw [if_pos rfl]
      refine .installed track mark data d1 rs1 _ hplan hattr hprep ?_
      refine hinv.installNonVolatile hok ?_ hname (hdata hattr)
      intro hquota
      rw [overQuota_congr req _ htotals hdxe hrt] at hquota
      obtain ⟨her, hfit⟩ := hplace _ _ _ _ hplan hattr hquota
      exact ⟨herased her, by rw [hlast]; exact hfit⟩
  | false =>
      rw [if_neg (by decide)]
      obtain ⟨d2, hsame, ho⟩ := installVolatile_cases P d1 track
        (buildVariable P.authFormat req (track.currPtr.map (trackedRecord d1 track)) data)
      refine .installedVolatile track mark data d1 d2 rs1 _ hplan hattr hprep hsame ?_
      rcases ho with hstatus | heq
      · exact Or.inl hstatus
      · rw [heq]
        exact Or.inr ((hinv.congr hsame.flash hsame.cache hsame.last).deleteReplaced hok true)

/-- **The body of an update, for the non-volatile store.** -/
theorem NvInv.body (h : NvInv P d rs)
    (htrack : ∀ track, redirectHob P d req cacheVariable = some track →
      track.isVolatile = false → TrackOk rs track)
    (hplace : InPlaceRoom P d req cacheVariable) (hname : req.variableName.chars ≠ [])
    (hdata : ∀ track mark data, plan P d req cacheVariable = .install track mark data →
      hasAttribute req.attributes efiVariableNonVolatile = true → data ≠ []) :
    BodyResult P d rs req cacheVariable (updateVariableBody P d req cacheVariable) := by
  rw [updateVariableBody_eq]
  cases hplan : plan P d req cacheVariable with
  | stop status exit => exact .stopped status exit hplan
  | delete track currPtr =>
      obtain ⟨hred, hcurr, -⟩ := plan_delete P d req hplan
      rw [execute]
      cases hvol : track.isVolatile with
      | true =>
          exact .deletedVolatile track currPtr _ hplan hvol
            (deleteRecords_volatile P d currPtr hvol)
      | false =>
          obtain ⟨status, d', heq, henv, hcount, herased, hres⟩ :=
            h.deleteRecords hvol ((htrack track hred hvol).found currPtr hcurr)
          simp only [heq]
          exact .deleted track currPtr status _ d' hplan hvol henv hcount herased hres
  | install track mark data =>
      obtain ⟨hred, -, hcases⟩ := plan_install P d req hplan
      have hmark := plan_install_mark P d req hplan
      have hok := htrack track hred
      show BodyResult P d rs req cacheVariable (executeInstall P d req track mark data)
      unfold executeInstall
      cases mark with
      | none =>
          exact h.installVariable hplan (.same none d (.refl d) (Or.inl rfl)) hok hplace hname
            (hdata _ _ _ hplan)
      | some currPtr =>
          simp only
          cases hvol : track.isVolatile with
          | true =>
              have hsame := writeState_volatile P d currPtr varInDeletedTransition
              obtain ⟨status, d1, heq⟩ : ∃ status d1,
                writeState P d true currPtr varInDeletedTransition = (status, d1) := ⟨_, _, rfl⟩
              rw [heq] at hsame ⊢
              simp only
              cases herr : status.isError with
              | true =>
                  rw [if_pos rfl]
                  refine .unmarked track currPtr data status d1 hplan (isError_eq_true.mp herr)
                    (h.congr hsame.flash hsame.cache hsame.last) ⟨hsame.totals, hsame.last⟩
                    hsame.flash ?_ ?_ ?_
                  · rw [hsame.fvb]
                    exact id
                  · rw [hsame.ftw]
                    exact id
                  · exact .of_eq hsame.history _
              | false =>
                  rw [if_neg (by decide)]
                  exact h.installVariable hplan (.same _ d1 hsame (Or.inr hvol)) hok hplace
                    hname (hdata _ _ _ hplan)
          | false =>
              have hcurr := hmark currPtr rfl
              obtain ⟨r, hmem, hlive⟩ := ((hok hvol).found currPtr hcurr).curr
              obtain ⟨status, d1, heq, henv, hcount, hres⟩ := h.mark hmem hlive (Or.inl rfl)
              rw [heq]
              simp only
              rcases hres with ⟨herr, hinv, hflash, -, himg⟩ | ⟨rfl, hinv, herased, himg⟩
              · rw [if_pos (isError_eq_true.mpr herr)]
                exact .unmarked track currPtr data status d1 hplan herr hinv hcount hflash
                  henv.fvb henv.ftw himg
              · rw [if_neg (by decide)]
                exact h.installVariable hplan (.marked currPtr d1 hvol henv hcount hinv herased himg)
                  (fun hv => (hok hv).mask h.flash hcurr) hplace hname
                  (hdata _ _ _ hplan)

theorem mergedData_ne_nil {old data : Bytes} (h : mergedData P req old = some data)
    (hold : req.isAppend = true → variableContents P.authFormat old ≠ [] ∨ req.data ≠ [])
    (hdel : req.isDelete = false) : data ≠ [] := by
  rw [mergedData] at h
  cases happ : req.isAppend with
  | true =>
      simp only [happ, if_true] at h
      split_ifs at h <;>
      · cases h
        rcases hold happ with hold | hold <;> simp [hold]
  | false =>
      simp only [happ, Bool.false_eq_true, if_false, Option.some.injEq] at h
      rw [← h]
      simp only [UpdateRequest.isDelete, happ, Bool.not_false, Bool.true_and,
        Bool.or_eq_false_iff] at hdel
      simpa using hdel.1

end Body

end Variable
end Udk
