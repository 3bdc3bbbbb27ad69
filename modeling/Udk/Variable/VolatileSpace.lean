import Udk.Variable.VolatileUpdate

/-!
# When a volatile update fails

Three comparisons decide about the space for a volatile record: whether to reclaim, whether
the record fits behind what a reclaim keeps, and whether it may be written in place.  An
update of the volatile store fails for lack of space only exactly when they agree.
-/

namespace Udk
namespace Variable

section Read

variable {P : Platform} {header header' : Bytes} {d d' : Driver} {rs rs' : List Bytes}
  {name : Char16Str}

theorem findVariableEx_boot (authFormat : Bool) (store : Bytes) (name : Char16Str) (guid : Guid)
    (ignoreRtCheck : Bool) :
    findVariableEx authFormat store name guid ignoreRtCheck false =
      findVariableEx authFormat store name guid true false := by
  simp only [findVariableEx, isVisible, Bool.not_false, Bool.or_true, Bool.true_or]

theorem VolInv.lookup (h : VolInv P header d rs) (hboot : d.atRuntime = false)
    (guid : Guid) (ignoreRtCheck : Bool) (hne : name.chars ≠ []) :
    lookupRecords P.authFormat rs (keyOf name guid) =
      (findVariableIn P d name guid ignoreRtCheck .volatile).currPtr.map (fun off =>
        recordValue P.authFormat (d.volatileStore.drop off)) := by
  rw [← h.shows.read h.wellFormed guid hne, readVariable, findVariableIn]
  simp only [Driver.searchedStore, hboot, findVariableEx_boot P.authFormat d.volatileStore name guid
    ignoreRtCheck]

theorem VolInv.found_size (h : VolInv P header d rs) (guid : Guid)
    (ignoreRtCheck : Bool) (hne : name.chars ≠ []) {off : Nat}
    (hfound : (findVariableIn P d name guid ignoreRtCheck .volatile).currPtr = some off) :
    dataSizeOfVariable P.authFormat (d.volatileStore.drop off) =
      (recordValue P.authFormat (d.volatileStore.drop off)).2.length := by
  obtain ⟨r, hmem, -, -⟩ := (h.track guid ignoreRtCheck hne).curr off hfound
  have hr := h.isRecord r (mem_of_mem_located hmem)
  obtain ⟨rest, hdrop⟩ := h.shows.drop_located hmem
  rw [hdrop, recordValue_append rest hr, dataSizeOfVariable_append rest hr.headerSize_le_length,
    recordValue, hr.variableContents_length]

/-- Volatile stores with the same answers are read alike. -/
theorem VolInv.get_congr (h : VolInv P header d rs) (h' : VolInv P header' d' rs')
    (hboot : d.atRuntime = false) (hruntime : d'.atRuntime = d.atRuntime) (hhob : d'.hob = d.hob)
    (hcache : d'.mNvVariableCache = d.mNvVariableCache)
    (hlookup : ∀ key, lookupRecords P.authFormat rs' key = lookupRecords P.authFormat rs key)
    (guid : Guid) (dataSize : Nat) (hne : name.chars ≠ []) :
    variableServiceGetVariable P d' name guid dataSize =
      variableServiceGetVariable P d name guid dataSize := by
  have hboot' : d'.atRuntime = false := hruntime.trans hboot
  have hread := hlookup (keyOf name guid)
  rw [h.lookup hboot guid false hne, h'.lookup hboot' guid false hne] at hread
  have hother : ∀ type, type ≠ .volatile →
      findVariableIn P d' name guid false type = findVariableIn P d name guid false type := by
    intro type htype
    cases type with
    | volatile => exact absurd rfl htype
    | hob => simp only [findVariableIn, Driver.searchedStore, hhob, hruntime]
    | nv => simp only [findVariableIn, Driver.searchedStore, hcache, hruntime]
  have hsearched : ∀ type, type ≠ .volatile → d'.searchedStore type = d.searchedStore type := by
    intro type htype
    cases type with
    | volatile => exact absurd rfl htype
    | hob => exact hhob
    | nv => exact congrArg some hcache
  unfold variableServiceGetVariable findVariable
  dsimp only
  cases hcurr : (findVariableIn P d name guid false .volatile).currPtr with
  | none =>
      rw [hcurr, Option.map_none, Option.map_eq_none_iff] at hread
      rw [hread, hother .hob (by decide), hother .nv (by decide)]
      simp only [Option.isSome_none, Bool.false_eq_true, if_false]
      split_ifs with hhob'
      · rw [findVariableIn_type, hsearched .hob (by decide)]
      · rw [findVariableIn_type, hsearched .nv (by decide)]
  | some off =>
      rw [hcurr, Option.map_some, Option.map_eq_some_iff] at hread
      obtain ⟨off', hcurr', hvalue⟩ := hread
      have hsize := h.found_size guid false hne hcurr
      have hsize' := h'.found_size guid false hne hcurr'
      rw [hvalue, ← hsize] at hsize'
      rw [recordValue, recordValue, Prod.mk.injEq] at hvalue
      simp only [hcurr', Option.isSome_some, if_true, hcurr, findVariableIn_type,
        Driver.searchedStore, Option.getD_some, hsize', hvalue.1, hvalue.2]

end Read

section Space

variable (P : Platform) (d : Driver) (req : UpdateRequest) (ignoreRtCheck : Bool)

/-- The track the update works with. -/
def workTrack : PointerTrack :=
  (redirectHob P d req (trackOf P d req ignoreRtCheck)).getD (trackOf P d req ignoreRtCheck)

/-- `VarSize`. -/
def varSize : Nat :=
  getVariableHeaderSize P.authFormat + req.variableName.strSize + req.data.length

/-- The variable already has the requested data. -/
def setsSameData : Bool :=
  match (workTrack P d req ignoreRtCheck).currPtr with
  | none => false
  | some currPtr => isUnchanged P req (trackedRecord d (workTrack P d req ignoreRtCheck) currPtr)

/-- What a reclaim would keep and the new record. -/
def spaceNeeded : Nat :=
  let track := workTrack P d req ignoreRtCheck
  reclaimedSize P.authFormat (trackedIn true track track.currPtr)
    (trackedIn true track track.inDeletedTransitionPtr)
    (storeRecords P.authFormat d.volatileStore) (varSize P req)

/-- A request that creates or overwrites a volatile variable at boot time and passes the checks
of `SetVariable`. -/
structure SetsVolatile : Prop where
  boot : d.atRuntime = false
  name_ne : req.variableName.chars ≠ []
  attributes : hasAttribute req.attributes efiVariableNonVolatile = false
  access : hasAttribute req.attributes
    (efiVariableRuntimeAccess ||| efiVariableBootserviceAccess) = true
  data_ne : req.data ≠ []
  /-- Authenticated writes are only supported once the FVB protocol is there. -/
  atAw : hasAttribute req.attributes variableAttributeAtAw = true → d.fvbInstance = true
  size : varSize P req < 2 ^ 32
  /-- An existing variable has the attributes of the request and is overwritten. -/
  existing : (workTrack P d req ignoreRtCheck).currPtr.isSome = true →
    (workTrack P d req ignoreRtCheck).isVolatile = true ∧ req.isAppend = false

/-- The update succeeds if there is room for the record after a reclaim, is out of resources
otherwise, and an update that fails changes no answer. -/
structure FailsOnlyForSpace : Prop where
  status : (updateVariable P d req (trackOf P d req ignoreRtCheck)).1 =
    if spaceNeeded P d req ignoreRtCheck ≤ storeSize d.volatileStore then .success
    else .outOfResources
  readback : (updateVariable P d req (trackOf P d req ignoreRtCheck)).1 ≠ .success →
    ∀ name guid dataSize, name.chars ≠ [] →
      variableServiceGetVariable P (updateVariable P d req (trackOf P d req ignoreRtCheck)).2
          name guid dataSize =
        variableServiceGetVariable P d name guid dataSize

/-- The three comparisons agree: nothing is to be done, or the record ends before the end of
the store, or the store is reclaimed, with memory for the buffer if the record fits. -/
def SpaceAgrees : Prop :=
  setsSameData P d req ignoreRtCheck = true ∨
    varSize P req + d.volatileLastVariableOffset < storeSize d.volatileStore ∨
    (storeSize d.volatileStore < (varSize P req + d.volatileLastVariableOffset) % 2 ^ 32 ∧
      (spaceNeeded P d req ignoreRtCheck ≤ storeSize d.volatileStore →
        d.faults.pool.headD false = false))

end Space

section Update

variable {P : Platform} {header : Bytes} {d : Driver} {rs : List Bytes}
variable {req : UpdateRequest} {ignoreRtCheck : Bool}

theorem SetsVolatile.redirect (hset : SetsVolatile P d req ignoreRtCheck) :
    redirectHob P d req (trackOf P d req ignoreRtCheck) =
      some (workTrack P d req ignoreRtCheck) := by
  rw [workTrack]
  cases hred : redirectHob P d req (trackOf P d req ignoreRtCheck) with
  | some track => rfl
  | none =>
      exfalso
      have hattr : (req.attributes == 0) = false := by
        rw [beq_eq_false_iff_ne]
        intro hzero
        have haccess := hset.access
        rw [hzero] at haccess
        simp [hasAttribute] at haccess
      have hdata : req.data.isEmpty = false := by
        rw [List.isEmpty_eq_false_iff]
        exact hset.data_ne
      unfold redirectHob at hred
      simp only [hattr, hdata, Bool.and_false, Bool.or_false, Bool.false_eq_true, if_false] at hred
      split_ifs at hred

theorem SetsVolatile.not_delete (hset : SetsVolatile P d req ignoreRtCheck) :
    req.isDelete = false := by
  have hdata : req.data.isEmpty = false := by
    rw [List.isEmpty_eq_false_iff]
    exact hset.data_ne
  rw [UpdateRequest.isDelete, hdata, hset.access]
  simp

theorem SetsVolatile.call (hset : SetsVolatile P d req ignoreRtCheck) :
    VolatileCall P d req ignoreRtCheck where
  boot := hset.boot
  name_ne := hset.name_ne
  side := by
    intro track hred hsome _
    rw [hset.redirect, Option.some_inj] at hred
    subst hred
    rw [(hset.existing hsome).1, hset.attributes]
    rfl

/-- Such an update has nothing to do, or it installs the data of the request. -/
theorem SetsVolatile.plan_eq (hset : SetsVolatile P d req ignoreRtCheck) :
    (setsSameData P d req ignoreRtCheck = true ∧
        plan P d req (trackOf P d req ignoreRtCheck) = .stop .success .done) ∨
      (setsSameData P d req ignoreRtCheck = false ∧
        ∃ mark, plan P d req (trackOf P d req ignoreRtCheck) =
          .install (workTrack P d req ignoreRtCheck) mark req.data) := by
  have hdata : req.data.isEmpty = false := by
    rw [List.isEmpty_eq_false_iff]
    exact hset.data_ne
  have hfvb : (!d.fvbInstance && (hasAttribute req.attributes efiVariableNonVolatile ||
      hasAttribute req.attributes variableAttributeAtAw)) = false := by
    rw [hset.attributes, Bool.false_or]
    cases hat : hasAttribute req.attributes variableAttributeAtAw with
    | false => rw [Bool.and_false]
    | true => rw [hset.atAw hat]; rfl
  unfold plan
  rw [hfvb, if_neg (by decide), hset.redirect]
  simp only
  unfold setsSameData
  cases hcurr : (workTrack P d req ignoreRtCheck).currPtr with
  | none =>
      right
      refine ⟨rfl, none, ?_⟩
      simp only [planAbsent, hdata, hset.access, hset.boot, Bool.false_and, Bool.false_or,
        Bool.not_true, Bool.false_eq_true, if_false]
  | some currPtr =>
      obtain ⟨_, happ⟩ := hset.existing (by rw [hcurr]; rfl)
      simp only [planExisting, hset.boot, hset.not_delete, Bool.false_and, Bool.false_eq_true,
        if_false]
      cases hsame : isUnchanged P req
          (trackedRecord d (workTrack P d req ignoreRtCheck) currPtr) with
      | true => exact Or.inl ⟨rfl, if_pos rfl⟩
      | false =>
          right
          refine ⟨rfl, ?_⟩
          simp only [mergedData, happ, Bool.false_eq_true, if_false]
          split_ifs
          · exact ⟨_, rfl⟩
          · exact ⟨_, rfl⟩

theorem SetsVolatile.volTrack (hset : SetsVolatile P d req ignoreRtCheck)
    (hsome : (workTrack P d req ignoreRtCheck).currPtr.isSome = true) :
    workTrack P d req ignoreRtCheck =
      findVariableIn P d req.variableName req.vendorGuid ignoreRtCheck .volatile := by
  rcases redirectHob_cases P d hset.redirect with ⟨htrack, -⟩ | ⟨ign, -, htrack⟩
  · exact htrack
  · have hvol := (hset.existing hsome).1
    rw [htrack, PointerTrack.isVolatile, findVariableIn_type] at hvol
    cases hvol

theorem reclaimedSize_le {authFormat : Bool} (updating : Option Nat) (rs : List Bytes)
    (varSize : Nat) :
    reclaimedSize authFormat updating none rs varSize ≤
      storeHeaderSize + rs.flatten.length + headerAlign varSize := by
  have hlen := keptRecords_length authFormat updating (tracksInTransition_none rs)
  unfold reclaimedSize
  omega

theorem reclaimedSize_some {authFormat : Bool} {before after : List Bytes} {r : Bytes}
    (hne : ∀ x ∈ before ++ r :: after, x ≠ []) (varSize : Nat) :
    reclaimedSize authFormat (some (storeHeaderSize + before.flatten.length)) none
        (before ++ r :: after) varSize =
      reclaimedSize authFormat none none (before ++ after) varSize := by
  rw [reclaimedSize, reclaimedSize, keptRecords, keptRecords, remaining_split hne rfl,
    remaining_none]

theorem VolInv.spaceNeeded_eq (h : VolInv P header d rs) {rs' : List Bytes}
    (ht : VolTrack rs' (workTrack P d req ignoreRtCheck)) :
    spaceNeeded P d req ignoreRtCheck =
      reclaimedSize P.authFormat (workTrack P d req ignoreRtCheck).currPtr none rs
        (varSize P req) := by
  rw [spaceNeeded]
  simp only [ht.updating, ht.updatingInTransition, h.storeRecords_eq]

/-- A variable that keeps its data has room for it. -/
theorem VolInv.unchanged_fits (h : VolInv P header d rs) (hdist : Distinct P.authFormat rs)
    (hset : SetsVolatile P d req ignoreRtCheck)
    (hsame : setsSameData P d req ignoreRtCheck = true) :
    spaceNeeded P d req ignoreRtCheck ≤ storeSize header := by
  unfold setsSameData at hsame
  cases hcurr : (workTrack P d req ignoreRtCheck).currPtr with
  | none =>
      rw [hcurr] at hsame
      cases hsame
  | some currPtr =>
      rw [hcurr] at hsame
      dsimp only at hsame
      have htrack := hset.volTrack (by rw [hcurr]; rfl)
      have ht := h.volTrack hdist req.vendorGuid ignoreRtCheck hset.name_ne
      obtain ⟨r, hmem, hlive, hkey⟩ := (h.track req.vendorGuid ignoreRtCheck hset.name_ne).curr
        currPtr (by rw [← htrack]; exact hcurr)
      rw [← htrack] at ht
      have hr := h.isRecord r (mem_of_mem_located hmem)
      obtain ⟨rest, hdrop⟩ := h.shows.drop_located hmem
      have hold : trackedRecord d (workTrack P d req ignoreRtCheck) currPtr = r ++ rest := by
        rw [trackedRecord, Driver.updatedStore, (hset.existing (by rw [hcurr]; rfl)).1]
        exact hdrop
      -- The new record would have the length of the old one.
      have hdata : dataSizeOfVariable P.authFormat r = req.data.length := by
        rw [hold] at hsame
        simp only [isUnchanged, Bool.and_eq_true, beq_iff_eq] at hsame
        rw [← hsame.1.1.1, dataSizeOfVariable_append rest hr.headerSize_le_length]
      have hname : nameSizeOfVariable P.authFormat r = req.variableName.strSize := by
        have hbytes := congrArg Prod.snd hkey
        rw [← hr.variableName_length]
        exact congrArg List.length hbytes
      have hlen : headerAlign (varSize P req) = r.length := by
        rw [varSize, ← hdata, ← hname, ← IsRecord.variableSize_eq, hr.length_eq]
      obtain ⟨hlast, -, -⟩ := h.last_facts
      have hsum := h.last
      have hne := h.shows.ne_nil
      obtain ⟨before, after, rfl, rfl⟩ := mem_located hmem
      rw [h.spaceNeeded_eq ht, hcurr, reclaimedSize_some hne]
      have hle : reclaimedSize P.authFormat none none (before ++ after) (varSize P req) ≤ _ :=
        reclaimedSize_le none (before ++ after) (varSize P req)
      simp only [List.flatten_append, List.flatten_cons, List.length_append] at hle hsum
      omega

end Update

section Exact

variable {P : Platform} {header : Bytes} {d : Driver} {rs : List Bytes}
variable {req : UpdateRequest} {ignoreRtCheck : Bool}

theorem PreparedVolatile.readback {track : PointerTrack} {key : Guid × Bytes} {d1 d' : Driver}
    {rs1 : List Bytes} (h : VolInv P header d rs) (hboot : d.atRuntime = false)
    (hprep : PreparedVolatile P header d rs track key d1 rs1) (hd : d' = d1 ∨ d' = allocated d1)
    {name : Char16Str} (guid : Guid) (dataSize : Nat) (hne : name.chars ≠ []) :
    variableServiceGetVariable P d' name guid dataSize =
      variableServiceGetVariable P d name guid dataSize := by
  have hdriver := hprep.driver
  rcases hd with rfl | rfl
  · exact h.get_congr hprep.inv hboot (by rw [hdriver]) (by rw [hdriver]) (by rw [hdriver])
      hprep.lookup guid dataSize hne
  · have hinv : VolInv P header (allocated d1) rs1 := hprep.inv.congr rfl rfl
    exact h.get_congr hinv hboot (by rw [hdriver]; rfl) (by rw [hdriver]; rfl)
      (by rw [hdriver]; rfl) hprep.lookup guid dataSize hne

theorem updateVariable_done {track : PointerTrack} {status : EfiStatus} {d' : Driver}
    (h : updateVariableBody P d req track = ⟨status, .done, d'⟩) :
    updateVariable P d req track = (status, d') := by
  rw [updateVariable, h]

/-- **When a volatile update fails for lack of space only.** -/
theorem VolInv.failsOnlyForSpace_iff (h : VolInv P header d rs) (hdist : Distinct P.authFormat rs)
    (hset : SetsVolatile P d req ignoreRtCheck) :
    FailsOnlyForSpace P d req ignoreRtCheck ↔ SpaceAgrees P d req ignoreRtCheck := by
  have hsize := h.storeSize_eq.1
  obtain ⟨_, hmod, _⟩ := h.last_facts
  have hsmod := h.size_mod
  have hsum := h.last
  rcases hset.plan_eq with ⟨hsame, hplan⟩ | ⟨hsame, mark, hplan⟩
  · -- Nothing is to be done.
    have hfits := h.unchanged_fits hdist hset hsame
    have hupdate : updateVariable P d req (trackOf P d req ignoreRtCheck) = (.success, d) := by
      rw [updateVariable, updateVariableBody_eq, hplan]
      rfl
    constructor
    · intro _
      exact Or.inl hsame
    · intro _
      refine ⟨?_, ?_⟩
      · rw [hupdate, hsize, if_pos hfits]
      · intro herr
        rw [hupdate] at herr
        exact absurd rfl herr
  · obtain ⟨hdata, d1, rs1, old, hprep, heq⟩ :=
      h.prepare hdist hset.call hset.attributes hplan
    have hdriver := hprep.driver
    have hlast1 : d1.volatileLastVariableOffset = d.volatileLastVariableOffset := by rw [hdriver]
    have hpool1 : d1.faults.pool = d.faults.pool := by rw [hdriver]
    have hvar : (buildVariable P.authFormat req old req.data).length = varSize P req := by
      rw [buildVariable_length, varSize]
    have hneeded : spaceNeeded P d req ignoreRtCheck = reclaimedSize P.authFormat
        (workTrack P d req ignoreRtCheck).currPtr none rs1 (varSize P req) := by
      rw [h.spaceNeeded_eq hprep.volTrack, hprep.reclaimed]
    have hres : VolatileResult P header d1 rs1 (workTrack P d req ignoreRtCheck) req old req.data
        (Variable.installVolatile P d1 (workTrack P d req ignoreRtCheck)
          (buildVariable P.authFormat req old req.data)) :=
      hprep.inv.installVolatile hprep.volTrack hset.name_ne hdata
    have hbody : updateVariableBody P d req (trackOf P d req ignoreRtCheck) =
        Variable.installVolatile P d1 (workTrack P d req ignoreRtCheck)
          (buildVariable P.authFormat req old req.data) := by
      rw [updateVariableBody_eq, hplan, heq]
    generalize Variable.installVolatile P d1 (workTrack P d req ignoreRtCheck)
      (buildVariable P.authFormat req old req.data) = o at hres hbody
    have hread : ∀ d', d' = d1 ∨ d' = allocated d1 → ∀ name guid dataSize, name.chars ≠ [] →
        variableServiceGetVariable P d' name guid dataSize =
          variableServiceGetVariable P d name guid dataSize :=
      fun d' hd name guid dataSize hne => hprep.readback h hset.boot hd guid dataSize hne
    unfold SpaceAgrees
    rw [hsame, hsize, hneeded]
    cases hres with
    | noRoom hreclaim hrefused =>
        -- Out of resources: right unless there is room and only the buffer is missing.
        rw [hvar, hlast1] at hreclaim
        rw [hvar, hpool1] at hrefused
        have hupdate := updateVariable_done hbody
        constructor
        · intro hfails
          refine Or.inr (Or.inr ⟨hreclaim, fun hfit => ?_⟩)
          have hstatus := hfails.status
          rw [hupdate, hsize, hneeded, if_pos hfit] at hstatus
          cases hstatus
        · intro hagrees
          have hfull : ¬reclaimedSize P.authFormat (workTrack P d req ignoreRtCheck).currPtr none
              rs1 (varSize P req) ≤ storeSize header := by
            intro hfit
            have hle := Nat.mod_le (varSize P req + d.volatileLastVariableOffset) (2 ^ 32)
            rcases hagrees with hno | hend | ⟨-, hpool⟩
            · cases hno
            · omega
            · rw [hpool hfit] at hrefused
              rcases hrefused with hno | hfull
              · cases hno
              · omega
          refine ⟨?_, ?_⟩
          · rw [hupdate, hsize, hneeded, if_neg hfull]
          · intro _ name guid dataSize hne
            rw [hupdate]
            exact hread _ (Or.inr rfl) name guid dataSize hne
    | reclaimed d' hreclaim hpool hfit hinv =>
        rw [hvar, hlast1] at hreclaim
        rw [hpool1] at hpool
        rw [hvar] at hfit
        have hupdate := updateVariable_done hbody
        constructor
        · intro _
          exact Or.inr (Or.inr ⟨hreclaim, fun _ => hpool⟩)
        · intro _
          refine ⟨?_, ?_⟩
          · rw [hupdate, hsize, hneeded, if_pos hfit]
          · intro herr
            rw [hupdate] at herr
            exact absurd rfl herr
    | outside hplace hend =>
        -- The gap: neither a reclaim nor a write.
        rw [hvar, hlast1] at hplace hend
        have hupdate := updateVariable_done hbody
        constructor
        · intro hfails
          have hstatus := hfails.status
          rw [hupdate] at hstatus
          split_ifs at hstatus
        · intro hagrees
          exfalso
          rcases hagrees with hno | hroom | ⟨hreclaim, -⟩
          · cases hno
          · omega
          · omega
    | written d' hend hinv =>
        rw [hvar, hlast1] at hend
        have hupdate := updateVariable_done hbody
        have hfit : reclaimedSize P.authFormat (workTrack P d req ignoreRtCheck).currPtr none rs1
            (varSize P req) ≤ storeSize header := by
          have hle : reclaimedSize P.authFormat (workTrack P d req ignoreRtCheck).currPtr none rs1
              (varSize P req) ≤ _ := reclaimedSize_le _ rs1 (varSize P req)
          have hlast' := hprep.inv.last
          unfold headerAlign at hle
          omega
        constructor
        · intro _
          exact Or.inr (Or.inl hend)
        · intro _
          refine ⟨?_, ?_⟩
          · rw [hupdate, hsize, hneeded, if_pos hfit]
          · intro herr
            rw [hupdate] at herr
            exact absurd rfl herr

end Exact

section Run

variable {P : Platform} {header : Bytes} {d d' start : Driver}

/-- Steps of the driver at boot time, as far as the volatile store is concerned. -/
inductive VolatileOp where
  /-- `UpdateVariable` up to its last action. -/
  | update (req : UpdateRequest) (ignoreRtCheck : Bool)
  /-- What leaves the volatile store alone. -/
  | other

inductive VolatileStep (P : Platform) : Driver → VolatileOp → Driver → Prop
  | update (d : Driver) (req : UpdateRequest) (ignoreRtCheck : Bool) :
      VolatileStep P d (.update req ignoreRtCheck)
        (updateVariableBody P d req (trackOf P d req ignoreRtCheck)).driver
  | other (d d' : Driver) (h : SameVolatile d d') : VolatileStep P d .other d'

/-- Every update of the step is one its caller has checked. -/
def VolatileStepOk (P : Platform) (d : Driver) : VolatileOp → Prop
  | .update req ignoreRtCheck => VolatileCall P d req ignoreRtCheck
  | .other => True

/-- The volatile store that `VariableCommonInitialize` formats. -/
structure FormattedVolatile (d : Driver) : Prop where
  store : ∃ signature size, d.volatileStore = storeImage signature size [] ∧
    storeHeaderSize ≤ size ∧ size < 2 ^ 32 ∧ size % 4 = 0
  last : d.volatileLastVariableOffset = getStartPointer

theorem volatile_run {trace : List (Driver × VolatileOp)} (hstart : FormattedVolatile start)
    (hok : ∀ x ∈ trace, VolatileStepOk P x.1 x.2) (hrun : Run (VolatileStep P) start trace d) :
    ∃ header rs, VolInv P header d rs ∧ Distinct P.authFormat rs := by
  obtain ⟨⟨signature, size, hstore, hfit, hsize, hmod⟩, hlast⟩ := hstart
  refine ⟨storeHeader signature size, hrun.invariant
    (I := fun d => ∃ rs, VolInv P (storeHeader signature size) d rs ∧ Distinct P.authFormat rs)
    ?_ hok ⟨[], .start hsize hfit hmod hstore hlast, fun _ => Nat.zero_le 1⟩⟩
  rintro d op d' ⟨rs, hinv, hdist⟩ hok hstep
  cases hstep with
  | update req ignoreRtCheck => exact hinv.update hdist hok
  | other _ hsame => exact ⟨rs, hinv.of_same hsame, hdist⟩

/-- **Volatile updates, in any run.**  At boot time a creation or an overwrite of a volatile
variable fails for lack of space only, and without changing an answer, exactly when the
comparisons of the code agree. -/
theorem volatile_update_iff {trace : List (Driver × VolatileOp)} {req : UpdateRequest}
    {ignoreRtCheck : Bool} (hstart : FormattedVolatile start)
    (hok : ∀ x ∈ trace, VolatileStepOk P x.1 x.2) (hrun : Run (VolatileStep P) start trace d)
    (hset : SetsVolatile P d req ignoreRtCheck) :
    FailsOnlyForSpace P d req ignoreRtCheck ↔ SpaceAgrees P d req ignoreRtCheck := by
  obtain ⟨header, rs, hinv, hdist⟩ := volatile_run hstart hok hrun
  exact hinv.failsOnlyForSpace_iff hdist hset

/-- A request for a record of 72 bytes. -/
def fillingRequest : UpdateRequest :=
  sampleRequest 65 letterA_ne 6 (List.replicate 36 0)

theorem fillingRequest_sets :
    SetsVolatile samplePlatform (sampleDriver []) fillingRequest true where
  boot := rfl
  name_ne := by decide
  attributes := by decide
  access := by decide
  data_ne := by decide
  atAw := by decide
  size := by decide
  existing := by decide +kernel

/-- A formatted store of 100 bytes and its first record. -/
theorem volatile_update_iff_filling :
    FailsOnlyForSpace samplePlatform (sampleDriver []) fillingRequest true ↔
      SpaceAgrees samplePlatform (sampleDriver []) fillingRequest true :=
  @volatile_update_iff samplePlatform (sampleDriver []) (sampleDriver []) [] fillingRequest true
    ⟨⟨sampleGuid, 100, rfl, by decide, by decide, by decide⟩, rfl⟩ (by simp) (.nil _)
    fillingRequest_sets

/-- A record that fills the volatile store to its last byte is refused with
`EFI_INVALID_PARAMETER`. -/
theorem volatile_exact_fit_refused :
    FormattedVolatile (sampleDriver []) ∧
      SetsVolatile samplePlatform (sampleDriver []) fillingRequest true ∧
      spaceNeeded samplePlatform (sampleDriver []) fillingRequest true =
        storeSize (sampleDriver []).volatileStore ∧
      (updateVariable samplePlatform (sampleDriver []) fillingRequest
        (trackOf samplePlatform (sampleDriver []) fillingRequest true)).1 = .invalidParameter ∧
      ¬FailsOnlyForSpace samplePlatform (sampleDriver []) fillingRequest true := by
  have hneeded : spaceNeeded samplePlatform (sampleDriver []) fillingRequest true =
      storeSize (sampleDriver []).volatileStore := by decide +kernel
  have hstatus : (updateVariable samplePlatform (sampleDriver []) fillingRequest
      (trackOf samplePlatform (sampleDriver []) fillingRequest true)).1 = .invalidParameter := by
    decide +kernel
  refine ⟨⟨⟨sampleGuid, 100, rfl, by decide, by decide, by decide⟩, rfl⟩, fillingRequest_sets,
    hneeded, hstatus, ?_⟩
  intro hfails
  have hfit := hfails.status
  rw [hstatus, hneeded, if_pos le_rfl] at hfit
  cases hfit

end Run

end Variable
end Udk
