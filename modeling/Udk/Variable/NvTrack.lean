import Udk.Variable.NvUpdate

/-!
# Tracks that `FindVariable` returns

A track into the non-volatile store is the result of a search of the cache, and the
cache is searched with the same result as flash.  So a track points to records of
the name: to the first added one, or else to the last one in transition.
-/

namespace Udk
namespace Variable

section Redirect

variable (P : Platform) (d : Driver)

/-- The track an update works with comes from the volatile store or from the cache. -/
theorem redirectHob_cases {req : UpdateRequest} {ignoreRtCheck : Bool} {track : PointerTrack}
    (h : redirectHob P d req
      (findVariable P d req.variableName req.vendorGuid ignoreRtCheck) = some track) :
    (track = findVariableIn P d req.variableName req.vendorGuid ignoreRtCheck .volatile ∧
        track.currPtr.isSome = true) ∨
      ∃ ignoreRtCheck', (ignoreRtCheck' = ignoreRtCheck ∨ ignoreRtCheck' = false) ∧
        track = findVariableIn P d req.variableName req.vendorGuid ignoreRtCheck' .nv := by
  have htype : ∀ type, (findVariableIn P d req.variableName req.vendorGuid
      ignoreRtCheck type).type = type := by
    intro type
    unfold findVariableIn
    split <;> rfl
  unfold findVariable at h
  dsimp only at h
  split_ifs at h with hvol hhob
  · -- Found in the volatile store.
    left
    rw [redirectHob, htype] at h
    simp only [hvol, Bool.true_and] at h
    rw [if_neg (by simp)] at h
    cases h
    exact ⟨rfl, hvol⟩
  · -- Found in the HOB: looked up again in the cache, or only deleted.
    right
    have hsome : d.hob.isSome = true := by
      cases hd : d.hob with
      | none => simp [findVariableIn, Driver.searchedStore, hd] at hhob
      | some hob => rfl
    rw [redirectHob, htype] at h
    simp only [hhob, hsome, Bool.true_and, beq_self_eq_true, if_true] at h
    split_ifs at h
    cases h
    exact ⟨false, Or.inr rfl, rfl⟩
  · right
    rw [redirectHob, htype] at h
    rw [if_neg (by simp)] at h
    cases h
    exact ⟨ignoreRtCheck, Or.inl rfl, rfl⟩

theorem findVariableIn_type (name : Char16Str) (guid : Guid) (ignoreRtCheck : Bool)
    (type : StoreType) : (findVariableIn P d name guid ignoreRtCheck type).type = type := by
  unfold findVariableIn
  split <;> rfl

end Redirect

section Found

variable {P : Platform} {d : Driver} {rs : List Bytes}
  {authFormat ignoreRtCheck : Bool} {name : Char16Str} {track : PointerTrack} {req : UpdateRequest} {mark : Option Nat} {data : Bytes}

/-- Records of a key that a search may see. -/
def isSought (authFormat : Bool) (name : Char16Str) (guid : Guid)
    (ignoreRtCheck atRuntime : Bool) (r : Bytes) : Bool :=
  isVisible ignoreRtCheck atRuntime r && decide (recordKey authFormat r = keyOf name guid)

theorem findVariableEx_sought {img : Bytes}
    (h : Shows authFormat img rs) (hwf : WellFormed authFormat rs) (guid : Guid)
    (ignoreRtCheck atRuntime : Bool) (hne : name.chars ≠ []) :
    findVariableEx authFormat img name guid ignoreRtCheck atRuntime =
      let found := VersionLog.scan
        (fun e => isAdded e.2 && isSought authFormat name guid ignoreRtCheck atRuntime e.2)
        (fun e => isInTransition e.2 && isSought authFormat name guid ignoreRtCheck atRuntime e.2)
        (located storeHeaderSize rs) none
      (found.1.map Prod.fst, found.2.map Prod.fst) := by
  have hcand : ∀ e ∈ located storeHeaderSize rs, isLive e.2 = true →
      isCandidate authFormat name guid ignoreRtCheck atRuntime e.2 =
        isSought authFormat name guid ignoreRtCheck atRuntime e.2 := by
    rintro ⟨off, r⟩ hmem hlive
    have hr := mem_of_mem_located hmem
    rw [isCandidate, isSought, nameMatches_eq guid (h.isRecord r hr) (hwf r hr hlive).hasName hne]
  rw [findVariableEx_shows h]
  have hscan := VersionLog.scan_congr
    (fun e : Nat × Bytes => isAdded e.2 &&
      isCandidate authFormat name guid ignoreRtCheck atRuntime e.2)
    (fun e : Nat × Bytes => isInTransition e.2 &&
      isCandidate authFormat name guid ignoreRtCheck atRuntime e.2)
    (fun e => isAdded e.2 && isSought authFormat name guid ignoreRtCheck atRuntime e.2)
    (fun e => isInTransition e.2 && isSought authFormat name guid ignoreRtCheck atRuntime e.2)
    (located storeHeaderSize rs) none
    (fun e he => by
      cases ha : isAdded e.2 with
      | false => rfl
      | true => rw [hcand e he (by rw [isLive_eq, ha]; rfl)])
    (fun e he => by
      cases ht : isInTransition e.2 with
      | false => rfl
      | true => rw [hcand e he (isLive_of_inTransition ht)])
  simp only [hscan]

/-- A track into a store of records and the records it stands for. -/
structure NvTrack (authFormat : Bool) (rs : List Bytes) (key : Guid × Bytes)
    (track : PointerTrack) : Prop where
  curr : ∀ currPtr, track.currPtr = some currPtr →
    ∃ r, (currPtr, r) ∈ located storeHeaderSize rs ∧ isLive r = true ∧
      recordKey authFormat r = key
  inTransition : ∀ ptr, track.inDeletedTransitionPtr = some ptr →
    (∃ r, (ptr, r) ∈ located storeHeaderSize rs ∧ isInTransition r = true ∧
      recordKey authFormat r = key) ∧
    ∃ currPtr r, track.currPtr = some currPtr ∧ (currPtr, r) ∈ located storeHeaderSize rs ∧
      isAdded r = true

theorem NvTrack.of_scan (authFormat : Bool) (rs : List Bytes) (name : Char16Str) (guid : Guid)
    (ignoreRtCheck atRuntime : Bool) (type : StoreType) :
    NvTrack authFormat rs (keyOf name guid)
      (let found := VersionLog.scan
        (fun e => isAdded e.2 && isSought authFormat name guid ignoreRtCheck atRuntime e.2)
        (fun e => isInTransition e.2 && isSought authFormat name guid ignoreRtCheck atRuntime e.2)
        (located storeHeaderSize rs) none
      ⟨found.1.map Prod.fst, found.2.map Prod.fst, type⟩) := by
  constructor
  · intro currPtr hcurr
    rw [Option.map_eq_some_iff] at hcurr
    obtain ⟨⟨off, r⟩, hscan, rfl⟩ := hcurr
    obtain ⟨hmem, hlive⟩ := VersionLog.current_mem _ _ hscan
    refine ⟨r, hmem, ?_, ?_⟩
    · rcases hlive with hl | hl <;>
      · rw [Bool.and_eq_true] at hl
        simp [isLive_eq, hl.1]
    · rcases hlive with hl | hl <;>
      · simp only [isSought, Bool.and_eq_true, decide_eq_true_eq] at hl
        exact hl.2.2
  · intro ptr hptr
    rw [Option.map_eq_some_iff] at hptr
    obtain ⟨⟨off, r⟩, hscan, rfl⟩ := hptr
    constructor
    · rcases VersionLog.scan_snd_mem _ _ hscan with ⟨hmem, htrans⟩ | hnone
      · simp only [isSought, Bool.and_eq_true, decide_eq_true_eq] at htrans
        exact ⟨r, hmem, htrans.1, htrans.2.2⟩
      · cases hnone
    · obtain ⟨⟨off', r'⟩, hmem, hfst, hadded⟩ := VersionLog.scan_snd_added _ _ hscan
      rw [Bool.and_eq_true] at hadded
      exact ⟨off', r', by simp only [hfst, Option.map_some], hmem, hadded.1⟩

theorem NvInv.findVariableIn_eq (h : NvInv P d rs) (guid : Guid)
    (ignoreRtCheck : Bool) (hne : name.chars ≠ []) :
    findVariableIn P d name guid ignoreRtCheck .nv =
      let found := VersionLog.scan
        (fun e => isAdded e.2 &&
          isSought P.authFormat name guid ignoreRtCheck d.atRuntime e.2)
        (fun e => isInTransition e.2 &&
          isSought P.authFormat name guid ignoreRtCheck d.atRuntime e.2)
        (located storeHeaderSize rs) none
      ⟨found.1.map Prod.fst, found.2.map Prod.fst, .nv⟩ := by
  obtain ⟨rsC, hshow, hmirror⟩ := h.cache
  have hfind := findVariableEx_mirror h.flash hshow hmirror name guid ignoreRtCheck d.atRuntime
  have hsought := findVariableEx_sought h.flash h.wellFormed guid ignoreRtCheck d.atRuntime hne
  rw [← hfind] at hsought
  simp only [findVariableIn, Driver.searchedStore, hsought]

theorem NvInv.nvTrack (h : NvInv P d rs) (guid : Guid)
    (ignoreRtCheck : Bool) (hne : name.chars ≠ []) :
    NvTrack P.authFormat rs (keyOf name guid) (findVariableIn P d name guid ignoreRtCheck .nv) := by
  rw [h.findVariableIn_eq guid ignoreRtCheck hne]
  exact .of_scan P.authFormat rs name guid ignoreRtCheck d.atRuntime .nv

theorem NvTrack.trackOk {key : Guid × Bytes}
    (h : NvTrack authFormat rs key track) (hne : ∀ x ∈ rs, x ≠ []) : TrackOk rs track where
  found := by
    intro currPtr hcurr
    obtain ⟨r, hmem, hlive, -⟩ := h.curr currPtr hcurr
    refine ⟨⟨r, hmem, hlive⟩, ?_⟩
    intro ptr hptr
    obtain ⟨⟨rt, hmemt, htrans, -⟩, p, rc, hp, hmemc, hadded⟩ := h.inTransition ptr hptr
    cases hcurr.symm.trans hp
    refine ⟨?_, rt, hmemt, htrans⟩
    rintro rfl
    have hsame := located_unique hne hmemt hmemc
    rw [← hsame, isInTransition_not_added htrans] at hadded
    cases hadded
  absent := by
    intro hnone
    cases hptr : track.inDeletedTransitionPtr with
    | none => rfl
    | some ptr =>
        obtain ⟨-, p, rc, hp, -⟩ := h.inTransition ptr hptr
        rw [hnone] at hp
        cases hp

/-- What `UpdateVariable` may rely on: its caller looked the variable up and does not
append to a volatile variable as a non-volatile one. -/
structure ValidCall (P : Platform) (d : Driver) (req : UpdateRequest) (ignoreRtCheck : Bool) :
    Prop where
  name_ne : req.variableName.chars ≠ []
  append : hasAttribute req.attributes efiVariableNonVolatile = true → req.isAppend = true →
    (findVariable P d req.variableName req.vendorGuid ignoreRtCheck).isVolatile = false

theorem NvInv.nvTrack_of_redirect (h : NvInv P d rs)
    (hne : req.variableName.chars ≠ [])
    (hred : redirectHob P d req
      (findVariable P d req.variableName req.vendorGuid ignoreRtCheck) = some track)
    (hvol : track.isVolatile = false) :
    NvTrack P.authFormat rs (keyOf req.variableName req.vendorGuid) track := by
  rcases redirectHob_cases P d hred with ⟨htrack, -⟩ | ⟨ign, -, htrack⟩
  · rw [htrack, PointerTrack.isVolatile, findVariableIn_type] at hvol
    cases hvol
  · rw [htrack]
    exact h.nvTrack req.vendorGuid ign hne

theorem Shows.drop_located {img : Bytes} (h : Shows authFormat img rs)
    {off : Nat} {r : Bytes} (hmem : (off, r) ∈ located storeHeaderSize rs) :
    ∃ rest, img.drop off = r ++ rest := by
  obtain ⟨header, junk, tail, hlayout, -⟩ := h
  exact hlayout.drop_located (by
    rw [located_append]
    exact List.mem_append_left _ hmem)

theorem NvInv.trackedRecord (h : NvInv P d rs)
    (hvol : track.isVolatile = false) {off : Nat} {r : Bytes}
    (hmem : (off, r) ∈ located storeHeaderSize rs) :
    ∃ rest, Variable.trackedRecord d track off = r ++ rest := by
  rw [Variable.trackedRecord, Driver.updatedStore, hvol]
  exact h.flash.drop_located hmem

/-- No update installs an empty variable in the non-volatile store. -/
theorem NvInv.install_data_ne (h : NvInv P d rs)
    (hvalid : ValidCall P d req ignoreRtCheck)
    (hplan : plan P d req
      (findVariable P d req.variableName req.vendorGuid ignoreRtCheck) = .install track mark data)
    (hattr : hasAttribute req.attributes efiVariableNonVolatile = true) : data ≠ [] := by
  obtain ⟨hred, -, hcases⟩ := plan_install P d req hplan
  have hnotvol : req.isAppend = true → track.isVolatile = false := by
    intro happ
    rcases redirectHob_cases P d hred with ⟨htrack, hsome⟩ | ⟨ign, -, htrack⟩
    · have hnot := hvalid.append hattr happ
      rw [htrack] at hsome
      rw [findVariable] at hnot
      simp only [hsome, if_true] at hnot
      rw [htrack, hnot]
    · rw [htrack, PointerTrack.isVolatile, findVariableIn_type]
      rfl
  rcases hcases with ⟨-, -, rfl, hne, -⟩ | ⟨currPtr, hcurr, hdel, -, hlive⟩
  · exact hne
  · have hrec : track.isVolatile = false →
        isLive (Variable.trackedRecord d track currPtr) = true ∧
          variableContents P.authFormat (Variable.trackedRecord d track currPtr) ≠ [] := by
      intro hvol
      obtain ⟨r, hmem, hl, -⟩ :=
        (h.nvTrack_of_redirect hvalid.name_ne hred hvol).curr currPtr hcurr
      obtain ⟨rest, hdrop⟩ := h.trackedRecord hvol hmem
      have hr := mem_of_mem_located hmem
      have hisrec := h.flash.isRecord r hr
      rw [hdrop, hisrec.variableContents_append, isLive, state_append rest hisrec.length_ge]
      refine ⟨hl, ?_⟩
      rw [← List.length_pos_iff, hisrec.variableContents_length]
      exact (h.wellFormed r hr hl).data_pos
    rcases hlive with ⟨-, -, hmerged⟩ | ⟨hdead, -, rfl⟩
    · exact mergedData_ne_nil hmerged (fun happ => Or.inl (hrec (hnotvol happ)).2) hdel
    · cases happ : req.isAppend with
      | true =>
          rw [(hrec (hnotvol happ)).1] at hdead
          cases hdead
      | false =>
          simp only [UpdateRequest.isDelete, happ, Bool.not_false, Bool.true_and,
            Bool.or_eq_false_iff] at hdel
          simpa using hdel.1

theorem NvInv.update (h : NvInv P d rs) {ignoreRtCheck : Bool}
    (hvalid : ValidCall P d req ignoreRtCheck)
    (hplace : InPlaceRoom P d req
      (findVariable P d req.variableName req.vendorGuid ignoreRtCheck)) :
    BodyResult P d rs req (findVariable P d req.variableName req.vendorGuid ignoreRtCheck)
      (updateVariableBody P d req
        (findVariable P d req.variableName req.vendorGuid ignoreRtCheck)) :=
  h.body
    (fun _ hred hvol =>
      (h.nvTrack_of_redirect hvalid.name_ne hred hvol).trackOk h.flash.ne_nil)
    hplace hvalid.name_ne (fun _ _ _ hplan hattr => h.install_data_ne hvalid hplan hattr)

theorem mergedData_eq {old data : Bytes}
    (h : mergedData P req old = some data) :
    data = if req.isAppend then variableContents P.authFormat old ++ req.data else req.data := by
  rw [mergedData] at h
  cases happ : req.isAppend with
  | true =>
      simp only [happ, if_true] at h
      split_ifs at h <;>
      · cases h
        rfl
  | false =>
      simp only [happ, Bool.false_eq_true, if_false, Option.some.injEq] at h
      simp [← h]

theorem plan_install_not_delete {cacheVariable track : PointerTrack}
    (hplan : plan P d req cacheVariable = .install track mark data) : req.isDelete = false := by
  obtain ⟨-, -, ⟨-, -, -, hne, hattr⟩ | ⟨p, -, hdel, -⟩⟩ := plan_install P d req hplan
  · rw [UpdateRequest.isDelete, hattr, Bool.not_true, Bool.or_false]
    cases hd : req.data with
    | nil => exact absurd hd hne
    | cons b bs => simp
  · exact hdel

/-- An update that sets no record of the non-volatile store in transition installs the
data of the request. -/
theorem NvInv.install_unmarked (h : NvInv P d rs)
    (hvalid : ValidCall P d req ignoreRtCheck)
    (hplan : plan P d req
      (findVariable P d req.variableName req.vendorGuid ignoreRtCheck) = .install track mark data)
    (hattr : hasAttribute req.attributes efiVariableNonVolatile = true)
    (hmark : mark = none ∨ track.isVolatile = true) :
    data = req.data ∧ (track.isVolatile = true ∨ track.currPtr = none) := by
  obtain ⟨hred, -, hcases⟩ := plan_install P d req hplan
  rcases hcases with ⟨hnone, -, rfl, -, -⟩ | ⟨p, hcurr, -, -, hlive⟩
  · exact ⟨rfl, Or.inr hnone⟩
  · cases hvol : track.isVolatile with
    | true =>
        refine ⟨?_, Or.inl rfl⟩
        have happ : req.isAppend = false := by
          cases ha : req.isAppend with
          | false => rfl
          | true =>
              have hnot := hvalid.append hattr ha
              rcases redirectHob_cases P d hred with ⟨htrack, hsome⟩ | ⟨ign, -, htrack⟩
              · rw [htrack] at hsome
                rw [findVariable] at hnot
                simp only [hsome, if_true] at hnot
                rw [htrack, hnot] at hvol
                cases hvol
              · rw [htrack, PointerTrack.isVolatile, findVariableIn_type] at hvol
                cases hvol
        rcases hlive with ⟨-, -, hmerged⟩ | ⟨-, -, hdata⟩
        · rw [mergedData_eq hmerged, happ]
          rfl
        · exact hdata
    | false =>
        exfalso
        obtain ⟨r, hmem, hl, -⟩ :=
          (h.nvTrack_of_redirect hvalid.name_ne hred hvol).curr p hcurr
        obtain ⟨rest, hdrop⟩ := h.trackedRecord hvol hmem
        have hisrec := h.flash.isRecord r (mem_of_mem_located hmem)
        rcases hlive with ⟨-, hsome, -⟩ | ⟨hdead, -, -⟩
        · rcases hmark with hm | hm
          · rw [hsome] at hm
            cases hm
          · rw [hvol] at hm
            cases hm
        · rw [hdrop, isLive, state_append rest hisrec.length_ge] at hdead
          rw [isLive, hdead] at hl
          cases hl

theorem NvInv.install_marked (h : NvInv P d rs)
    (hvalid : ValidCall P d req ignoreRtCheck) {currPtr : Nat}
    (hplan : plan P d req (findVariable P d req.variableName req.vendorGuid ignoreRtCheck) =
      .install track (some currPtr) data)
    (hvol : track.isVolatile = false) :
    track.currPtr = some currPtr ∧ ∃ r, (currPtr, r) ∈ located storeHeaderSize rs ∧
      isLive r = true ∧ recordKey P.authFormat r = keyOf req.variableName req.vendorGuid ∧
      data = if req.isAppend then variableContents P.authFormat r ++ req.data else req.data := by
  obtain ⟨hred, -, hcases⟩ := plan_install P d req hplan
  rcases hcases with ⟨-, hnone, -⟩ | ⟨p, hcurr, -, -, ⟨-, hsome, hmerged⟩ | ⟨-, hnone, -⟩⟩
  · cases hnone
  · cases hsome
    obtain ⟨r, hmem, hl, hkey⟩ :=
      (h.nvTrack_of_redirect hvalid.name_ne hred hvol).curr currPtr hcurr
    obtain ⟨rest, hdrop⟩ := h.trackedRecord hvol hmem
    have hisrec := h.flash.isRecord r (mem_of_mem_located hmem)
    refine ⟨hcurr, r, hmem, hl, hkey, ?_⟩
    rw [mergedData_eq hmerged, hdrop, hisrec.variableContents_append]
  · cases hnone

end Found

end Variable
end Udk
