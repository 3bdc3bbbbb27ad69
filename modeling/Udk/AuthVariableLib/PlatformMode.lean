import Udk.AuthVariableLib.Moves
import Udk.Runs

/-!
# The platform mode and the platform key

`mPlatformMode` follows `PK` as long as the places that decide whether a request
deletes `PK` agree: `ProcessVarWithPk` by the size of the payload,
`VerifyTimeBasedPayloadAndUpdate` by size and append attribute, `UpdateVariable` by
these and the access attributes.
-/

namespace Udk
namespace AuthVariableLib

open Variable

/-- The records of `PK`. -/
def pkRecords (s : AuthState) : List AuthVariable :=
  recordsOf s efiPlatformKeyName efiGlobalVariableGuid

/-- `PK` is stored at most once, and the platform is in user mode while it is. -/
structure ModeTracksPk (s : AuthState) : Prop where
  once : (pkRecords s).length ≤ 1
  tracks : s.mPlatformMode = .userMode ↔ pkRecords s ≠ []

section Update

variable {P : Platform} {env : Environment} {s : AuthState} {req : UpdateRequest}

theorem update_error_vars
    (henv : ∀ events, env.storeOutcome events = .done)
    (h : (variableExLibUpdateVariable P env s req).1.isError = true) :
    (variableExLibUpdateVariable P env s req).2.vars = s.vars :=
  update_error_kept (fun error hlate => by
    rw [henv] at hlate
    cases hlate) h

theorem update_success_of_boot
    (henv : ∀ events, env.storeOutcome events = .done) (hboot : s.atRuntime = false)
    (hdata : req.data.isEmpty = false) (happend : req.isAppend = false)
    (haccess : hasAttribute req.attributes
      (efiVariableRuntimeAccess ||| efiVariableBootserviceAccess) = true) :
    (variableExLibUpdateVariable P env s req).1 = .success := by
  have hdelete : req.isDelete = false := by
    simp [UpdateRequest.isDelete, hdata, haccess]
  have hdecision : updateDecision P s req = .keep .success ∨
      ∃ v, updateDecision P s req = .install v := by
    unfold updateDecision
    split
    · rename_i old _
      simp only [updateExisting, hboot, hdelete, happend, Bool.false_and, Bool.false_eq_true,
        if_false]
      split_ifs
      · exact Or.inl rfl
      · exact Or.inr ⟨_, rfl⟩
    · simp only [updateAbsent, hboot, hdata, haccess, Bool.false_and, Bool.not_true,
        Bool.false_or, Bool.false_eq_true, if_false]
      exact Or.inr ⟨_, rfl⟩
  unfold variableExLibUpdateVariable
  rcases hdecision with h | ⟨v, h⟩
  · rw [h]
  · rw [h]
    exact (store_done s henv _ _ _).1

end Update

section Request

variable {P : Platform} {env : Environment} {s : AuthState}
  {status : EfiStatus} {del : Bool} {attributes : UInt32} {s' : AuthState}

/-- `UpdateVariable` and the two functions above it decide alike whether a request with
this payload deletes `PK`. -/
def deletionAgrees (env : Environment) (s : AuthState) (attributes : UInt32) (payload : Bytes) :
    Bool :=
  let append := hasAttribute attributes efiVariableAppendWrite
  let deletes := (!append && payload.isEmpty) ||
    !hasAttribute attributes (efiVariableRuntimeAccess ||| efiVariableBootserviceAccess)
  match s.mPlatformMode with
  | .userMode =>
      (if isCustom env s then payload.isEmpty else payload.isEmpty && !append) == deletes
  | .setupMode => isCustom env s || !(payload.isEmpty && append)

/-- A request for `PK` after which the mode follows: `SetupMode` can be found, custom mode
is not in force at runtime, and the deletion decisions agree. -/
structure ModeFollows (env : Environment) (s : AuthState) (data : Bytes) (attributes : UInt32) :
    Prop where
  setupMode_found :
    (variableExLibFindVariable s efiSetupModeName efiGlobalVariableGuid).isSome
  custom_boot : isCustom env s = true → s.atRuntime = false
  deletion : ∀ auth, readAuthentication2 data = some auth →
    deletionAgrees env s attributes auth.payload = true

/-- The updates the library makes of its internal variables. -/
def isInternal (req : UpdateRequest) : Prop :=
  (req.variableName = efiCertDbName ∧ req.vendorGuid = efiCertDbGuid) ∨
    (req.variableName = efiVendorKeysNvVariableName ∧ req.vendorGuid = efiVendorKeysNvGuid) ∨
    (req.variableName = efiVendorKeysVariableName ∧ req.vendorGuid = efiGlobalVariableGuid)

/-- Update internal variables only. -/
abbrev internalOnly : Permits :=
  ⟨isInternal, False, False⟩

theorem allowsInternal_isInternal :
    AllowsInternal internalOnly where
  certDb := fun _ => Or.inl ⟨rfl, rfl⟩
  vendorKeysNv := fun _ => Or.inr (Or.inl ⟨rfl, rfl⟩)
  vendorKeys := fun _ => Or.inr (Or.inr ⟨rfl, rfl⟩)

theorem isInternal_ne_pk
    (req : UpdateRequest) (h : isInternal req) :
    ¬(efiPlatformKeyName = req.variableName ∧ efiGlobalVariableGuid = req.vendorGuid) := by
  rcases h with ⟨hn, hg⟩ | ⟨hn, hg⟩ | ⟨hn, hg⟩ <;> rw [hn, hg] <;> decide

theorem isInternal_ne_setupMode
    (req : UpdateRequest) (h : isInternal req) :
    ¬(efiSetupModeName = req.variableName ∧ efiGlobalVariableGuid = req.vendorGuid) := by
  rcases h with ⟨hn, hg⟩ | ⟨hn, hg⟩ | ⟨hn, hg⟩ <;> rw [hn, hg] <;> decide

theorem vendorKeyIsModified_success
    (henv : ∀ events, env.storeOutcome events = .done) (hboot : s.atRuntime = false) :
    (vendorKeyIsModified P env s).1 = .success := by
  unfold vendorKeyIsModified authServiceInternalUpdateVariable
  split
  · rfl
  · have hnv : (variableExLibUpdateVariable P env
        { s with mVendorKeyState := vendorKeysModified }
        (plainRequest efiVendorKeysNvVariableName efiVendorKeysNvGuid [vendorKeysModified]
          (variableAttributeNvBs ||| efiVariableTimeBasedAuthenticatedWriteAccess))).1 = .success :=
      update_success_of_boot henv hboot rfl (by decide) (by decide)
    dsimp only
    rw [hnv]
    exact update_success_of_boot henv (by rw [update_atRuntime]; exact hboot) rfl (by decide)
      (by decide)

/-- The request that writes a time-based `PK`. -/
def pkRequest (payload : Bytes) (attributes : UInt32) (time : EfiTime) : UpdateRequest :=
  ⟨efiPlatformKeyName, efiGlobalVariableGuid, payload, attributes, 0, 0, some time⟩

theorem updateVariableWithTimeStamp_pk
    (payload : Bytes) (attributes : UInt32) (time : EfiTime) :
    authServiceInternalUpdateVariableWithTimeStamp P env s efiPlatformKeyName
        efiGlobalVariableGuid payload attributes time =
      some (variableExLibUpdateVariable P env s (pkRequest payload attributes time)) := by
  have hdb : isImageSecurityDatabase efiPlatformKeyName efiGlobalVariableGuid = false := by decide
  have hkek : isKeyExchangeKey efiPlatformKeyName efiGlobalVariableGuid = false := by decide
  unfold authServiceInternalUpdateVariableWithTimeStamp
  rw [hdb, hkek]
  cases variableExLibFindVariable s efiPlatformKeyName efiGlobalVariableGuid with
  | none => rfl
  | some org => simp [pkRequest]

/-- What the first part of `ProcessVarWithPk` does to `PK`. -/
structure PkUpdated (s : AuthState) (status : EfiStatus) (del : Bool) (s' : AuthState) :
    Prop where
  mode : s'.mPlatformMode = s.mPlatformMode
  atRuntime : s'.atRuntime = s.atRuntime
  setupMode : recordsOf s' efiSetupModeName efiGlobalVariableGuid =
    recordsOf s efiSetupModeName efiGlobalVariableGuid
  once : (pkRecords s').length ≤ 1
  kept : status.isError = true → pkRecords s' = pkRecords s
  deleted : status.isError = false → (pkRecords s' = [] ↔ del = true)

theorem PkUpdated.stay
    (hinv : ModeTracksPk s)
    (h : status.isError = true) :
    PkUpdated s status del s where
  mode := rfl
  atRuntime := rfl
  setupMode := rfl
  once := hinv.once
  kept := fun _ => rfl
  deleted := fun hok => absurd hok (by rw [h]; decide)

theorem internalOnly_pkRecords
    {s1 s2 : AuthState} (hmoves : Moves P env internalOnly s1 s2) :
    pkRecords s2 = pkRecords s1 :=
  hmoves.recordsOf_eq isInternal_ne_pk (Or.inl not_false)

theorem PkUpdated.moves_left
    {s1 s2 : AuthState}
    (hmoves : Moves P env internalOnly s s1) (h : PkUpdated s1 status del s2) :
    PkUpdated s status del s2 where
  mode := h.mode.trans (hmoves.mPlatformMode_eq not_false)
  atRuntime := h.atRuntime.trans hmoves.atRuntime_eq
  setupMode := h.setupMode.trans (hmoves.recordsOf_eq isInternal_ne_setupMode (Or.inl not_false))
  once := h.once
  kept := fun herror => (h.kept herror).trans (internalOnly_pkRecords hmoves)
  deleted := h.deleted

theorem PkUpdated.moves_right
    {s1 s2 : AuthState}
    (h : PkUpdated s .success del s1) (hmoves : Moves P env internalOnly s1 s2) :
    PkUpdated s .success del s2 where
  mode := (hmoves.mPlatformMode_eq not_false).trans h.mode
  atRuntime := hmoves.atRuntime_eq.trans h.atRuntime
  setupMode := (hmoves.recordsOf_eq isInternal_ne_setupMode (Or.inl not_false)).trans h.setupMode
  once := by
    rw [internalOnly_pkRecords hmoves]
    exact h.once
  kept := fun herror => absurd herror (by decide)
  deleted := fun hok => by
    rw [internalOnly_pkRecords hmoves]
    exact h.deleted hok

section Write

variable {payload : Bytes} {attributes : UInt32} {time : EfiTime} {status : EfiStatus}
  {del : Bool} {s' : AuthState}

theorem pkUpdated_update
    (henv : ∀ events, env.storeOutcome events = .done) (hinv : ModeTracksPk s)
    (hupdate : variableExLibUpdateVariable P env s (pkRequest payload attributes time) =
      (status, s'))
    (hok : status.isError = false →
      (pkRecords s').length ≤ 1 ∧ (pkRecords s' = [] ↔ del = true)) :
    PkUpdated s status del s' := by
  have hmode := update_mPlatformMode P env s (pkRequest payload attributes time)
  have hruntime := update_atRuntime P env s (pkRequest payload attributes time)
  have hsetup : recordsOf (variableExLibUpdateVariable P env s
      (pkRequest payload attributes time)).2 efiSetupModeName efiGlobalVariableGuid =
      recordsOf s efiSetupModeName efiGlobalVariableGuid :=
    recordsOf_update_of_ne P env s _ (by simp only [pkRequest]; decide)
  have hvars := @update_error_vars P env s (pkRequest payload attributes time) henv
  rw [hupdate] at hmode hruntime hsetup hvars
  have hkept : status.isError = true → pkRecords s' = pkRecords s := by
    intro herror
    rw [pkRecords, recordsOf, hvars herror]
    rfl
  refine ⟨hmode, hruntime, hsetup, ?_, hkept, fun hstatus => (hok hstatus).2⟩
  cases hstatus : status.isError with
  | true =>
      rw [hkept hstatus]
      exact hinv.once
  | false => exact (hok hstatus).1

theorem pkUpdated_of_found
    {old : AuthVariable}
    (henv : ∀ events, env.storeOutcome events = .done) (hinv : ModeTracksPk s)
    (hfound : findVariable s efiPlatformKeyName efiGlobalVariableGuid false = some old)
    (hdel : (pkRequest payload attributes time).isDelete = del)
    (hupdate : variableExLibUpdateVariable P env s (pkRequest payload attributes time) =
      (status, s')) :
    PkUpdated s status del s' := by
  have hrecords : pkRecords s = [old] := by
    have hmem : old ∈ pkRecords s := findVariable_mem hfound
    obtain ⟨x, hx⟩ := List.length_eq_one_iff.mp
      (Nat.le_antisymm hinv.once (List.length_pos_of_mem hmem))
    rw [hx, List.mem_singleton] at hmem
    rw [hx, hmem]
  refine pkUpdated_update henv hinv hupdate (fun hok => ?_)
  have hresult := recordsOf_update_found P env s (pkRequest payload attributes time) hrecords hfound
  rw [hupdate] at hresult
  rcases hresult with ⟨-, hkeep⟩ | ⟨hdelete, h⟩ | ⟨hdelete, h⟩
  · cases (hkeep hok).2.2.2
  · have hnil : pkRecords s' = [] := h
    rw [hnil, ← hdel, hdelete]
    simp
  · have hcons : pkRecords s' = [newVariable (pkRequest payload attributes time) (some old) _] := h
    rw [hcons, ← hdel, hdelete]
    simp

theorem pkUpdated_of_absent
    (henv : ∀ events, env.storeOutcome events = .done) (hinv : ModeTracksPk s)
    (habsent : pkRecords s = [])
    (hdata : payload.isEmpty = false → del = false)
    (hempty : payload.isEmpty = true → hasAttribute attributes efiVariableAppendWrite = true →
      del = true)
    (hupdate : variableExLibUpdateVariable P env s (pkRequest payload attributes time) =
      (status, s')) :
    PkUpdated s status del s' := by
  refine pkUpdated_update henv hinv hupdate (fun hok => ?_)
  have hresult := recordsOf_update_absent P env s (pkRequest payload attributes time) habsent
  rw [hupdate] at hresult
  rcases hresult with ⟨h, hkeep⟩ | ⟨hdata', h⟩
  · obtain ⟨hdata', happend⟩ := hkeep hok
    have hnil : pkRecords s' = [] := h
    rw [hnil, hempty hdata' happend]
    simp
  · have hcons : pkRecords s' = [newVariable (pkRequest payload attributes time) none payload] := h
    rw [hcons, hdata hdata']
    simp

end Write

theorem ModeTracksPk.found_of_boot
    (hinv : ModeTracksPk s) (hmode : s.mPlatformMode = .userMode) (hboot : s.atRuntime = false) :
    ∃ old, findVariable s efiPlatformKeyName efiGlobalVariableGuid false = some old := by
  obtain ⟨old, rest, hrecords⟩ := List.exists_cons_of_ne_nil (hinv.tracks.mp hmode)
  refine ⟨old, ?_⟩
  rw [findVariable_eq, hboot]
  unfold pkRecords at hrecords
  rw [hrecords]
  simp

theorem ModeTracksPk.absent
    (hinv : ModeTracksPk s) (hmode : s.mPlatformMode = .setupMode) :
    pkRecords s = [] := by
  by_contra h
  have huser : s.mPlatformMode = .userMode := hinv.tracks.mpr h
  rw [hmode] at huser
  exact absurd huser (by decide)

/-- Without verification: custom mode. -/
theorem updateWithPk_custom
    {data : Bytes}
    (henv : ∀ events, env.storeOutcome events = .done) (hinv : ModeTracksPk s)
    (hfollows : ModeFollows env s data attributes) (hcustom : isCustom env s = true)
    (h : updateWithPk P env s efiPlatformKeyName efiGlobalVariableGuid data attributes true =
      some (status, del, s')) :
    PkUpdated s status del s' := by
  have hboot : s.atRuntime = false := hfollows.custom_boot hcustom
  unfold updateWithPk at h
  simp only [hcustom, Bool.true_or, if_true, Bool.or_true] at h
  split at h
  · cases h
  · rename_i auth hauth
    obtain ⟨⟨status1, s1⟩, hr, hs'⟩ := Option.map_eq_some_iff.mp h
    cases hs'
    have hagrees := hfollows.deletion auth hauth
    have hupdate : ∀ status1 s1, updateUnverified P env s efiPlatformKeyName
        efiGlobalVariableGuid attributes auth = some (status1, s1) →
        PkUpdated s status1 auth.payload.isEmpty s1 := by
      intro status1 s1 hupdate
      rcases unlessError_eq_some hupdate with ⟨hcheck, herror⟩ | ⟨s2, hcheck, hupdate⟩
      · obtain ⟨status2, -, hs2⟩ := Option.map_eq_some_iff.mp hcheck
        cases hs2
        exact PkUpdated.stay hinv herror
      · obtain ⟨status2, -, hs2⟩ := Option.map_eq_some_iff.mp hcheck
        cases hs2
        rw [updateVariableWithTimeStamp_pk, Option.some.injEq] at hupdate
        cases hmode : s.mPlatformMode with
        | userMode =>
            obtain ⟨old, hfound⟩ := hinv.found_of_boot hmode hboot
            refine pkUpdated_of_found henv hinv hfound ?_ hupdate
            simp only [deletionAgrees, hmode, hcustom, if_true, beq_iff_eq] at hagrees
            exact hagrees.symm
        | setupMode =>
            exact pkUpdated_of_absent henv hinv (hinv.absent hmode) (fun hdata => hdata)
              (fun hdata _ => hdata) hupdate
    rcases unlessError_eq_some hr with ⟨hr, -⟩ | ⟨s2, hr, hvendor⟩
    · exact hupdate _ _ hr
    · have h2 := hupdate _ _ hr
      rw [Option.some.injEq] at hvendor
      have hsuccess : (vendorKeyIsModified P env s2).1 = .success :=
        vendorKeyIsModified_success henv (h2.atRuntime.trans hboot)
      have hmoves : Moves P env internalOnly s2 _ :=
        vendorKeyIsModified_moves P env s2 allowsInternal_isInternal.toAllowsVendorKeys
      rw [hvendor] at hsuccess hmoves
      cases hsuccess
      exact h2.moves_right hmoves

theorem PkUpdated.of_error
    {del del' : Bool}
    (h : PkUpdated s status del s') (herror : status.isError = true) :
    PkUpdated s status del' s' where
  mode := h.mode
  atRuntime := h.atRuntime
  setupMode := h.setupMode
  once := h.once
  kept := h.kept
  deleted := fun hok => absurd hok (by rw [herror]; decide)

theorem ModeTracksPk.moves
    {p : Permits}
    (hne : ∀ req, p.update req →
      ¬(efiPlatformKeyName = req.variableName ∧ efiGlobalVariableGuid = req.vendorGuid))
    (hmode : ¬p.mode)
    (hinv : ModeTracksPk s) (hmoves : Moves P env p s s') :
    ModeTracksPk s' := by
  have hrecords : pkRecords s' = pkRecords s := hmoves.recordsOf_eq hne (Or.inl hmode)
  constructor
  · rw [hrecords]
    exact hinv.once
  · rw [hrecords, hmoves.mPlatformMode_eq hmode]
    exact hinv.tracks

theorem verifyPk_found
    {name : Char16Str} {guid : Guid} {attributes : UInt32} {auth : VariableAuthentication2}
    (h : (verifyPk env s name guid attributes auth).1 = true) :
    ∃ old, findVariable s efiPlatformKeyName efiGlobalVariableGuid false = some old := by
  unfold verifyPk variableExLibFindVariable at h
  split at h
  · cases h
  · split at h
    · cases h
    · rename_i pk hpk
      exact ⟨pk, hpk⟩

theorem verifyTimeBasedPayload_pk_found
    {name : Char16Str} {guid : Guid} {auth : VariableAuthentication2}
    {time : Option EfiTime}
    (h : verifyTimeBasedPayload P env s name guid attributes .pk time auth =
      some (.success, s')) :
    ∃ old, findVariable s efiPlatformKeyName efiGlobalVariableGuid false = some old := by
  unfold verifyTimeBasedPayload at h
  dsimp only at h
  split at h
  · simp at h
  · split at h
    · simp at h
    · rcases unlessError_eq_some h with ⟨-, herror⟩ | ⟨s1, hverify, -⟩
      · exact absurd herror (by decide)
      · simp only [verifySignature, ofAnswer, Option.some.injEq, Prod.mk.injEq] at hverify
        refine @verifyPk_found env s name guid attributes auth ?_
        by_contra hanswer
        rw [if_neg hanswer] at hverify
        exact absurd hverify.1 (by decide)

/-- With verification: against `PK` in user mode, against the payload in setup mode. -/
theorem updateWithPk_verified
    {data : Bytes}
    (henv : ∀ events, env.storeOutcome events = .done) (hinv : ModeTracksPk s)
    (hfollows : ModeFollows env s data attributes) (hcustom : isCustom env s = false)
    (h : updateWithPk P env s efiPlatformKeyName efiGlobalVariableGuid data attributes true =
      some (status, del, s')) :
    PkUpdated s status del s' := by
  unfold updateWithPk at h
  simp only [hcustom, Bool.false_or, Bool.not_true, Bool.and_false, Bool.false_eq_true,
    if_false] at h
  have hpriv : (pkVerification s.mPlatformMode == AuthVarType.priv) = false := by
    cases s.mPlatformMode <;> rfl
  unfold verifyTimeBasedPayloadAndUpdate at h
  split at h
  · cases h
  · rename_i auth hauth
    have hagrees := hfollows.deletion auth hauth
    dsimp only at h
    obtain ⟨⟨status1, s1⟩, hr, hs'⟩ := Option.map_eq_some_iff.mp h
    simp only [Prod.mk.injEq] at hs'
    obtain ⟨rfl, rfl, rfl⟩ := hs'
    have hmoves : ∀ {time status s2}, verifyTimeBasedPayload P env s efiPlatformKeyName
        efiGlobalVariableGuid attributes (pkVerification s.mPlatformMode) time auth =
        some (status, s2) → Moves P env internalOnly s s2 :=
      fun hverify => verifyTimeBasedPayload_moves P env s efiPlatformKeyName efiGlobalVariableGuid
        attributes auth _ (fun _ => allowsInternal_isInternal.toAllowsCertDb) _ _ _ hverify
    rcases unlessError_eq_some hr with ⟨hverify, herror⟩ | ⟨s2, hverify, hr⟩
    · exact PkUpdated.moves_left (hmoves hverify) (PkUpdated.stay
        (hinv.moves isInternal_ne_pk not_false (hmoves hverify)) herror)
    · have hmoves := hmoves hverify
      refine PkUpdated.moves_left hmoves ?_
      have hinv2 : ModeTracksPk s2 := hinv.moves isInternal_ne_pk not_false hmoves
      have hfind : findVariable s2 efiPlatformKeyName efiGlobalVariableGuid false =
          findVariable s efiPlatformKeyName efiGlobalVariableGuid false := by
        rw [findVariable_eq, findVariable_eq, hmoves.recordsOf_eq isInternal_ne_pk (Or.inl not_false),
          hmoves.atRuntime_eq]
      have hupdate : ∀ status3 s3, variableExLibUpdateVariable P env s2
          (pkRequest auth.payload attributes auth.timeStamp) = (status3, s3) →
          PkUpdated s2 status3
            ((variableExLibFindVariable s efiPlatformKeyName efiGlobalVariableGuid).isSome &&
              auth.payload.isEmpty && !hasAttribute attributes efiVariableAppendWrite) s3 := by
        intro status3 s3 hupdate
        unfold variableExLibFindVariable
        cases hmode : s.mPlatformMode with
        | userMode =>
            rw [hmode] at hverify
            obtain ⟨old, hold⟩ := verifyTimeBasedPayload_pk_found hverify
            refine pkUpdated_of_found henv hinv2 (hfind.trans hold) ?_ hupdate
            simp only [deletionAgrees, hmode, hcustom, Bool.false_eq_true, if_false,
              beq_iff_eq] at hagrees
            rw [hold, Option.isSome_some, Bool.true_and]
            exact hagrees.symm
        | setupMode =>
            have habsent : pkRecords s = [] := hinv.absent hmode
            have hnone : findVariable s efiPlatformKeyName efiGlobalVariableGuid false = none := by
              rw [findVariable_eq]
              unfold pkRecords at habsent
              rw [habsent]
              rfl
            rw [hnone]
            refine pkUpdated_of_absent henv hinv2 ?_ (fun _ => rfl) (fun hdata happend => ?_) hupdate
            · rw [internalOnly_pkRecords hmoves]
              exact habsent
            · simp [deletionAgrees, hmode, hcustom, hdata, happend] at hagrees
      rcases unlessError_eq_some hr with ⟨hr, herror⟩ | ⟨s3, hr, hlast⟩
      · rw [updateVariableWithTimeStamp_pk, Option.some.injEq] at hr
        exact (hupdate _ _ hr).of_error herror
      · rw [updateVariableWithTimeStamp_pk, Option.some.injEq] at hr
        rw [hpriv, Bool.and_false, if_neg Bool.false_ne_true] at hlast
        cases hlast
        have hsuccess : EfiStatus.success.isError = false := rfl
        rw [hsuccess, Bool.not_false, Bool.and_true]
        exact hupdate _ _ hr

end Request

section Mode

variable {P : Platform} {env : Environment} {s : AuthState}

/-- The updates behind a change of the platform mode. -/
def isSecureBoot (req : UpdateRequest) : Prop :=
  (req.variableName = efiSecureBootModeName ∧ req.vendorGuid = efiGlobalVariableGuid) ∨
    (req.variableName = efiSecureBootEnableName ∧ req.vendorGuid = efiSecureBootEnableDisableGuid)

theorem isSecureBoot_ne_pk
    (req : UpdateRequest) (h : isSecureBoot req) :
    ¬(efiPlatformKeyName = req.variableName ∧ efiGlobalVariableGuid = req.vendorGuid) := by
  rcases h with ⟨hn, hg⟩ | ⟨hn, hg⟩ <;> rw [hn, hg] <;> decide

theorem updatePlatformMode_moves_set
    (mode : PlatformMode)
    (hfound : (variableExLibFindVariable s efiSetupModeName efiGlobalVariableGuid).isSome) :
    Moves P env ⟨isSecureBoot, False, False⟩ (withPlatformMode s mode)
      (updatePlatformMode P env s mode).2 := by
  obtain ⟨v, hv⟩ := Option.isSome_iff_exists.mp hfound
  unfold updatePlatformMode
  rw [hv]
  dsimp only
  split
  · exact .refl
  · exact updateSecureBoot_moves P env _
      ⟨fun _ => Or.inl ⟨rfl, rfl⟩, fun _ => Or.inr ⟨rfl, rfl⟩⟩

theorem updatePlatformMode_spec
    (mode : PlatformMode)
    (hfound : (variableExLibFindVariable s efiSetupModeName efiGlobalVariableGuid).isSome) :
    (updatePlatformMode P env s mode).2.mPlatformMode = mode ∧
      pkRecords (updatePlatformMode P env s mode).2 = pkRecords s := by
  have hmoves : Moves P env ⟨isSecureBoot, False, False⟩ (withPlatformMode s mode)
      (updatePlatformMode P env s mode).2 := updatePlatformMode_moves_set mode hfound
  constructor
  · exact (hmoves.mPlatformMode_eq not_false)
  · exact (hmoves.recordsOf_eq isSecureBoot_ne_pk (Or.inl not_false)).trans
      (recordsOf_setFirstByte mode.toByte (by decide))

theorem trackPlatformMode_tracks
    {s' : AuthState} {del : Bool}
    (h : PkUpdated s .success del s')
    (hfound : (variableExLibFindVariable s efiSetupModeName efiGlobalVariableGuid).isSome) :
    ModeTracksPk (trackPlatformMode P env s' del).2 := by
  have hfound' : (variableExLibFindVariable s' efiSetupModeName efiGlobalVariableGuid).isSome := by
    unfold variableExLibFindVariable at hfound ⊢
    rw [findVariable_eq, h.setupMode, h.atRuntime, ← findVariable_eq]
    exact hfound
  have hdeleted : pkRecords s' = [] ↔ del = true := h.deleted rfl
  unfold trackPlatformMode
  cases hmode : s'.mPlatformMode with
  | setupMode =>
      cases del with
      | false =>
          obtain ⟨hmode', hrecords⟩ :=
            @updatePlatformMode_spec P env s' .userMode hfound'
          refine ⟨by simpa [hrecords] using h.once, ?_⟩
          simpa [hmode', hrecords] using hdeleted
      | true =>
          refine ⟨h.once, ?_⟩
          simp [hmode, hdeleted.mpr rfl]
  | userMode =>
      cases del with
      | false =>
          refine ⟨h.once, ?_⟩
          simpa [hmode] using hdeleted
      | true =>
          obtain ⟨hmode', hrecords⟩ :=
            @updatePlatformMode_spec P env s' .setupMode hfound'
          refine ⟨by simpa [hrecords] using h.once, ?_⟩
          simp [hmode', hrecords, hdeleted.mpr rfl]

theorem processVarWithPk_tracks
    {data : Bytes} {attributes : UInt32} {status : EfiStatus} {s' : AuthState}
    (henv : ∀ events, env.storeOutcome events = .done) (hinv : ModeTracksPk s)
    (hfollows : hasKeyAttributes attributes = true → ModeFollows env s data attributes)
    (h : processVarWithPk P env s efiPlatformKeyName efiGlobalVariableGuid data attributes true =
      some (status, s')) :
    ModeTracksPk s' := by
  unfold processVarWithPk at h
  split at h
  · cases h
    exact hinv
  · rename_i hattributes
    have hfollows' : ModeFollows env s data attributes := hfollows (by simpa using hattributes)
    obtain ⟨⟨status1, del, s1⟩, hr, hs'⟩ := Option.map_eq_some_iff.mp h
    have hupdated : PkUpdated s status1 del s1 := by
      cases hcustom : isCustom env s with
      | false => exact updateWithPk_verified henv hinv hfollows' hcustom hr
      | true => exact updateWithPk_custom henv hinv hfollows' hcustom hr
    cases herror : status1.isError with
    | true =>
        simp only [herror, Bool.not_true, Bool.false_and, Bool.false_eq_true, if_false,
          Prod.mk.injEq] at hs'
        rw [← hs'.2]
        refine ⟨hupdated.once, ?_⟩
        rw [hupdated.kept herror, hupdated.mode]
        exact hinv.tracks
    | false =>
        rw [isError_eq_false.mp herror] at hupdated
        simp only [herror, Bool.not_false, Bool.true_and, if_true] at hs'
        have htracks : ModeTracksPk (trackPlatformMode P env s1 del).2 :=
          trackPlatformMode_tracks hupdated hfollows'.setupMode_found
        rw [hs'] at htracks
        exact htracks

end Mode

section Others

variable {P : Platform} {env : Environment} {s : AuthState}

/-- A request for another variable than `PK`. -/
def isNotPk (req : UpdateRequest) : Prop :=
  ¬(efiPlatformKeyName = req.variableName ∧ efiGlobalVariableGuid = req.vendorGuid)

/-- Anything that is not about `PK` and leaves the platform mode. -/
abbrev notPkOnly : Permits :=
  ⟨isNotPk, True, False⟩

theorem allowsInternal_isNotPk :
    AllowsInternal notPkOnly where
  certDb := fun _ => isInternal_ne_pk _ (allowsInternal_isInternal.certDb _)
  vendorKeysNv := fun _ => isInternal_ne_pk _ (allowsInternal_isInternal.vendorKeysNv _)
  vendorKeys := fun _ => isInternal_ne_pk _ (allowsInternal_isInternal.vendorKeys _)

theorem isPlatformKey_iff
    (name : Char16Str) (guid : Guid) :
    isPlatformKey name guid = true ↔ efiPlatformKeyName = name ∧ efiGlobalVariableGuid = guid := by
  rw [isPlatformKey, Bool.and_eq_true, beq_iff_eq, beq_iff_eq, And.comm, eq_comm,
    @eq_comm _ guid]

theorem processVariable_tracks
    {name : Char16Str} {guid : Guid} {data : Bytes} {attributes : UInt32} {status : EfiStatus}
    {s' : AuthState}
    (hinv : ModeTracksPk s) (hpk : isPlatformKey name guid = false)
    (h : authVariableLibProcessVariable P env s name guid data attributes = some (status, s')) :
    ModeTracksPk s' := by
  have hne : ∀ req : UpdateRequest, req.variableName = name → req.vendorGuid = guid →
      isNotPk req := by
    rintro req rfl rfl hcontra
    rw [(isPlatformKey_iff _ _).mpr hcontra] at hpk
    exact absurd hpk (by decide)
  have hmoves : Moves P env notPkOnly s s' :=
    authVariableLibProcessVariable_moves P env s name guid data attributes
      allowsInternal_isNotPk.toAllowsVendorKeys (fun _ _ => allowsInternal_isNotPk.toAllowsCertDb)
      (fun _ _ _ _ => hne _ rfl rfl)
      (fun _ => processCounterBased_moves P env s name guid data attributes
        ⟨trivial, fun _ => by simp only [isNotPk, plainRequest]; decide⟩
        (fun _ _ _ => hne _ rfl rfl))
      (fun h => absurd h (by rw [hpk]; decide)) status s' h
  exact hinv.moves (fun _ h => h) not_false hmoves

end Others

section Initialize

variable {P : Platform} {env : Environment} {s : AuthState}

theorem allowsInit_notPk :
    AllowsInit notPkOnly where
  toAllowsInternal := allowsInternal_isNotPk
  initial := by
    have hnames : ∀ x ∈ initVariables,
        ¬(efiPlatformKeyName = x.1 ∧ efiGlobalVariableGuid = x.2) := by decide
    exact fun x hx _ _ => hnames x hx

theorem initKeyDatabase_moves :
    Moves P env notPkOnly s (initKeyDatabase P env s).2 := by
  unfold initKeyDatabase
  split
  · have hkeys : Moves P env notPkOnly s { s with mPubKeyStore := [] } :=
      .single (.keyStore s trivial [])
    exact hkeys.trans (moves_update (by simp only [isNotPk, plainRequest]; decide))
  · exact .single (.keyStore s trivial _)

theorem initPlatformMode_tracks
    (hboot : s.atRuntime = false) (honce : (pkRecords s).length ≤ 1) :
    ModeTracksPk (initPlatformMode s) := by
  have hfind : (variableExLibFindVariable s efiPlatformKeyName efiGlobalVariableGuid).isNone ↔
      pkRecords s = [] := by
    unfold variableExLibFindVariable pkRecords
    rw [findVariable_eq, hboot]
    cases recordsOf s efiPlatformKeyName efiGlobalVariableGuid <;> simp
  have hrecords : pkRecords (initPlatformMode s) = pkRecords s := rfl
  refine ⟨by rw [hrecords]; exact honce, ?_⟩
  rw [hrecords, initPlatformMode]
  dsimp only
  split
  · rename_i hnone
    simp [hfind.mp hnone]
  · rename_i hsome
    rw [hfind] at hsome
    simp [hsome]

theorem authVariableLibInitialize_tracks
    {fuel : Nat} {s' : AuthState}
    (hboot : s.atRuntime = false) (honce : (pkRecords s).length ≤ 1)
    (h : authVariableLibInitialize P env s fuel = some (.success, s')) :
    ModeTracksPk s' := by
  obtain ⟨s1, hkeys, hmoves2⟩ := authVariableLibInitialize_cases allowsInit_notPk h
  have hmoves1 : Moves P env notPkOnly s s1 := by
    have hmoves : Moves P env notPkOnly s (initKeyDatabase P env s).2 := initKeyDatabase_moves
    rw [hkeys] at hmoves
    exact hmoves
  have hinv : ModeTracksPk (initPlatformMode s1) := by
    refine initPlatformMode_tracks (hmoves1.atRuntime_eq.trans hboot) ?_
    rw [pkRecords, hmoves1.recordsOf_eq (fun _ h => h) (Or.inl not_false)]
    exact honce
  exact hinv.moves (fun _ h => h) not_false hmoves2

end Initialize

section Run

/-- What may happen after the initialization. -/
inductive LibraryEvent where
  | processVariable (env : Environment) (name : Char16Str) (guid : Guid) (data : Bytes)
      (attributes : UInt32)
  | exitBootServices

/-- A step of the library: a call that returns, or the end of boot services. -/
inductive LibraryStep (P : Platform) : AuthState → LibraryEvent → AuthState → Prop
  | processVariable {env : Environment} {s s' : AuthState} {name : Char16Str} {guid : Guid}
      {data : Bytes} {attributes : UInt32} {status : EfiStatus}
      (h : authVariableLibProcessVariable P env s name guid data attributes = some (status, s')) :
      LibraryStep P s (.processVariable env name guid data attributes) s'
  | exitBootServices (s : AuthState) :
      LibraryStep P s .exitBootServices { s with atRuntime := true }

/-- Each store update succeeds, and a request for `PK` is one that the mode follows. -/
def StepFollows (s : AuthState) : LibraryEvent → Prop
  | .processVariable env name guid data attributes =>
      (∀ events, env.storeOutcome events = .done) ∧
        (isPlatformKey name guid = true → hasKeyAttributes attributes = true →
          ModeFollows env s data attributes)
  | .exitBootServices => True

theorem libraryStep_tracks
    {P : Platform} {s s' : AuthState} {e : LibraryEvent}
    (hinv : ModeTracksPk s) (hfollows : StepFollows s e) (h : LibraryStep P s e s') :
    ModeTracksPk s' := by
  cases h with
  | processVariable h =>
      rename_i env name guid data attributes status
      cases hpk : isPlatformKey name guid with
      | false => exact processVariable_tracks hinv hpk h
      | true =>
          obtain ⟨henv, hstep⟩ := hfollows
          obtain ⟨rfl, rfl⟩ := (isPlatformKey_iff _ _).mp hpk
          unfold authVariableLibProcessVariable at h
          rw [if_pos hpk] at h
          exact processVarWithPk_tracks henv hinv (hstep hpk) h
  | exitBootServices => exact ⟨hinv.once, hinv.tracks⟩

/-- After the initialization, and after every sequence of calls in which the deletion
decisions agree, the platform is in user mode if and only if `PK` exists. -/
theorem platformMode_tracks_pk_run
    {P : Platform} {env : Environment} {s₀ s₁ s : AuthState} {fuel : Nat}
    {trace : List (AuthState × LibraryEvent)}
    (hboot : s₀.atRuntime = false)
    (honce : (recordsOf s₀ efiPlatformKeyName efiGlobalVariableGuid).length ≤ 1)
    (hinit : authVariableLibInitialize P env s₀ fuel = some (.success, s₁))
    (hrun : Run (LibraryStep P) s₁ trace s)
    (hfollows : ∀ x ∈ trace, StepFollows x.1 x.2) :
    s.mPlatformMode = .userMode ↔
      (findVariable s efiPlatformKeyName efiGlobalVariableGuid true).isSome := by
  have hinv : ModeTracksPk s :=
    hrun.invariant (fun _ _ _ hs hok hstep => libraryStep_tracks hs hok hstep) hfollows
      (authVariableLibInitialize_tracks hboot honce hinit)
  rw [hinv.tracks, findVariable_ignore, List.isSome_head?]
  rfl

end Run

section Sample

/-- A time-based request: timestamp with a year only, no certificate data, and a payload. -/
def timeBasedData (year : UInt16) (payload : Bytes) : Bytes :=
  toLE 2 year.toNat ++ List.replicate 14 0 ++ toLE 4 24 ++ toLE 2 0x0200 ++
    toLE 2 winCertTypeEfiGuid ++ efiCertPkcs7Guid.bytes ++ payload

/-- A list with one SHA-256 signature. -/
def sampleSignatureList : Bytes :=
  [0x26, 0x16, 0xc4, 0xc1, 0x4c, 0x50, 0x92, 0x40, 0xac, 0xa9, 0x41, 0xf9, 0x36, 0x93, 0x43, 0x28] ++
    toLE 4 76 ++ toLE 4 0 ++ toLE 4 48 ++ List.replicate 48 7

/-- A request with the user present. -/
def presentRequest (s : AuthState) (name : Char16Str) (guid : Guid) (data : Bytes)
    (attributes : UInt32) : Option (EfiStatus × AuthState) :=
  authVariableLibProcessVariable authPlatform
    { acceptingEnvironment with userPhysicalPresent := true } s name guid data attributes

/-- The state after `PK` has been enrolled with one signature. -/
def enrolledState : AuthState :=
  returned (authVariableLibProcessVariable authPlatform acceptingEnvironment initializedState
    efiPlatformKeyName efiGlobalVariableGuid (timeBasedData 2015 sampleSignatureList)
    variableAttributeNvBsRtAt)

theorem process_enroll :
    authVariableLibProcessVariable authPlatform acceptingEnvironment initializedState
      efiPlatformKeyName efiGlobalVariableGuid (timeBasedData 2015 sampleSignatureList)
      variableAttributeNvBsRtAt = some (.success, enrolledState) := by
  decide +kernel

/-- The state after `CustomMode` has then been set. -/
def customState : AuthState :=
  returned (presentRequest enrolledState efiCustomModeName efiCustomModeEnableGuid [1]
    variableAttributeNvBs)

/-- The state after an empty append to `PK` in custom mode. -/
def appendedState : AuthState :=
  returned (presentRequest customState efiPlatformKeyName efiGlobalVariableGuid
    (timeBasedData 2016 []) (variableAttributeNvBsRtAt ||| efiVariableAppendWrite))

theorem platformMode_tracks_pk_run_enroll :
    enrolledState.mPlatformMode = .userMode ↔
      (findVariable enrolledState efiPlatformKeyName efiGlobalVariableGuid true).isSome := by
  have hagrees : (readAuthentication2 (timeBasedData 2015 sampleSignatureList)).all
      (fun auth => deletionAgrees acceptingEnvironment initializedState variableAttributeNvBsRtAt
        auth.payload) = true := by decide +kernel
  refine @platformMode_tracks_pk_run authPlatform acceptingEnvironment emptyState initializedState
    enrolledState 1 _ rfl (by decide) initialize_emptyState
    (Run.single (.processVariable process_enroll)) (fun x hx => ?_)
  rw [List.mem_singleton] at hx
  subst hx
  refine ⟨fun _ => rfl, fun _ _ => ⟨by decide +kernel, by decide +kernel, fun auth hauth => ?_⟩⟩
  rw [hauth, Option.all_some] at hagrees
  exact hagrees

/-- Enroll `PK`, enter custom mode, append nothing to `PK`: every call succeeds, the
platform is in setup mode and `PK` exists. -/
theorem platformMode_setup_with_pk :
    authVariableLibInitialize authPlatform acceptingEnvironment emptyState 1 =
        some (.success, initializedState) ∧
      authVariableLibProcessVariable authPlatform acceptingEnvironment initializedState
        efiPlatformKeyName efiGlobalVariableGuid (timeBasedData 2015 sampleSignatureList)
        variableAttributeNvBsRtAt = some (.success, enrolledState) ∧
      presentRequest enrolledState efiCustomModeName efiCustomModeEnableGuid [1]
        variableAttributeNvBs = some (.success, customState) ∧
      presentRequest customState efiPlatformKeyName efiGlobalVariableGuid (timeBasedData 2016 [])
        (variableAttributeNvBsRtAt ||| efiVariableAppendWrite) = some (.success, appendedState) ∧
      appendedState.mPlatformMode = .setupMode ∧
      (findVariable appendedState efiPlatformKeyName efiGlobalVariableGuid true).isSome := by
  decide +kernel

end Sample

end AuthVariableLib
end Udk
