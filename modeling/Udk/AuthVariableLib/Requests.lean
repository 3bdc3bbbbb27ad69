import Udk.AuthVariableLib.Moves
import Udk.Runs

/-!
# How a request ends

One lemma for each function on the way of a counter-based request, with all its exits:
the checks of `SetVariable`, the dispatch by name, `ProcessVariable`, and the choice of a
key index.
-/

namespace Udk
namespace AuthVariableLib

open Variable

/-- The record is of a counter-based variable. -/
def AuthVariable.isCounterBased (v : AuthVariable) : Bool :=
  hasAttribute v.attributes efiVariableAuthenticatedWriteAccess

/-- A counter-based request for this variable. -/
def SetRequest.isCounterCall (req : SetRequest) (name : Char16Str) (guid : Guid) : Bool :=
  req.variableName == name && req.vendorGuid == guid && req.isCounterBased

section Counter

variable {P : Platform} {env : Environment} {s s' : AuthState}
variable {name : Char16Str} {guid : Guid} {data : Bytes} {attributes : UInt32}
variable {status : EfiStatus} {org : Option AuthVariable} {auth : VariableAuthentication}

/-- Write the key database only. -/
abbrev keyDbOnly : Permits where
  update := fun req =>
    req.variableName = authvarKeydbName ∧ req.vendorGuid = efiAuthenticatedVariableGuid
  keys := True
  mode := False

theorem allowsKeys_keyDbOnly :
    AllowsKeys keyDbOnly where
  keys := trivial
  keyDb := fun _ => ⟨rfl, rfl⟩

theorem addPubKeyInStore_absent
    {pubKey : PublicKey} {keyIndex : UInt32}
    (habsent : variableExLibFindVariable s authvarKeydbName efiAuthenticatedVariableGuid = none)
    (h : addPubKeyInStore P env s pubKey = some (keyIndex, s')) :
    s' = s := by
  unfold addPubKeyInStore getAvailableKeyIndex at h
  rw [habsent] at h
  dsimp only at h
  split at h
  · cases h
    rfl
  · rw [if_pos rfl] at h
    cases h
    rfl

theorem keyIndexFor_records
    {keyIndex : Option UInt32}
    (horg : org = none → recordsOf s name guid = [])
    (h : keyIndexFor P env s org auth = some (keyIndex, s')) :
    recordsOf s' name guid = recordsOf s name guid := by
  by_cases hdb : name = authvarKeydbName ∧ guid = efiAuthenticatedVariableGuid
  case pos =>
      obtain ⟨rfl, rfl⟩ := hdb
      unfold keyIndexFor at h
      split at h
      · cases h
        rfl
      · split at h
        · cases h
          rfl
        · have habsent : variableExLibFindVariable s authvarKeydbName
              efiAuthenticatedVariableGuid = none := by
            rw [variableExLibFindVariable, findVariable_eq, horg rfl]
            rfl
          split at h
          · cases h
          · rename_i index s1 hadd
            cases h
            rw [addPubKeyInStore_absent habsent hadd]
  case neg =>
      have hmoves : Moves P env keyDbOnly s s' :=
        keyIndexFor_moves P env s allowsKeys_keyDbOnly org auth _ _ h
      refine hmoves.recordsOf_eq ?_ (Or.inl not_false)
      rintro req ⟨hname, hguid⟩ ⟨rfl, rfl⟩
      exact hdb ⟨hname, hguid⟩

theorem verifyCounterBasedPayload_frame
    {verified : EfiStatus}
    (h : verifyCounterBasedPayload env s auth = (verified, s')) :
    s'.vars = s.vars ∧ s'.atRuntime = s.atRuntime ∧ s'.mPubKeyStore = s.mPubKeyStore := by
  unfold verifyCounterBasedPayload askVerify at h
  split at h
  · cases h
    exact ⟨rfl, rfl, rfl⟩
  · cases h
    exact ⟨rfl, rfl, rfl⟩

/-- The exits of the counter-based part. -/
theorem processCounterBased_eq_some
    (h : processCounterBased P env s name guid data attributes org = some (status, s')) :
    ∃ auth, readAuthentication data = some auth ∧
      ((status = .securityViolation ∧ s' = s) ∨
        (org.all (fun org => passesKeyAndCount s org auth) = true ∧
          ∃ verified s1, verifyCounterBasedPayload env s auth = (verified, s1) ∧
            ((status.isError = true ∧ s' = s1) ∨
              (verified = .success ∧
                ∃ keyIndex s2, keyIndexFor P env s1 org auth = some (keyIndex, s2) ∧
                  ((keyIndex = none ∧ status = .outOfResources ∧ s' = s2) ∨
                    ∃ index, keyIndex = some index ∧
                      (status, s') = variableExLibUpdateVariable P env s2
                        ⟨name, guid, auth.payload, attributes, index, auth.monotonicCount,
                          none⟩))))) := by
  unfold processCounterBased at h
  split at h
  · cases h
  · rename_i auth hauth
    refine ⟨auth, hauth, ?_⟩
    split at h
    case isTrue hpasses =>
        cases h
        exact Or.inl ⟨rfl, rfl⟩
    case isFalse hpasses =>
        rw [Bool.not_eq_true, Bool.not_eq_false'] at hpasses
        rcases unlessError_eq_some h with ⟨hr, herror⟩ | ⟨s1, hr, h⟩
        · exact Or.inr ⟨hpasses, status, s', Option.some.inj hr, Or.inl ⟨herror, rfl⟩⟩
        · refine Or.inr ⟨hpasses, .success, s1, Option.some.inj hr, Or.inr ⟨rfl, ?_⟩⟩
          split at h
          · cases h
          · rename_i s2 hkey
            cases h
            exact ⟨none, _, hkey, Or.inl ⟨rfl, rfl, rfl⟩⟩
          · rename_i keyIndex s2 hkey
            exact ⟨some keyIndex, s2, hkey, Or.inr ⟨keyIndex, rfl, (Option.some.inj h).symm⟩⟩

theorem processCounterBased_rejects
    (hauth : readAuthentication data = some auth)
    (hpasses : org.all (fun org => passesKeyAndCount s org auth) = false) :
    processCounterBased P env s name guid data attributes org = some (.securityViolation, s) := by
  unfold processCounterBased
  rw [hauth]
  simp [hpasses]

theorem process_keyVariable
    (hkey : isKeyVariable name guid = true)
    (htime : hasAttribute attributes efiVariableTimeBasedAuthenticatedWriteAccess = false) :
    authVariableLibProcessVariable P env s name guid data attributes =
      some (.invalidParameter, s) := by
  have hattributes : hasKeyAttributes attributes = false := by
    simp [hasKeyAttributes, htime]
  have hpk : ∀ isPk, processVarWithPk P env s name guid data attributes isPk =
      some (.invalidParameter, s) := by
    intro isPk
    unfold processVarWithPk
    rw [hattributes]
    rfl
  have hkek : processVarWithKek P env s name guid data attributes =
      some (.invalidParameter, s) := by
    unfold processVarWithKek
    rw [hattributes]
    rfl
  have herror : EfiStatus.invalidParameter.isError = true := rfl
  simp only [isKeyVariable, Bool.or_eq_true, or_assoc] at hkey
  simp only [authVariableLibProcessVariable, hpk, hkek, herror, if_true]
  rcases hkey with hkey | hkey | hkey <;> simp [hkey]

theorem process_ordinary
    (hkey : isKeyVariable name guid = false) :
    authVariableLibProcessVariable P env s name guid data attributes =
      processVariable P env s name guid data attributes := by
  simp only [isKeyVariable, Bool.or_eq_false_iff] at hkey
  simp [authVariableLibProcessVariable, hkey]

theorem processVariable_counter_cases
    (hcounter : hasAttribute attributes efiVariableAuthenticatedWriteAccess = true)
    (htime : hasAttribute attributes efiVariableTimeBasedAuthenticatedWriteAccess = false)
    (h : processVariable P env s name guid data attributes = some (status, s')) :
    (status = .securityViolation ∧ s' = s) ∨
      (((variableExLibFindVariable s name guid).any
            (fun org => isDeleteAuthVariable data attributes org.attributes) &&
          env.userPhysicalPresent) = true ∧
        (status, s') = variableExLibUpdateVariable P env s (plainRequest name guid [] 0)) ∨
      processCounterBased P env s name guid data attributes
        ((variableExLibFindVariable s name guid).filter (·.isCounterBased)) =
        some (status, s') := by
  unfold processVariable at h
  simp only [hcounter, htime, Bool.false_eq_true, if_false, if_true, Bool.true_and,
    Bool.false_and] at h
  split at h
  · rename_i hdelete
    rcases unlessError_eq_some h with ⟨hr, -⟩ | ⟨s1, hr, h⟩
    · exact Or.inr (Or.inl ⟨hdelete, (Option.some.inj hr).symm⟩)
    · cases h
      exact Or.inr (Or.inl ⟨hdelete, (Option.some.inj hr).symm⟩)
  · split at h
    · cases h
      exact Or.inl ⟨rfl, rfl⟩
    · split at h
      · cases h
        exact Or.inl ⟨rfl, rfl⟩
      · split at h
        · cases h
          exact Or.inl ⟨rfl, rfl⟩
        · exact Or.inr (Or.inr h)

theorem processVariable_counter_rejects
    {old : AuthVariable}
    (hcounter : hasAttribute attributes efiVariableAuthenticatedWriteAccess = true)
    (htime : hasAttribute attributes efiVariableTimeBasedAuthenticatedWriteAccess = false)
    (hdelete : (isDeleteAuthVariable data attributes old.attributes &&
      env.userPhysicalPresent) = false)
    (hold : variableExLibFindVariable s name guid = some old) (hold' : old.isCounterBased = true)
    (hauth : readAuthentication data = some auth)
    (hpasses : passesKeyAndCount s old auth = false) :
    processVariable P env s name guid data attributes = some (.securityViolation, s) := by
  have hrejects : processCounterBased P env s name guid data attributes (some old) =
      some (.securityViolation, s) :=
    processCounterBased_rejects hauth (by simpa using hpasses)
  unfold processVariable
  unfold AuthVariable.isCounterBased at hold'
  simp only [hold, hcounter, htime, Option.any_some, hdelete, Bool.false_eq_true, if_false,
    if_true, Bool.false_and, Option.filter_some, hold', hrejects]
  split
  · rfl
  · split
    · rfl
    · rfl

end Counter

section Request

variable {P : Platform} {env : Environment} {s : AuthState} {req : SetRequest}
  {rest : List AuthVariable}

theorem checkRequest_success
    (h : checkRequest P env s req = .success) :
    attributesAllowed P req = true ∧ (∃ size, req.descriptorSize = some size) ∧
      checkExisting s req = .success := by
  unfold checkRequest at h
  split at h
  · cases h
  · split at h
    · cases h
    · rename_i hallowed
      split at h
      · cases h
      · rename_i size hsize
        split at h
        · cases h
        · dsimp only at h
          split at h
          · rename_i herror
            rw [h] at herror
            exact absurd herror (by decide)
          · exact ⟨by simpa using hallowed, ⟨size, hsize⟩, h⟩

theorem checkRequest_name
    (h : checkRequest P env s req = .success) :
    req.variableName.chars ≠ [] := by
  intro hname
  unfold checkRequest at h
  rw [if_pos hname] at h
  cases h

theorem checkRequest_counter
    (hcheck : checkRequest P env s req = .success) (hcounter : req.isCounterBased = true) :
    req.isTimeBased = false ∧ ∃ auth, readAuthentication req.data = some auth := by
  obtain ⟨hallowed, ⟨size, hsize⟩, -⟩ := checkRequest_success hcheck
  constructor
  · simp only [attributesAllowed, Bool.and_eq_true, hcounter, Bool.true_and,
      Bool.not_eq_true'] at hallowed
    exact hallowed.2
  · rw [SetRequest.descriptorSize, if_pos hcounter] at hsize
    split at hsize
    · cases hsize
    · rename_i hlength
      exact ⟨_, dif_pos (Nat.le_of_not_lt hlength)⟩

theorem checkExisting_head
    {v : AuthVariable}
    (hcheck : checkExisting s req = .success) (hattributes : req.attributes ≠ 0)
    (hrecords : recordsOf s req.variableName req.vendorGuid = v :: rest) :
    v.isAccessible s.atRuntime = true ∧
      req.attributes &&& ~~~efiVariableAppendWrite = v.attributes := by
  unfold checkExisting at hcheck
  rw [findVariable_ignore, hrecords, List.head?_cons] at hcheck
  dsimp only at hcheck
  split at hcheck
  · cases hcheck
  · rename_i hruntime
    split at hcheck
    · cases hcheck
    · rename_i hsame
      constructor
      · rw [Bool.and_eq_true, not_and_or, Bool.not_eq_true, Bool.not_eq_true] at hruntime
        rcases hruntime with h | h
        · simpa [AuthVariable.isAccessible] using Or.inr (by simpa using h)
        · simp [AuthVariable.isAccessible, h]
      · simpa [hattributes] using hsame

theorem SetRequest.attributes_ne_zero
    (hcounter : req.isCounterBased = true) :
    req.attributes ≠ 0 := by
  intro h
  rw [SetRequest.isCounterBased, h] at hcounter
  exact absurd hcounter (by decide)

theorem counterCall_head
    {v : AuthVariable}
    (hcheck : checkExisting s req = .success) (hcounter : req.isCounterBased = true)
    (hrecords : recordsOf s req.variableName req.vendorGuid = v :: rest) :
    v.isAccessible s.atRuntime = true ∧ v.isCounterBased = true := by
  obtain ⟨hacc, hsame⟩ :=
    checkExisting_head hcheck (SetRequest.attributes_ne_zero hcounter) hrecords
  refine ⟨hacc, ?_⟩
  rw [AuthVariable.isCounterBased, ← hsame, hasAttribute, UInt32.and_assoc]
  exact hcounter

theorem counterCall_org
    {s' : AuthState} (hcheck : checkExisting s req = .success)
    (hcounter : req.isCounterBased = true)
    (hrecords : recordsOf s' req.variableName req.vendorGuid =
      recordsOf s req.variableName req.vendorGuid)
    (hruntime : s'.atRuntime = s.atRuntime) :
    (variableExLibFindVariable s' req.variableName req.vendorGuid).filter (·.isCounterBased) =
      (recordsOf s req.variableName req.vendorGuid).head? := by
  rw [variableExLibFindVariable, findVariable_eq, hrecords, hruntime]
  cases hold : recordsOf s req.variableName req.vendorGuid with
  | nil => rfl
  | cons old others =>
      obtain ⟨hacc, hbased⟩ := counterCall_head hcheck hcounter hold
      simp [hacc, hbased]

end Request

section Steps

/-- What may happen after the initialization, with the status that is returned. -/
inductive ServiceEvent where
  | setVariable (env : Environment) (req : SetRequest) (status : EfiStatus)
  | exitBootServices

/-- A step of the driver: a `SetVariable` that returns, or the end of boot services. -/
inductive ServiceStep (P : Platform) : AuthState → ServiceEvent → AuthState → Prop
  | setVariable {env : Environment} {s s' : AuthState} {req : SetRequest} {status : EfiStatus}
      (h : variableServiceSetVariable P env s req = some (status, s')) :
      ServiceStep P s (.setVariable env req status) s'
  | exitBootServices (s : AuthState) :
      ServiceStep P s .exitBootServices { s with atRuntime := true }

variable {P : Platform} {env : Environment} {s : AuthState}
variable {name : Char16Str} {guid : Guid}

theorem recordsOf_delete
    (hsuccess : (variableExLibUpdateVariable P env s (plainRequest name guid [] 0)).1.isError =
      false)
    (hrecords : recordsOf s name guid = [] ∨
      ∃ old, recordsOf s name guid = [old] ∧ old.isAccessible s.atRuntime = true) :
    recordsOf (variableExLibUpdateVariable P env s (plainRequest name guid [] 0)).2 name guid =
      [] := by
  rcases hrecords with hnone | ⟨old, hold, hacc⟩
  · rcases recordsOf_update_absent P env s (plainRequest name guid [] 0) hnone with
      ⟨h, -⟩ | ⟨hdata, -⟩
    · exact h
    · cases hdata
  · have hdelete : (plainRequest name guid [] 0).isDelete = true := by
      simp [UpdateRequest.isDelete, plainRequest, hasAttribute]
    have hfound : findVariable s name guid false = some old := by
      rw [findVariable_eq, hold]
      simp [hacc]
    rcases recordsOf_update_found P env s (plainRequest name guid [] 0) hold hfound with
      ⟨-, hkeep⟩ | ⟨-, h⟩ | ⟨hnot, -⟩
    · exact absurd hdelete (Bool.eq_false_iff.mp (hkeep hsuccess).1)
    · exact h
    · exact absurd hdelete (Bool.eq_false_iff.mp hnot)

theorem langHook_records
    (req : SetRequest) :
    recordsOf (langHook P env s req).2 req.variableName guid =
        recordsOf s req.variableName guid ∧
      (langHook P env s req).2.atRuntime = s.atRuntime := by
  have hmoves : Moves P env ⟨fun r => r.variableName ≠ req.variableName, False, False⟩ s
      (langHook P env s req).2 :=
    langHook_moves P env s req (fun lang _ _ hne => hne)
  refine ⟨hmoves.recordsOf_eq (fun r hr h => ?_) (Or.inl not_false), hmoves.atRuntime_eq⟩
  have hne : r.variableName ≠ req.variableName := hr
  exact hne h.1.symm

end Steps

end AuthVariableLib
end Udk
