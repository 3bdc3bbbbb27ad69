import Udk.AuthVariableLib.Requests

/-!
# What `SetVariable` leaves alone

A call writes the variable it names and those that the services keep themselves.  The
platform mode follows calls for `PK` only, and the public keys counter-based calls only.
-/

namespace Udk
namespace AuthVariableLib

open Variable

section Frame

/-- The variables that the services write themselves. -/
def maintainedVariables : List (Char16Str × Guid) :=
  [(efiCertDbName, efiCertDbGuid), (efiVendorKeysNvVariableName, efiVendorKeysNvGuid),
    (efiVendorKeysVariableName, efiGlobalVariableGuid),
    (efiSetupModeName, efiGlobalVariableGuid), (efiSecureBootModeName, efiGlobalVariableGuid),
    (efiSecureBootEnableName, efiSecureBootEnableDisableGuid),
    (authvarKeydbName, efiAuthenticatedVariableGuid),
    (efiPlatformLangVariableName, efiGlobalVariableGuid),
    (efiLangVariableName, efiGlobalVariableGuid)]

/-- Write these variables, and change the public keys and the mode if it is allowed. -/
abbrev writing (writes : Char16Str × Guid → Prop) (keys mode : Prop) : Permits where
  update := fun req => writes (req.variableName, req.vendorGuid)
  keys := keys
  mode := mode

/-- The variables that a call may write. -/
def SetRequest.Writes (req : SetRequest) (x : Char16Str × Guid) : Prop :=
  x = (req.variableName, req.vendorGuid) ∨ x ∈ maintainedVariables

variable {P : Platform} {env : Environment} {s s' : AuthState} {req : SetRequest}
variable {status : EfiStatus} {trace : List (AuthState × ServiceEvent)}

theorem SetRequest.writes_plain
    {name : Char16Str} {guid : Guid} {data : Bytes} {attributes : UInt32}
    (h : (name, guid) ∈ maintainedVariables) :
    req.Writes ((plainRequest name guid data attributes).variableName,
      (plainRequest name guid data attributes).vendorGuid) :=
  Or.inr h

theorem variableServiceSetVariable_writing
    (h : variableServiceSetVariable P env s req = some (status, s')) :
    Moves P env (writing req.Writes (req.isCounterBased = true)
      (isPlatformKey req.variableName req.vendorGuid = true)) s s' := by
  have hlang : ∀ lang, lang = efiPlatformLangVariableName ∨ lang = efiLangVariableName →
      (lang, efiGlobalVariableGuid) ∈ maintainedVariables := by
    rintro lang (rfl | rfl) <;> decide
  refine variableServiceSetVariable_moves P env s req
    (fun lang _ hname _ => Or.inr (hlang lang hname)) ?_ (fun _ _ _ _ => Or.inl rfl)
    (fun hcounter s org => processCounterBased_moves P env s _ _ _ _ ?_
      (fun _ _ _ => Or.inl rfl) org) (fun hpk => ?_) status s' h
  · exact { certDb := fun _ => SetRequest.writes_plain (by decide)
            vendorKeysNv := fun _ => SetRequest.writes_plain (by decide)
            vendorKeys := fun _ => SetRequest.writes_plain (by decide) }
  · exact ⟨hcounter, fun _ => SetRequest.writes_plain (by decide)⟩
  · exact { mode := hpk
            secureBoot := fun _ => SetRequest.writes_plain (by decide)
            secureBootEnable := fun _ => SetRequest.writes_plain (by decide) }

/-- The call of a step. -/
def ServiceEvent.request : ServiceEvent → Option SetRequest
  | .setVariable _ req _ => some req
  | .exitBootServices => none

/-- What every call keeps, and the end of boot services too, holds after a run. -/
theorem service_invariant
    {I : AuthState → Prop} {ok : SetRequest → Prop}
    (hcall : ∀ env s s' req, ok req → Moves P env (writing req.Writes (req.isCounterBased = true)
      (isPlatformKey req.variableName req.vendorGuid = true)) s s' → I s → I s')
    (hexit : ∀ s, I s → I { s with atRuntime := true })
    (hrun : Run (ServiceStep P) s trace s')
    (hok : ∀ x ∈ trace, ∀ req ∈ x.2.request, ok req)
    (hs : I s) :
    I s' := by
  have hkeep : ∀ s event s', I s → (∀ req ∈ event.request, ok req) → ServiceStep P s event s' →
      I s' := by
    intro s event s' hs hevent hstep
    cases hstep with
    | setVariable h =>
        exact hcall _ _ _ _ (hevent _ rfl) (variableServiceSetVariable_writing h) hs
    | exitBootServices => exact hexit s hs
  exact hrun.invariant hkeep hok hs

/-- In a run without a call for `PK` the platform mode stays, and in one without a
counter-based call the public keys stay. -/
theorem setVariable_globals_run
    (hrun : Run (ServiceStep P) s trace s') :
    ((∀ x ∈ trace, ∀ req ∈ x.2.request,
        isPlatformKey req.variableName req.vendorGuid = false) →
      s'.mPlatformMode = s.mPlatformMode) ∧
    ((∀ x ∈ trace, ∀ req ∈ x.2.request, req.isCounterBased = false) →
      s'.mPubKeyStore = s.mPubKeyStore) := by
  constructor
  case left =>
    intro hnone
    refine service_invariant (I := fun x => x.mPlatformMode = s.mPlatformMode)
      (fun env a b req hreq hmoves ha => ?_) (fun _ ha => ha) hrun hnone rfl
    rw [hmoves.mPlatformMode_eq (by rw [hreq]; exact Bool.false_ne_true), ha]
  case right =>
    intro hnone
    refine service_invariant (I := fun x => x.mPubKeyStore = s.mPubKeyStore)
      (fun env a b req hreq hmoves ha => ?_) (fun _ ha => ha) hrun hnone rfl
    rw [hmoves.mPubKeyStore_eq (by rw [hreq]; exact Bool.false_ne_true), ha]

/-- A call creates `C`. -/
theorem setCounter_run :
    Run (ServiceStep authPlatform) initializedState
      [(initializedState, .setVariable acceptingEnvironment (counterRequest 1 10) .success)]
      createdState :=
  .single (.setVariable setCounter_create)

theorem setVariable_globals_run_counter :
    createdState.mPlatformMode = initializedState.mPlatformMode := by
  refine (setVariable_globals_run setCounter_run).1 fun x hx req hreq => ?_
  rw [List.mem_singleton.mp hx] at hreq
  cases hreq
  decide

end Frame

end AuthVariableLib
end Udk
