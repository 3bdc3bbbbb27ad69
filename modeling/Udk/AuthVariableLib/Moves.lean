import Udk.AuthVariableLib.Records

/-!
# Moves of the library

Each function of the library is a sequence of moves: an update of the store, a
question to the crypto library, or a change of a global.  A function that makes
only permitted moves keeps whatever each of them keeps.
-/

namespace Udk
namespace AuthVariableLib

open Variable

/-- What a function is permitted to do. -/
structure Permits where
  update : UpdateRequest → Prop
  /-- Change `mPubKeyStore`. -/
  keys : Prop
  /-- Change the platform mode. -/
  mode : Prop

/-- A permitted move. -/
inductive Move (P : Platform) (env : Environment) (p : Permits) : AuthState → AuthState → Prop
  | update (s : AuthState) (req : UpdateRequest) (hreq : p.update req) :
      Move P env p s (variableExLibUpdateVariable P env s req).2
  | ask (s : AuthState) (query : Query) : Move P env p s (askVerify env s query).2
  | vendor (s : AuthState) (state : UInt8) : Move P env p s { s with mVendorKeyState := state }
  | lang (s : AuthState) (platformLangCodes langCodes : Bool) :
      Move P env p s { s with platformLangCodes, langCodes }
  | keyStore (s : AuthState) (hkeys : p.keys) (entries : List AuthvarKeyDbData) :
      Move P env p s { s with mPubKeyStore := entries }
  | mode (s : AuthState) (hmode : p.mode) (mode : PlatformMode) :
      Move P env p s (withPlatformMode s mode)

/-- A sequence of moves. -/
abbrev Moves (P : Platform) (env : Environment) (p : Permits) : AuthState → AuthState → Prop :=
  Relation.ReflTransGen (Move P env p)

/-- A call that returns has made moves. -/
def MovesTo (P : Platform) (env : Environment) (p : Permits) (s : AuthState)
    (r : Option (EfiStatus × AuthState)) : Prop :=
  ∀ status s', r = some (status, s') → Moves P env p s s'

section Keep

variable {P : Platform} {env : Environment} {p : Permits}
variable {s s' : AuthState}

theorem Moves.keeps
    {I : AuthState → Prop}
    (hmove : ∀ s s', Move P env p s s' → I s → I s')
    (h : Moves P env p s s') (hs : I s) :
    I s' := by
  induction h with
  | refl => exact hs
  | tail _ hmove' ih => exact hmove _ _ hmove' ih

theorem Moves.atRuntime_eq
    (h : Moves P env p s s') :
    s'.atRuntime = s.atRuntime := by
  refine h.keeps (I := fun x => x.atRuntime = s.atRuntime) (fun a b hab ha => ?_) rfl
  rw [← ha]
  cases hab with
  | update req hreq => exact update_atRuntime P env a req
  | ask query | vendor state | lang platformLangCodes langCodes | keyStore hkeys entries
  | mode hmode mode => rfl

theorem Moves.mPlatformMode_eq
    (hmode : ¬p.mode) (h : Moves P env p s s') :
    s'.mPlatformMode = s.mPlatformMode := by
  refine h.keeps (I := fun x => x.mPlatformMode = s.mPlatformMode) (fun a b hab ha => ?_) rfl
  rw [← ha]
  cases hab with
  | update req hreq => exact update_mPlatformMode P env a req
  | ask query | vendor state | lang platformLangCodes langCodes | keyStore hkeys entries => rfl
  | mode hmode' mode => exact absurd hmode' hmode

theorem Moves.mPubKeyStore_eq
    (hkeys : ¬p.keys) (h : Moves P env p s s') :
    s'.mPubKeyStore = s.mPubKeyStore := by
  refine h.keeps (I := fun x => x.mPubKeyStore = s.mPubKeyStore) (fun a b hab ha => ?_) rfl
  rw [← ha]
  cases hab with
  | update req hreq => exact update_mPubKeyStore P env a req
  | ask query => rfl
  | vendor state => rfl
  | lang platformLangCodes langCodes => rfl
  | keyStore hkeys' entries => exact absurd hkeys' hkeys
  | mode hmode mode => rfl

theorem Moves.recordsOf_eq
    {name : Char16Str} {guid : Guid}
    (hne : ∀ req, p.update req → ¬(name = req.variableName ∧ guid = req.vendorGuid))
    (hmode : ¬p.mode ∨ ¬(name = efiSetupModeName ∧ guid = efiGlobalVariableGuid))
    (h : Moves P env p s s') :
    recordsOf s' name guid = recordsOf s name guid := by
  refine h.keeps (I := fun x => recordsOf x name guid = recordsOf s name guid)
    (fun a b hab ha => ?_) rfl
  rw [← ha]
  cases hab with
  | update req hreq => exact recordsOf_update_of_ne P env a req (hne req hreq)
  | ask query | vendor state | lang platformLangCodes langCodes | keyStore hkeys entries => rfl
  | mode hmode' mode =>
      rcases hmode with hmode | hmode
      · exact absurd hmode' hmode
      · exact recordsOf_setFirstByte mode.toByte hmode

end Keep

section Results

variable {P : Platform} {env : Environment} {p : Permits}
variable {s : AuthState}
  {r : Option (EfiStatus × AuthState)} {next : AuthState → Option (EfiStatus × AuthState)}

theorem movesTo_some
    {r : EfiStatus × AuthState}
    (h : Moves P env p s r.2) :
    MovesTo P env p s (some r) := by
  rintro status s' ⟨⟩
  exact h

theorem movesTo_stay
    (status : EfiStatus) :
    MovesTo P env p s (some (status, s)) :=
  movesTo_some Relation.ReflTransGen.refl

theorem movesTo_none :
    MovesTo P env p s none := by
  rintro status s' ⟨⟩

theorem unlessError_eq_some
    {status : EfiStatus} {s' : AuthState}
    (h : unlessError r next = some (status, s')) :
    (r = some (status, s') ∧ status.isError = true) ∨
      ∃ s1, r = some (.success, s1) ∧ next s1 = some (status, s') := by
  unfold unlessError at h
  split at h
  case h_1 => cases h
  case h_2 status1 s1 =>
      split at h
      case isTrue herror =>
          cases h
          exact Or.inl ⟨rfl, herror⟩
      case isFalse herror =>
          rw [Bool.not_eq_true] at herror
          rw [isError_eq_false.mp herror]
          exact Or.inr ⟨s1, rfl, h⟩

theorem MovesTo.unlessError
    (h : MovesTo P env p s r)
    (hnext : ∀ s, MovesTo P env p s (next s)) :
    MovesTo P env p s (unlessError r next) := by
  intro status s' hr
  rcases unlessError_eq_some hr with ⟨hr, -⟩ | ⟨s1, hr, hnext'⟩
  · exact h _ _ hr
  · exact (h _ _ hr).trans (hnext s1 status s' hnext')

theorem moves_update
    {req : UpdateRequest} (hreq : p.update req) :
    Moves P env p s (variableExLibUpdateVariable P env s req).2 :=
  .single (.update s req hreq)

theorem moves_ask
    (query : Query) :
    Moves P env p s (askVerify env s query).2 :=
  .single (.ask s query)

end Results

section Services

/-- The library may update `certdb`. -/
structure AllowsCertDb (p : Permits) : Prop where
  certDb : ∀ data, p.update
    (plainRequest efiCertDbName efiCertDbGuid data variableAttributeNvBsRtAt)

/-- The library may update the vendor key variables. -/
structure AllowsVendorKeys (p : Permits) : Prop where
  vendorKeysNv : ∀ data, p.update
    (plainRequest efiVendorKeysNvVariableName efiVendorKeysNvGuid data
      (variableAttributeNvBs ||| efiVariableTimeBasedAuthenticatedWriteAccess))
  vendorKeys : ∀ data, p.update
    (plainRequest efiVendorKeysVariableName efiGlobalVariableGuid data variableAttributeBsRt)

/-- The library may update `certdb` and the vendor key variables. -/
structure AllowsInternal (p : Permits) : Prop extends AllowsCertDb p, AllowsVendorKeys p

/-- The library may update this variable, without key index and count, with these
attributes or none. -/
def AllowsOwn (p : Permits) (name : Char16Str) (guid : Guid) (attributes : UInt32) : Prop :=
  ∀ data attributes' time, (attributes' = attributes ∨ attributes' = 0) →
    p.update ⟨name, guid, data, attributes', 0, 0, time⟩

/-- The library may update `SecureBoot` and `SecureBootEnable`. -/
structure AllowsSecureBoot (p : Permits) : Prop where
  secureBoot : ∀ data, p.update
    (plainRequest efiSecureBootModeName efiGlobalVariableGuid data variableAttributeBsRt)
  secureBootEnable : ∀ data, p.update
    (plainRequest efiSecureBootEnableName efiSecureBootEnableDisableGuid data
      variableAttributeNvBs)

/-- The library may change the platform mode. -/
structure AllowsMode (p : Permits) : Prop extends AllowsSecureBoot p where
  mode : p.mode

/-- The library may add a key to its database. -/
structure AllowsKeys (p : Permits) : Prop where
  keys : p.keys
  keyDb : ∀ data, p.update
    (plainRequest authvarKeydbName efiAuthenticatedVariableGuid data variableAttributeNvBsRtAw)

variable (P : Platform) (env : Environment) {p : Permits}
variable (s : AuthState) (name : Char16Str) (guid : Guid)

theorem vendorKeyIsModified_moves
    (hvendor : AllowsVendorKeys p) :
    Moves P env p s (vendorKeyIsModified P env s).2 := by
  unfold vendorKeyIsModified
  split
  · exact .refl
  · have hset : Moves P env p s { s with mVendorKeyState := vendorKeysModified } :=
      .single (.vendor s _)
    dsimp only
    split
    · exact hset.trans (moves_update (hvendor.vendorKeysNv _))
    · exact (hset.trans (moves_update (hvendor.vendorKeysNv _))).trans
        (moves_update (hvendor.vendorKeys _))

theorem setCertDb_moves
    (hcert : AllowsCertDb p) (newCertDb : Bytes) :
    Moves P env p s (setCertDb P env s newCertDb).2 :=
  moves_update (hcert.certDb newCertDb)

theorem deleteCertsFromDb_moves
    (hcert : AllowsCertDb p) :
    MovesTo P env p s (deleteCertsFromDb P env s name guid) := by
  unfold deleteCertsFromDb
  split
  · exact movesTo_stay _
  · split
    · exact movesTo_stay _
    · split
      · exact movesTo_stay _
      · split
        · exact movesTo_none
        · exact movesTo_stay _
        · split
          · exact movesTo_none
          · split
            · exact movesTo_stay _
            · exact movesTo_some (setCertDb_moves P env s hcert _)

theorem insertCertsToDb_moves
    (hcert : AllowsCertDb p) (certData : Bytes) :
    MovesTo P env p s (insertCertsToDb P env s name guid certData) := by
  unfold insertCertsToDb
  split
  · exact movesTo_stay _
  · split
    · exact movesTo_stay _
    · split
      · exact movesTo_none
      · exact movesTo_stay _
      · dsimp only
        split
        · exact movesTo_stay _
        · split
          · exact movesTo_none
          · exact movesTo_some (setCertDb_moves P env s hcert _)

theorem updateVariableWithTimeStamp_moves
    {attributes : UInt32} (hown : AllowsOwn p name guid attributes) (data : Bytes)
    (timeStamp : EfiTime) :
    MovesTo P env p s (authServiceInternalUpdateVariableWithTimeStamp P env s name guid
      data attributes timeStamp) := by
  unfold authServiceInternalUpdateVariableWithTimeStamp
  dsimp only
  split
  · exact movesTo_none
  · exact movesTo_some (moves_update (hown _ _ _ (Or.inl rfl)))

theorem updateSecureBoot_moves
    (hsecure : AllowsSecureBoot p) :
    Moves P env p s (updateSecureBoot P env s).2 := by
  unfold updateSecureBoot authServiceInternalUpdateVariable
  dsimp only
  split
  · exact moves_update (hsecure.secureBoot _)
  · split
    · exact (moves_update (hsecure.secureBoot _)).trans (moves_update (hsecure.secureBootEnable _))
    · split
      · exact moves_update (hsecure.secureBoot _)
      · exact (moves_update (hsecure.secureBoot _)).trans
          (moves_update (hsecure.secureBootEnable _))

theorem updatePlatformMode_moves
    (hmode : AllowsMode p) (mode : PlatformMode) :
    Moves P env p s (updatePlatformMode P env s mode).2 := by
  unfold updatePlatformMode
  split
  · exact .refl
  · have hset : Moves P env p s (withPlatformMode s mode) := .single (.mode s hmode.mode mode)
    dsimp only
    split
    · exact hset
    · exact hset.trans (updateSecureBoot_moves P env _ hmode.toAllowsSecureBoot)

theorem trackPlatformMode_moves
    (hmode : AllowsMode p) (del : Bool) :
    Moves P env p s (trackPlatformMode P env s del).2 := by
  unfold trackPlatformMode
  split
  · exact updatePlatformMode_moves P env s hmode _
  · split
    · exact updatePlatformMode_moves P env s hmode _
    · exact .refl

end Services

section TimeBased

variable (P : Platform) (env : Environment) {p : Permits}
variable (s : AuthState) (name : Char16Str) (guid : Guid) (attributes : UInt32)
variable (auth : VariableAuthentication2)

theorem verifyWithCerts_moves
    (certs : List Bytes) :
    Moves P env p s (verifyWithCerts
      (fun s cert => pkcs7Verify env s name guid attributes auth cert) s certs).2 := by
  induction certs generalizing s with
  | nil => exact .refl
  | cons cert certs ih =>
      rw [verifyWithCerts]
      dsimp only
      split
      · exact moves_ask _
      · exact (moves_ask _).trans (ih _)

theorem verifyKek_moves :
    MovesTo P env p s (verifyKek env s name guid attributes auth) := by
  unfold verifyKek
  split
  · exact movesTo_stay _
  · split
    · exact movesTo_none
    · exact movesTo_some (verifyWithCerts_moves P env s name guid attributes auth _)

theorem verifyPk_moves :
    Moves P env p s (verifyPk env s name guid attributes auth).2 := by
  unfold verifyPk
  split
  · exact .refl
  · split
    · exact .refl
    · split
      · exact .refl
      · exact moves_ask _

theorem verifyPkcs7_moves
    (hcert : AllowsCertDb p) (isFound : Bool) {signerCerts rootCert : Bytes}
    {r : Bool × AuthState}
    (hr : (let (answer, s) := pkcs7Verify env s name guid attributes auth rootCert
      if !answer then some (false, s)
      else if !isFound && !auth.payload.isEmpty then
        match insertCertsToDb P env s name guid signerCerts with
        | none => none
        | some (status, s) => some (!status.isError, s)
      else some (true, s)) = some r) :
    Moves P env p s r.2 := by
  have hask : Moves P env p s
      (pkcs7Verify env s name guid attributes auth rootCert).2 := moves_ask _
  dsimp only at hr
  split_ifs at hr
  · cases hr
    exact hask
  · split at hr
    · cases hr
    · rename_i status s1 hinsert
      cases hr
      exact hask.trans (insertCertsToDb_moves P env _ name guid hcert signerCerts _ _ hinsert)
  · cases hr
    exact hask

theorem verifyPrivate_moves
    (hcert : AllowsCertDb p) (isFound : Bool) :
    ∀ answer s', verifyPrivate P env s name guid attributes isFound auth = some (answer, s') →
      Moves P env p s s' := by
  intro answer s' h
  unfold verifyPrivate at h
  split at h
  · cases h
    exact .refl
  · dsimp only at h
    split at h
    · split at h
      · cases h
      · cases h
        exact .refl
      · split at h
        · cases h
          exact .refl
        · exact verifyPkcs7_moves P env s name guid attributes auth hcert isFound h
    · exact verifyPkcs7_moves P env s name guid attributes auth hcert isFound h

theorem verifySignature_moves
    (authVarType : AuthVarType) (hcert : authVarType = .priv → AllowsCertDb p) (isFound : Bool) :
    MovesTo P env p s
      (verifySignature P env s name guid attributes authVarType isFound auth) := by
  cases authVarType with
  | pk => exact movesTo_some (verifyPk_moves P env s name guid attributes auth)
  | kek => exact verifyKek_moves P env s name guid attributes auth
  | priv =>
      intro status s' h
      obtain ⟨⟨answer, s1⟩, hr, hs'⟩ := Option.map_eq_some_iff.mp h
      cases hs'
      exact verifyPrivate_moves P env s name guid attributes auth (hcert rfl) isFound answer _ hr
  | payload => exact movesTo_some (moves_ask _)

theorem verifyTimeBasedPayload_moves
    (authVarType : AuthVarType) (hcert : authVarType = .priv → AllowsCertDb p)
    (orgTimeStamp : Option EfiTime) :
    MovesTo P env p s
      (verifyTimeBasedPayload P env s name guid attributes authVarType orgTimeStamp auth) := by
  unfold verifyTimeBasedPayload
  dsimp only
  split
  · exact movesTo_stay _
  · split
    · exact movesTo_stay _
    · refine (verifySignature_moves P env s name guid attributes auth _ hcert _).unlessError
        (fun s1 => ?_)
      intro status s' h
      obtain ⟨status', -, hs'⟩ := Option.map_eq_some_iff.mp h
      cases hs'
      exact .refl

theorem verifyTimeBasedPayloadAndUpdate_moves
    (hown : AllowsOwn p name guid attributes) (data : Bytes) (authVarType : AuthVarType)
    (hcert : authVarType = .priv → AllowsCertDb p) :
    ∀ status del s', verifyTimeBasedPayloadAndUpdate P env s name guid data attributes
      authVarType = some (status, del, s') → Moves P env p s s' := by
  intro status del s' h
  unfold verifyTimeBasedPayloadAndUpdate at h
  split at h
  · cases h
  · rename_i auth _
    dsimp only at h
    obtain ⟨⟨status1, s1⟩, hr, hs'⟩ := Option.map_eq_some_iff.mp h
    cases hs'
    refine MovesTo.unlessError (verifyTimeBasedPayload_moves P env s name guid attributes auth
      authVarType hcert _) (fun s => ?_) status1 _ hr
    refine (updateVariableWithTimeStamp_moves P env s name guid hown _ _).unlessError
      (fun s => ?_)
    split
    · rename_i hpriv
      rw [Bool.and_eq_true, beq_iff_eq] at hpriv
      exact deleteCertsFromDb_moves P env s name guid (hcert hpriv.2)
    · exact movesTo_stay _

theorem updateUnverified_moves
    (hown : AllowsOwn p name guid attributes) :
    MovesTo P env p s (updateUnverified P env s name guid attributes auth) := by
  refine MovesTo.unlessError (fun status s' h => ?_)
    (fun s => updateVariableWithTimeStamp_moves P env s name guid hown _ _)
  obtain ⟨status', -, hs'⟩ := Option.map_eq_some_iff.mp h
  cases hs'
  exact .refl

end TimeBased

/-- `PK`, `KEK`, `db`, `dbx` or `dbt`. -/
def isKeyVariable (name : Char16Str) (guid : Guid) : Bool :=
  isPlatformKey name guid || isKeyExchangeKey name guid || isImageSecurityDatabase name guid

section Process

variable (P : Platform) (env : Environment) {p : Permits}
variable (s : AuthState) (name : Char16Str) (guid : Guid) (data : Bytes) (attributes : UInt32)

theorem updateWithPk_moves
    (hvendor : AllowsVendorKeys p) (hown : AllowsOwn p name guid attributes) (isPk : Bool) :
    ∀ status del s', updateWithPk P env s name guid data attributes isPk = some (status, del, s') →
      Moves P env p s s' := by
  intro status del s' h
  unfold updateWithPk at h
  split at h
  · split at h
    · cases h
    · rename_i auth _
      obtain ⟨⟨status1, s1⟩, hr, hs'⟩ := Option.map_eq_some_iff.mp h
      cases hs'
      refine MovesTo.unlessError (updateUnverified_moves P env s name guid attributes auth hown)
        (fun s => ?_) _ _ hr
      split
      · exact movesTo_some (vendorKeyIsModified_moves P env s hvendor)
      · exact movesTo_stay _
  · exact verifyTimeBasedPayloadAndUpdate_moves P env s name guid attributes hown data _
      (fun hpriv => absurd hpriv (by cases s.mPlatformMode <;> decide)) _ _ _ h

theorem processVarWithPk_moves
    (hvendor : AllowsVendorKeys p) (hown : AllowsOwn p name guid attributes) (isPk : Bool)
    (hmode : isPk = true → AllowsMode p) :
    MovesTo P env p s (processVarWithPk P env s name guid data attributes isPk) := by
  unfold processVarWithPk
  split
  · exact movesTo_stay _
  · intro status s' h
    obtain ⟨⟨status1, del, s1⟩, hr, hs'⟩ := Option.map_eq_some_iff.mp h
    have h1 : Moves P env p s s1 :=
      updateWithPk_moves P env s name guid data attributes hvendor hown isPk _ _ _ hr
    dsimp only at hs'
    split at hs'
    · rename_i htrack
      rw [Bool.and_eq_true] at htrack
      have h2 : Moves P env p s1 (trackPlatformMode P env s1 del).2 :=
        trackPlatformMode_moves P env s1 (hmode htrack.2) del
      rw [hs'] at h2
      exact h1.trans h2
    · cases hs'
      exact h1

theorem processVarWithKek_moves
    (hvendor : AllowsVendorKeys p) (hown : AllowsOwn p name guid attributes) :
    MovesTo P env p s (processVarWithKek P env s name guid data attributes) := by
  unfold processVarWithKek
  split
  · exact movesTo_stay _
  · split
    · intro status s' h
      obtain ⟨⟨status1, del, s1⟩, hr, hs'⟩ := Option.map_eq_some_iff.mp h
      cases hs'
      exact verifyTimeBasedPayloadAndUpdate_moves P env s name guid attributes hown data _
        (fun hpriv => absurd hpriv (by decide)) _ _ _ hr
    · split
      · exact movesTo_none
      · refine (updateUnverified_moves P env s name guid attributes _ hown).unlessError
          (fun s => ?_)
        split
        · exact movesTo_some (vendorKeyIsModified_moves P env s hvendor)
        · exact movesTo_stay _

theorem processVariable_moves
    (hcert : hasAttribute attributes efiVariableTimeBasedAuthenticatedWriteAccess = true →
      AllowsCertDb p)
    (hown : AllowsOwn p name guid attributes)
    (hcounter : hasAttribute attributes efiVariableAuthenticatedWriteAccess = true →
      ∀ org, MovesTo P env p s (processCounterBased P env s name guid data attributes org)) :
    MovesTo P env p s (processVariable P env s name guid data attributes) := by
  unfold processVariable
  dsimp only
  split
  · refine MovesTo.unlessError (movesTo_some (moves_update (hown _ _ _ (Or.inr rfl)))) (fun s => ?_)
    split
    · rename_i htime
      exact deleteCertsFromDb_moves P env s name guid (hcert htime)
    · exact movesTo_stay _
  · split
    · exact movesTo_stay _
    · split
      · exact movesTo_stay _
      · split
        · exact movesTo_stay _
        · split
          · rename_i htime
            intro status s' h
            obtain ⟨⟨status1, del, s1⟩, hr, hs'⟩ := Option.map_eq_some_iff.mp h
            cases hs'
            exact verifyTimeBasedPayloadAndUpdate_moves P env s name guid attributes hown data _
              (fun _ => hcert htime) _ _ _ hr
          · split
            · rename_i hbased
              exact hcounter hbased _
            · split
              · exact movesTo_stay _
              · exact movesTo_some (moves_update (hown _ _ _ (Or.inl rfl)))

theorem authVariableLibProcessVariable_moves
    (hvendor : AllowsVendorKeys p)
    (hcert : isKeyVariable name guid = false →
      hasAttribute attributes efiVariableTimeBasedAuthenticatedWriteAccess = true → AllowsCertDb p)
    (hown : AllowsOwn p name guid attributes)
    (hcounter : hasAttribute attributes efiVariableAuthenticatedWriteAccess = true →
      ∀ org, MovesTo P env p s (processCounterBased P env s name guid data attributes org))
    (hmode : isPlatformKey name guid = true → AllowsMode p) :
    MovesTo P env p s (authVariableLibProcessVariable P env s name guid data attributes) := by
  unfold authVariableLibProcessVariable
  split
  · rename_i hpk
    exact processVarWithPk_moves P env s name guid data attributes hvendor hown true
      (fun _ => hmode hpk)
  · split
    · exact processVarWithPk_moves P env s name guid data attributes hvendor hown false
        (fun h => absurd h (by decide))
    · split
      · intro status s' h
        split at h
        · cases h
        · rename_i status1 s1 hr
          have h1 : Moves P env p s s1 :=
            processVarWithPk_moves P env s name guid data attributes hvendor hown false
              (fun h => absurd h (by decide)) _ _ hr
          split at h
          · exact h1.trans
              (processVarWithKek_moves P env s1 name guid data attributes hvendor hown _ _ h)
          · cases h
            exact h1
      · rename_i hpk hkek hdb
        exact processVariable_moves P env s name guid data attributes
          (hcert (by simp [isKeyVariable, hpk, hkek, hdb])) hown hcounter

end Process

section Counter

variable (P : Platform) (env : Environment) {p : Permits}
variable (s : AuthState) (name : Char16Str) (guid : Guid) (data : Bytes) (attributes : UInt32)

theorem getAvailableKeyIndex_moves
    (hkeys : p.keys) :
    ∀ keyIndex s', getAvailableKeyIndex P s = some (keyIndex, s') →
      Moves P env p s s' := by
  intro keyIndex s' h
  unfold getAvailableKeyIndex at h
  split at h
  · cases h
    exact .refl
  · split at h
    · split at h
      · cases h
      · rename_i collected _
        have hmove : Moves P env p s { s with mPubKeyStore := collected } :=
          .single (.keyStore s hkeys collected)
        dsimp only at h
        split at h
        · cases h
          exact hmove
        · cases h
          exact hmove
    · cases h
      exact .refl

theorem addPubKeyInStore_moves
    (hkeys : AllowsKeys p) (pubKey : PublicKey) :
    ∀ keyIndex s', addPubKeyInStore P env s pubKey = some (keyIndex, s') →
      Moves P env p s s' := by
  intro keyIndex s' h
  unfold addPubKeyInStore at h
  split at h
  · cases h
    exact .refl
  · split at h
    · cases h
    · rename_i index s1 hindex
      have h1 : Moves P env p s s1 :=
        getAvailableKeyIndex_moves P env s hkeys.keys _ _ hindex
      split at h
      · cases h
        exact h1
      · split at h
        · cases h
          exact h1
        · cases h
          exact (h1.tail (.keyStore s1 hkeys.keys _)).trans (moves_update (hkeys.keyDb _))

theorem verifyCounterBasedPayload_moves
    (auth : VariableAuthentication) :
    Moves P env p s (verifyCounterBasedPayload env s auth).2 := by
  unfold verifyCounterBasedPayload
  split
  · exact .refl
  · exact moves_ask _

theorem keyIndexFor_moves
    (hkeys : AllowsKeys p) (org : Option AuthVariable) (auth : VariableAuthentication) :
    ∀ keyIndex s', keyIndexFor P env s org auth = some (keyIndex, s') → Moves P env p s s' := by
  intro keyIndex s' h
  unfold keyIndexFor at h
  split at h
  · cases h
    exact .refl
  · split at h
    · cases h
      exact .refl
    · split at h
      · cases h
      · rename_i index s1 hadd
        cases h
        exact addPubKeyInStore_moves P env s hkeys _ _ _ hadd

theorem processCounterBased_moves
    (hkeys : AllowsKeys p)
    (hown : ∀ data keyIndex count, p.update ⟨name, guid, data, attributes, keyIndex, count, none⟩)
    (org : Option AuthVariable) :
    MovesTo P env p s (processCounterBased P env s name guid data attributes org) := by
  unfold processCounterBased
  split
  · exact movesTo_none
  · rename_i auth _
    split
    · exact movesTo_stay _
    · refine (movesTo_some (verifyCounterBasedPayload_moves P env s auth)).unlessError
        (fun s => ?_)
      split
      · exact movesTo_none
      · rename_i s1 hr
        exact movesTo_some (keyIndexFor_moves P env s hkeys org auth _ _ hr)
      · rename_i keyIndex s1 hr
        exact movesTo_some
          ((keyIndexFor_moves P env s hkeys org auth _ _ hr).trans (moves_update (hown _ _ _)))

end Counter

section SetVariable

variable (P : Platform) (env : Environment) {p : Permits}
variable (s : AuthState) (name : Char16Str) (data : Bytes)

/-- The hook may set the other language variable. -/
def AllowsLang (p : Permits) (name : Char16Str) : Prop :=
  ∀ lang data, (lang = efiPlatformLangVariableName ∨ lang = efiLangVariableName) → lang ≠ name →
    p.update (plainRequest lang efiGlobalVariableGuid data variableAttributeNvBsRt)

theorem updateOtherLang_moves
    {lang : Char16Str}
    (hlang : ∀ data, p.update (plainRequest lang efiGlobalVariableGuid data variableAttributeNvBsRt))
    (best : Option Bytes) :
    Moves P env p s (updateOtherLang P env s lang best).2 := by
  unfold updateOtherLang
  split
  · exact .refl
  · split
    · exact .refl
    · exact moves_update (hlang _)

theorem decidingLang_name
    {s : AuthState} {name : Char16Str} {data : Bytes} {setLanguageCodes : Bool}
    {deciding : Char16Str × Bytes}
    (h : decidingLang s name data setLanguageCodes = some deciding) :
    deciding.1 = name ∨ setLanguageCodes = true := by
  unfold decidingLang at h
  split at h
  · rename_i hset
    rw [Bool.and_eq_true, Bool.and_eq_true] at hset
    exact Or.inr hset.1.1
  · cases h
    exact Or.inl rfl

theorem autoUpdateLangVariable_moves
    (hlang : AllowsLang p name) :
    Moves P env p s (autoUpdateLangVariable P env s name data).2 := by
  unfold autoUpdateLangVariable
  dsimp only
  split
  · exact .refl
  · split
    · exact .refl
    · have hset : ∀ platformLangCodes langCodes, Moves P env p s
          { s with platformLangCodes, langCodes } := fun _ _ => .single (.lang s _ _)
      split
      · exact hset _ _
      · rename_i deciding lang hdeciding
        -- The variable that is set is not the one of the request.
        have hne : ∀ {other : Char16Str}, deciding ≠ other →
            other = efiPlatformLangVariableName ∨ other = efiLangVariableName → other ≠ name := by
          intro other hother hcase hname
          rcases decidingLang_name hdeciding with h | h
          · exact hother (h.trans hname.symm)
          · rw [Bool.or_eq_true, beq_iff_eq, beq_iff_eq, ← hname] at h
            rcases hcase with rfl | rfl <;> revert h <;> decide
        dsimp only
        split
        · rename_i hcase
          simp only [Bool.and_eq_true, beq_iff_eq] at hcase
          refine (hset _ _).trans
            (updateOtherLang_moves P env _ (fun _ => hlang _ _ (Or.inr rfl) ?_) _)
          exact hne (by rw [hcase.2]; decide) (Or.inr rfl)
        · split
          · rename_i hcase
            simp only [Bool.and_eq_true, beq_iff_eq] at hcase
            refine (hset _ _).trans
              (updateOtherLang_moves P env _ (fun _ => hlang _ _ (Or.inl rfl) ?_) _)
            exact hne (by rw [hcase.2]; decide) (Or.inl rfl)
          · exact hset _ _

theorem langHook_moves
    (req : SetRequest) (hlang : AllowsLang p req.variableName) :
    Moves P env p s (langHook P env s req).2 := by
  unfold langHook
  split
  · exact .refl
  · exact autoUpdateLangVariable_moves P env s req.variableName req.data hlang

theorem variableServiceSetVariable_cases
    {P : Platform} {env : Environment} {s s' : AuthState} {req : SetRequest} {status : EfiStatus}
    (h : variableServiceSetVariable P env s req = some (status, s')) :
    (status.isError = true ∧ (s' = s ∨ s' = (langHook P env s req).2)) ∨
      (checkRequest P env s req = .success ∧ (langHook P env s req).1 = .success ∧
        authVariableLibProcessVariable P env (langHook P env s req).2 req.variableName
          req.vendorGuid req.data req.attributes = some (status, s')) := by
  unfold variableServiceSetVariable at h
  split at h
  case isTrue herror =>
      cases h
      exact Or.inl ⟨herror, Or.inl rfl⟩
  case isFalse herror =>
      rw [Bool.not_eq_true] at herror
      rcases unlessError_eq_some h with ⟨hhook, herror'⟩ | ⟨s1, hhook, hprocess⟩
      · rw [Option.some.injEq] at hhook
        exact Or.inl ⟨herror', Or.inr (by rw [hhook])⟩
      · rw [Option.some.injEq] at hhook
        rw [hhook]
        exact Or.inr ⟨isError_eq_false.mp herror, rfl, hprocess⟩

theorem variableServiceSetVariable_moves
    (req : SetRequest) (hlang : AllowsLang p req.variableName) (hint : AllowsInternal p)
    (hown : AllowsOwn p req.variableName req.vendorGuid req.attributes)
    (hcounter : hasAttribute req.attributes efiVariableAuthenticatedWriteAccess = true →
      ∀ s org, MovesTo P env p s (processCounterBased P env s req.variableName req.vendorGuid
        req.data req.attributes org))
    (hmode : isPlatformKey req.variableName req.vendorGuid = true → AllowsMode p) :
    MovesTo P env p s (variableServiceSetVariable P env s req) := by
  intro status s' h
  have hhook : Moves P env p s (langHook P env s req).2 := langHook_moves P env s req hlang
  rcases variableServiceSetVariable_cases h with ⟨-, rfl | rfl⟩ | ⟨-, -, hprocess⟩
  · exact .refl
  · exact hhook
  · exact hhook.trans (authVariableLibProcessVariable_moves P env _ req.variableName req.vendorGuid
      req.data req.attributes hint.toAllowsVendorKeys (fun _ _ => hint.toAllowsCertDb) hown
      (fun hbased => hcounter hbased _) hmode _ _ hprocess)

end SetVariable

section Initialize

/-- The variables that the initialization writes besides its internal ones. -/
def initVariables : List (Char16Str × Guid) :=
  [(efiSetupModeName, efiGlobalVariableGuid), (efiSignatureSupportName, efiGlobalVariableGuid),
    (efiSecureBootEnableName, efiSecureBootEnableDisableGuid),
    (efiSecureBootModeName, efiGlobalVariableGuid), (efiCustomModeName, efiCustomModeEnableGuid)]

/-- The initialization may update its variables. -/
structure AllowsInit (p : Permits) : Prop extends AllowsInternal p where
  initial : ∀ x ∈ initVariables, ∀ data attributes,
    p.update (plainRequest x.1 x.2 data attributes)

variable (P : Platform) (env : Environment) {p : Permits}
variable (s : AuthState)

theorem setByte_moves
    {name : Char16Str} {guid : Guid} (hinit : AllowsInit p)
    (hname : (name, guid) ∈ initVariables) (byte : UInt8) (attributes : UInt32) :
    Moves P env p s (setByte P env s name guid byte attributes).2 :=
  moves_update (hinit.initial _ hname _ _)

theorem initSecureBootEnable_moves
    (hinit : AllowsInit p) :
    Moves P env p s (initSecureBootEnable P env s).2.2 := by
  have hname : (efiSecureBootEnableName, efiSecureBootEnableDisableGuid) ∈ initVariables := by
    decide
  unfold initSecureBootEnable
  split
  · split
    · exact moves_update (hinit.initial _ hname _ _)
    · exact .refl
  · split
    · exact .refl
    · exact setByte_moves P env s hinit hname _ _

theorem cleanCertsLoop_moves
    (hcert : AllowsCertDb p) (fuel : Nat) :
    MovesTo P env p s (cleanCertsLoop P env fuel s) := by
  induction fuel generalizing s with
  | zero => exact movesTo_none
  | succ fuel ih =>
      unfold cleanCertsLoop
      split
      · exact movesTo_stay _
      · split
        · exact movesTo_stay _
        · split
          · exact movesTo_none
          · exact movesTo_stay _
          · split
            · exact movesTo_none
            · rename_i status s1 hdelete
              intro status' s' h
              exact (deleteCertsFromDb_moves P env s _ _ hcert _ _ hdelete).trans (ih _ _ _ h)

theorem initCertDb_moves
    (hcert : AllowsCertDb p) (fuel : Nat) :
    MovesTo P env p s (initCertDb P env s fuel) := by
  unfold initCertDb
  split
  · exact movesTo_some (setCertDb_moves P env s hcert _)
  · exact cleanCertsLoop_moves P env s hcert fuel

theorem initVendorKeys_moves
    (hvendor : AllowsVendorKeys p) :
    Moves P env p s (initVendorKeys P env s).2 := by
  unfold initVendorKeys
  split
  · exact .single (.vendor s _)
  · have hset : Moves P env p s { s with mVendorKeyState := 1 } := .single (.vendor s 1)
    exact hset.trans (moves_update (hvendor.vendorKeysNv _))

theorem initSecureBoot_moves
    (hinit : AllowsInit p) (fuel : Nat) :
    MovesTo P env p s (initSecureBoot P env s fuel) := by
  unfold initSecureBoot
  refine (movesTo_some (initSecureBootEnable_moves P env s hinit)).unlessError (fun s => ?_)
  refine (movesTo_some (setByte_moves P env s hinit (by decide) _ _)).unlessError (fun s => ?_)
  refine (movesTo_some (setByte_moves P env s hinit (by decide) _ _)).unlessError (fun s => ?_)
  refine (initCertDb_moves P env s hinit.toAllowsCertDb fuel).unlessError (fun s => ?_)
  refine (movesTo_some (initVendorKeys_moves P env s hinit.toAllowsVendorKeys)).unlessError
    (fun s => ?_)
  exact movesTo_some (moves_update (hinit.vendorKeys _))

theorem authVariableLibInitialize_cases
    {P : Platform} {env : Environment} {s s' : AuthState} {fuel : Nat}
    (hinit : AllowsInit p)
    (h : authVariableLibInitialize P env s fuel = some (.success, s')) :
    ∃ s1, initKeyDatabase P env s = (.success, s1) ∧
      Moves P env p (initPlatformMode s1) s' := by
  unfold authVariableLibInitialize at h
  rcases unlessError_eq_some h with ⟨-, herror⟩ | ⟨s1, hkeys, h⟩
  · exact absurd herror (by decide)
  · refine ⟨s1, Option.some.inj hkeys, ?_⟩
    refine MovesTo.unlessError (movesTo_some (setByte_moves P env _ hinit (by decide) _ _))
      (fun s => ?_) _ _ h
    refine MovesTo.unlessError
      (movesTo_some (moves_update (hinit.initial (efiSignatureSupportName, efiGlobalVariableGuid)
        (by decide) _ _))) (fun s => ?_)
    exact initSecureBoot_moves P env s hinit fuel

end Initialize

end AuthVariableLib
end Udk
