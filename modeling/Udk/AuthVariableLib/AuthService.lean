import Udk.AuthVariableLib.CertDb

/-!
# Authentication services

The functions of `AuthService.c` over the store of `Udk.AuthVariableLib.Context`.
A function that may read outside its data, or not end, on some input returns
`none` there.
-/

namespace Udk
namespace AuthVariableLib

open Variable

/-- `VARIABLE_ATTRIBUTE_NV_BS`. -/
def variableAttributeNvBs : UInt32 :=
  efiVariableNonVolatile ||| efiVariableBootserviceAccess

/-- `VARIABLE_ATTRIBUTE_NV_BS_RT_AW`. -/
def variableAttributeNvBsRtAw : UInt32 :=
  variableAttributeNvBsRt ||| efiVariableAuthenticatedWriteAccess

/-- Attributes of the volatile variables the library publishes. -/
def variableAttributeBsRt : UInt32 :=
  efiVariableBootserviceAccess ||| efiVariableRuntimeAccess

section Update

variable (P : Platform) (env : Environment) (s : AuthState)

/-- `AuthServiceInternalUpdateVariable`. -/
def authServiceInternalUpdateVariable (name : Char16Str) (guid : Guid) (data : Bytes)
    (attributes : UInt32) : EfiStatus × AuthState :=
  variableExLibUpdateVariable P env s (plainRequest name guid data attributes)

/-- `AuthServiceInternalUpdateVariableWithTimeStamp`: an append to `KEK`, `db`, `dbx` or
`dbt` leaves out the signatures that are already there. -/
def authServiceInternalUpdateVariableWithTimeStamp (name : Char16Str) (guid : Guid)
    (data : Bytes) (attributes : UInt32) (timeStamp : EfiTime) :
    Option (EfiStatus × AuthState) :=
  let filtered :=
    match variableExLibFindVariable s name guid with
    | none => some data
    | some org =>
        if hasAttribute attributes efiVariableAppendWrite &&
            (isImageSecurityDatabase name guid || isKeyExchangeKey name guid) then
          filterSignatureList P org.data data
        else some data
  match filtered with
  | none => none
  | some data =>
      some (variableExLibUpdateVariable P env s
        ⟨name, guid, data, attributes, 0, 0, some timeStamp⟩)

end Update

section Modes

variable (P : Platform) (env : Environment) (s : AuthState)

/-- `NeedPhysicallyPresent`. -/
def needPhysicallyPresent (name : Char16Str) (guid : Guid) : Bool :=
  (guid == efiSecureBootEnableDisableGuid && name == efiSecureBootEnableName) ||
    (guid == efiCustomModeEnableGuid && name == efiCustomModeName)

/-- `InCustomMode`; `CUSTOM_SECURE_BOOT_MODE` is 1. -/
def inCustomMode : Bool :=
  match variableExLibFindVariable s efiCustomModeName efiCustomModeEnableGuid with
  | none => false
  | some v => v.data.getD 0 0 == 1

/-- Overwrite the first data byte of the variable that is found, in place. -/
def setFirstByte (name : Char16Str) (guid : Guid) (byte : UInt8) : AuthState :=
  { s with
    vars := s.vars.replaceF (fun v =>
      if v.isFound name guid false s.atRuntime then
        some { v with data := copyMem v.data 0 [byte] }
      else none) }

/-- The value of `SecureBoot` that goes with the platform mode. -/
def secureBootMode : UInt8 :=
  if (variableExLibFindVariable s efiSecureBootModeName efiGlobalVariableGuid).isNone then 0
  else
    match s.mPlatformMode with
    | .userMode => 1
    | .setupMode => 0

/-- The part of `UpdatePlatformMode` for boot time: `SecureBoot` and `SecureBootEnable`. -/
def updateSecureBoot : EfiStatus × AuthState :=
  let byte := secureBootMode s
  let (status, s) := authServiceInternalUpdateVariable P env s efiSecureBootModeName
    efiGlobalVariableGuid [byte] variableAttributeBsRt
  if status.isError then (status, s)
  else if byte = 1 then
    authServiceInternalUpdateVariable P env s efiSecureBootEnableName
      efiSecureBootEnableDisableGuid [1] variableAttributeNvBs
  else if (variableExLibFindVariable s efiSecureBootEnableName
      efiSecureBootEnableDisableGuid).isNone then (.success, s)
  else
    authServiceInternalUpdateVariable P env s efiSecureBootEnableName
      efiSecureBootEnableDisableGuid [] variableAttributeNvBs

/-- The state in which `UpdatePlatformMode` has set the mode. -/
def withPlatformMode (mode : PlatformMode) : AuthState :=
  { setFirstByte s efiSetupModeName efiGlobalVariableGuid mode.toByte with mPlatformMode := mode }

/-- `UpdatePlatformMode`. -/
def updatePlatformMode (mode : PlatformMode) : EfiStatus × AuthState :=
  match variableExLibFindVariable s efiSetupModeName efiGlobalVariableGuid with
  | none => (.notFound, s)
  | some _ =>
      let s := withPlatformMode s mode
      if s.atRuntime then (.success, s) else updateSecureBoot P env s

/-- `VENDOR_KEYS_MODIFIED`. -/
def vendorKeysModified : UInt8 := 0

/-- `VendorKeyIsModified`. -/
def vendorKeyIsModified : EfiStatus × AuthState :=
  if s.mVendorKeyState = vendorKeysModified then (.success, s)
  else
    let s := { s with mVendorKeyState := vendorKeysModified }
    let (status, s) := authServiceInternalUpdateVariable P env s efiVendorKeysNvVariableName
      efiVendorKeysNvGuid [vendorKeysModified]
      (variableAttributeNvBs ||| efiVariableTimeBasedAuthenticatedWriteAccess)
    if status.isError then (status, s)
    else
      authServiceInternalUpdateVariable P env s efiVendorKeysVariableName
        efiGlobalVariableGuid [vendorKeysModified] variableAttributeBsRt

end Modes

section KeyDatabase

/-- `sizeof (AUTHVAR_KEY_DB_DATA)`. -/
def keyDbDataSize : Nat := 260

/-- The entry as it is stored. -/
def AuthvarKeyDbData.bytes (entry : AuthvarKeyDbData) : Bytes :=
  toLE 4 entry.keyIndex.toNat ++ entry.keyData.bytes

/-- The entry at an address. -/
def AuthvarKeyDbData.read (mem : Bytes) : AuthvarKeyDbData :=
  ⟨UInt32.ofNat (field mem 0 4),
    ⟨(mem.drop 4 ++ List.replicate 256 0).take 256, by
      rw [List.length_take, List.length_append, List.length_replicate]
      omega⟩⟩

/-- The first entries of a database. -/
def readKeyDb (data : Bytes) (number : Nat) : List AuthvarKeyDbData :=
  (List.range number).map (fun i => .read (data.drop (keyDbDataSize * i)))

/-- The entries that the loops over `Ptr < Data + DataSize` visit. -/
def keyDbEntries (data : Bytes) : List AuthvarKeyDbData :=
  readKeyDb data ((data.length + (keyDbDataSize - 1)) / keyDbDataSize)

/-- The contents of `AuthVarKeyDatabase` for these entries. -/
def keyDbBytes (entries : List AuthvarKeyDbData) : Bytes :=
  entries.flatMap AuthvarKeyDbData.bytes

/-- The first entry with an index. -/
def findKey (entries : List AuthvarKeyDbData) (keyIndex : UInt32) : Option AuthvarKeyDbData :=
  entries.find? (·.keyIndex == keyIndex)

variable (P : Platform) (env : Environment) (s : AuthState)

/-- `mMaxKeyNumber`. -/
def mMaxKeyNumber : Nat :=
  (uintnSub P.maxAuthVariableSize authvarKeydbName.strSize % 2 ^ 32) / keyDbDataSize

/-- Keep the key of one enumerated variable. -/
def collectKey (db collected : List AuthvarKeyDbData) (v : AuthVariable) :
    List AuthvarKeyDbData :=
  if v.pubKeyIndex = 0 then collected
  else
    match findKey db v.pubKeyIndex with
    | none => collected
    | some entry =>
        if (findKey collected v.pubKeyIndex).isSome then collected else collected ++ [entry]

/-- Collect the keys of the variables behind this one; the first argument is fuel. -/
def collectKeys (db : List AuthvarKeyDbData) :
    Nat → Char16Str → Guid → List AuthvarKeyDbData → Option (List AuthvarKeyDbData)
  | 0, _, _, _ => none
  | fuel + 1, name, guid, collected =>
      match variableExLibFindNextVariable s name guid with
      | none => some collected
      | some v => collectKeys db fuel v.variableName v.vendorGuid (collectKey db collected v)

/-- The smallest index from 1 on that no entry has. -/
def firstFreeIndex (entries : List AuthvarKeyDbData) : UInt32 :=
  UInt32.ofNat
    ((((List.range (mMaxKeyNumber P)).map (· + 1)).find?
      (fun index => !entries.any (·.keyIndex.toNat == index))).getD (mMaxKeyNumber P + 1))

/-- `GetAvailableKeyIndex`; index 0 says that there is none. -/
def getAvailableKeyIndex : Option (UInt32 × AuthState) :=
  match variableExLibFindVariable s authvarKeydbName efiAuthenticatedVariableGuid with
  | none => some (0, s)
  | some keydb =>
      if s.mPubKeyStore.length = mMaxKeyNumber P then
        match collectKeys s (keyDbEntries keydb.data) (s.vars.length + 1) ⟨[], by simp⟩
            ⟨List.replicate 16 0, by simp⟩ [] with
        | none => none
        | some collected =>
            let s := { s with mPubKeyStore := collected }
            if collected.length = mMaxKeyNumber P then some (0, s)
            else some (firstFreeIndex P collected, s)
      else some (firstFreeIndex P s.mPubKeyStore, s)

/-- `AddPubKeyInStore`. -/
def addPubKeyInStore (pubKey : PublicKey) : Option (UInt32 × AuthState) :=
  match s.mPubKeyStore.find? (·.keyData == pubKey) with
  | some entry => some (entry.keyIndex, s)
  | none =>
      match getAvailableKeyIndex P s with
      | none => none
      | some (keyIndex, s) =>
          if keyIndex = 0 then some (0, s)
          else if !env.remainingSpace s.events then some (0, s)
          else
            -- The entry stays in memory when the update below fails.
            let s := { s with mPubKeyStore := s.mPubKeyStore ++ [⟨keyIndex, pubKey⟩] }
            let (status, s) := authServiceInternalUpdateVariable P env s authvarKeydbName
              efiAuthenticatedVariableGuid (keyDbBytes s.mPubKeyStore) variableAttributeNvBsRtAw
            some (if status.isError then 0 else keyIndex, s)

end KeyDatabase

section CounterBased

variable (P : Platform) (env : Environment) (s : AuthState)

/-- What the digest of a counter-based request covers. -/
def counterMessage (payload : Bytes) (monotonicCount : UInt64) : Bytes :=
  payload ++ toLE 8 payload.length ++ toLE 8 monotonicCount.toNat

/-- `VerifyCounterBasedPayload`. -/
def verifyCounterBasedPayload (auth : VariableAuthentication) : EfiStatus × AuthState :=
  if auth.wCertificateType != winCertTypeEfiGuid ||
      auth.certType != efiCertTypeRsa2048Sha256Guid then (.securityViolation, s)
  else
    let (answer, s) := askVerify env s
      (.rsaPkcs1Verify auth.publicKey (counterMessage auth.payload auth.monotonicCount)
        auth.signature)
    (if answer then .success else .securityViolation, s)

/-- The checks on a variable that already is counter-based. -/
def passesKeyAndCount (org : AuthVariable) (auth : VariableAuthentication) : Bool :=
  org.pubKeyIndex != 0 &&
    (findKey s.mPubKeyStore org.pubKeyIndex).any (·.keyData == auth.publicKey) &&
    decide (org.monotonicCount < auth.monotonicCount)

/-- The key index for the new record; index 0 says that there is no room for the key. -/
def keyIndexFor (old : Option AuthVariable) (auth : VariableAuthentication) :
    Option (Option UInt32 × AuthState) :=
  match old with
  | some org => some (some org.pubKeyIndex, s)
  | none =>
      if auth.payload.isEmpty then some (some 0, s)
      else
        match addPubKeyInStore P env s auth.publicKey with
        | none => none
        | some (keyIndex, s) => some (if keyIndex = 0 then none else some keyIndex, s)

/-- The part of `ProcessVariable` for a counter-based request; `org` is the variable when
it already is counter-based. -/
def processCounterBased (name : Char16Str) (guid : Guid) (data : Bytes) (attributes : UInt32)
    (org : Option AuthVariable) : Option (EfiStatus × AuthState) :=
  match readAuthentication data with
  | none => none
  | some auth =>
      if !org.all (fun org => passesKeyAndCount s org auth) then some (.securityViolation, s)
      else
        unlessError (some (verifyCounterBasedPayload env s auth)) (fun s =>
          match keyIndexFor P env s org auth with
          | none => none
          | some (none, s) => some (.outOfResources, s)
          | some (some keyIndex, s) =>
              some (variableExLibUpdateVariable P env s
                ⟨name, guid, auth.payload, attributes, keyIndex, auth.monotonicCount, none⟩))

end CounterBased

section TimeBased

/-- `AUTHVAR_TYPE`. -/
inductive AuthVarType where
  | pk
  | kek
  | priv
  | payload
deriving DecidableEq

variable (P : Platform) (env : Environment) (s : AuthState)

/-- The buffer that a signature of a time-based request covers. -/
def timeBasedMessage (name : Char16Str) (guid : Guid) (attributes : UInt32)
    (auth : VariableAuthentication2) : Bytes :=
  char16Bytes name.chars ++ guid.bytes ++ toLE 4 attributes.toNat ++ auth.timeStamp.bytes ++
    auth.payload

/-- Ask about the signature of a time-based request. -/
def pkcs7Verify (name : Char16Str) (guid : Guid) (attributes : UInt32)
    (auth : VariableAuthentication2) (rootCert : Bytes) : Bool × AuthState :=
  askVerify env s (.pkcs7Verify auth.sigData rootCert (timeBasedMessage name guid attributes auth))

/-- Try the certificates in order, up to one that verifies. -/
def verifyWithCerts (ask : AuthState → Bytes → Bool × AuthState) :
    AuthState → List Bytes → Bool × AuthState
  | s, [] => (false, s)
  | s, cert :: certs =>
      let (answer, s) := ask s cert
      if answer then (true, s) else verifyWithCerts ask s certs

/-- The certificates of the X.509 lists of `KEK` in order; the first argument is fuel. -/
def kekCerts : Nat → Bytes → Option (List Bytes)
  | 0, _ => none
  | fuel + 1, mem =>
      let l := readSignatureList mem
      if mem.length = 0 || decide (mem.length < l.signatureListSize) then some []
      else if l.signatureType == efiCertX509Guid then
        if l.signatureSize = 0 then none
        else
          (kekCerts fuel (mem.drop l.signatureListSize)).map
            (fun rest => (List.range l.signatureCount).map (l.certAt mem) ++ rest)
      else kekCerts fuel (mem.drop l.signatureListSize)

/-- The first certificate of signature list data. -/
def firstCert (data : Bytes) : Bytes :=
  (readSignatureList data).certAt data 0

/-- `FirstCert` has this size and content. -/
def isFirstCert (data cert : Bytes) : Bool :=
  cert.length == (readSignatureList data).certSize && firstCert data == cert

/-- The verification of a private variable, with the certificates in `certdb`: those of an
existing variable are compared, those of a new one are inserted. -/
def verifyPrivate (name : Char16Str) (guid : Guid) (attributes : UInt32)
    (isFound : Bool) (auth : VariableAuthentication2) : Option (Bool × AuthState) :=
  match env.pkcs7GetSigners s.events auth.sigData with
  | none => some (false, s)
  | some (signerCerts, rootCert) =>
      let verify (_ : Unit) : Option (Bool × AuthState) :=
        let (answer, s) := pkcs7Verify env s name guid attributes auth rootCert
        if !answer then some (false, s)
        else if !isFound && !auth.payload.isEmpty then
          match insertCertsToDb P env s name guid signerCerts with
          | none => none
          | some (status, s) => some (!status.isError, s)
        else some (true, s)
      if isFound then
        match getCertsFromDb s name guid with
        | none => none
        | some (.error _) => some (false, s)
        | some (.ok certsInCertDb) =>
            if signerCerts != certsInCertDb then some (false, s) else verify ()
      else verify ()

/-- The verification against a certificate of `KEK`. -/
def verifyKek (name : Char16Str) (guid : Guid) (attributes : UInt32)
    (auth : VariableAuthentication2) : Option (EfiStatus × AuthState) :=
  match variableExLibFindVariable s efiKeyExchangeKeyName efiGlobalVariableGuid with
  | none => some (.notFound, s)
  | some kek =>
      match kekCerts (kek.data.length + 1) kek.data with
      | none => none
      | some certs =>
          let (answer, s) :=
            verifyWithCerts (fun s cert => pkcs7Verify env s name guid attributes auth cert) s certs
          some (if answer then .success else .securityViolation, s)

/-- The verification against the first certificate of `PK`. -/
def verifyPk (name : Char16Str) (guid : Guid) (attributes : UInt32)
    (auth : VariableAuthentication2) : Bool × AuthState :=
  match env.pkcs7GetSigners s.events auth.sigData with
  | none => (false, s)
  | some (_, rootCert) =>
      match variableExLibFindVariable s efiPlatformKeyName efiGlobalVariableGuid with
      | none => (false, s)
      | some pk =>
          if !isFirstCert pk.data rootCert then (false, s)
          else pkcs7Verify env s name guid attributes auth rootCert

/-- `Exit` of `VerifyTimeBasedPayload` for a verification answer. -/
def ofAnswer (r : Bool × AuthState) : EfiStatus × AuthState :=
  (if r.1 then .success else .securityViolation, r.2)

/-- The verification of `VerifyTimeBasedPayload` by the type of the variable. -/
def verifySignature (name : Char16Str) (guid : Guid) (attributes : UInt32)
    (authVarType : AuthVarType) (isFound : Bool) (auth : VariableAuthentication2) :
    Option (EfiStatus × AuthState) :=
  match authVarType with
  | .pk => some (ofAnswer (verifyPk env s name guid attributes auth))
  | .kek => verifyKek env s name guid attributes auth
  | .priv => (verifyPrivate P env s name guid attributes isFound auth).map ofAnswer
  | .payload =>
      some (ofAnswer (pkcs7Verify env s name guid attributes auth (firstCert auth.payload)))

/-- The checks of `VerifyTimeBasedPayload` before the signature. -/
def descriptorAllowed (attributes : UInt32) (orgTimeStamp : Option EfiTime)
    (auth : VariableAuthentication2) : Bool :=
  auth.timeStamp.pad1 == 0 && auth.timeStamp.nanosecond == 0 && auth.timeStamp.timeZone == 0 &&
    auth.timeStamp.daylight == 0 && auth.timeStamp.pad2 == 0 &&
    (hasAttribute attributes efiVariableAppendWrite ||
      !orgTimeStamp.any (variableCompareTimeStamp auth.timeStamp)) &&
    auth.wCertificateType == winCertTypeEfiGuid && auth.certType == efiCertPkcs7Guid

/-- `VerifyTimeBasedPayload`; `orgTimeStamp` is `none` when the variable is not found. -/
def verifyTimeBasedPayload (name : Char16Str) (guid : Guid) (attributes : UInt32)
    (authVarType : AuthVarType) (orgTimeStamp : Option EfiTime)
    (auth : VariableAuthentication2) : Option (EfiStatus × AuthState) :=
  let newDataSize := auth.payload.length + 16 + 4 + 16 + name.strSize - 2
  if !descriptorAllowed attributes orgTimeStamp auth then some (.securityViolation, s)
  else if !variableExLibGetScratchBuffer P newDataSize then some (.outOfResources, s)
  else
    unlessError
      (verifySignature P env s name guid attributes authVarType orgTimeStamp.isSome auth)
      (fun s => (checkSignatureListFormat env name guid auth.payload).map (fun status => (status, s)))

/-- `VerifyTimeBasedPayloadAndUpdate`, with `VarDel`. -/
def verifyTimeBasedPayloadAndUpdate (name : Char16Str) (guid : Guid) (data : Bytes)
    (attributes : UInt32) (authVarType : AuthVarType) :
    Option (EfiStatus × Bool × AuthState) :=
  match readAuthentication2 data with
  | none => none
  | some auth =>
      let org := variableExLibFindVariable s name guid
      let isDel := org.isSome && auth.payload.isEmpty &&
        !hasAttribute attributes efiVariableAppendWrite
      let result :=
        unlessError
          (verifyTimeBasedPayload P env s name guid attributes authVarType
            (org.map AuthVariable.timeStamp) auth) (fun s =>
        unlessError
          (authServiceInternalUpdateVariableWithTimeStamp P env s name guid auth.payload
            attributes auth.timeStamp) (fun s =>
        if isDel && authVarType == .priv then deleteCertsFromDb P env s name guid
        else some (.success, s)))
      result.map (fun (status, s) => (status, isDel && !status.isError, s))

end TimeBased

section Process

variable (P : Platform) (env : Environment) (s : AuthState)
variable (name : Char16Str) (guid : Guid) (data : Bytes) (attributes : UInt32)

/-- The attribute check of `ProcessVarWithPk` and `ProcessVarWithKek`. -/
def hasKeyAttributes : Bool :=
  hasAttribute attributes efiVariableNonVolatile &&
    hasAttribute attributes efiVariableTimeBasedAuthenticatedWriteAccess

/-- Update without verification, after the format check. -/
def updateUnverified (auth : VariableAuthentication2) : Option (EfiStatus × AuthState) :=
  unlessError
    ((checkSignatureListFormat env name guid auth.payload).map (fun status => (status, s)))
    (fun s => authServiceInternalUpdateVariableWithTimeStamp P env s name guid auth.payload
      attributes auth.timeStamp)

/-- `InCustomMode () && UserPhysicalPresent ()`. -/
def isCustom : Bool :=
  inCustomMode s && env.userPhysicalPresent

/-- In user mode `PK` verifies, in setup mode a certificate in the payload. -/
def pkVerification : PlatformMode → AuthVarType
  | .userMode => .pk
  | .setupMode => .payload

/-- The first part of `ProcessVarWithPk`: the update, and whether it deletes. -/
def updateWithPk (isPk : Bool) : Option (EfiStatus × Bool × AuthState) :=
  if isCustom env s || (s.mPlatformMode == .setupMode && !isPk) then
    match readAuthentication2 data with
    | none => none
    | some auth =>
        (unlessError (updateUnverified P env s name guid attributes auth) (fun s =>
          if s.mPlatformMode != .setupMode || isPk then some (vendorKeyIsModified P env s)
          else some (.success, s))).map
          (fun (status, s) => (status, auth.payload.isEmpty, s))
  else
    verifyTimeBasedPayloadAndUpdate P env s name guid data attributes
      (pkVerification s.mPlatformMode)

/-- The last part of `ProcessVarWithPk`: enrolling `PK` ends setup mode, deleting it ends
user mode. -/
def trackPlatformMode (del : Bool) : EfiStatus × AuthState :=
  if s.mPlatformMode == .setupMode && !del then updatePlatformMode P env s .userMode
  else if s.mPlatformMode == .userMode && del then updatePlatformMode P env s .setupMode
  else (.success, s)

/-- `ProcessVarWithPk`. -/
def processVarWithPk (isPk : Bool) : Option (EfiStatus × AuthState) :=
  if !hasKeyAttributes attributes then some (.invalidParameter, s)
  else
    (updateWithPk P env s name guid data attributes isPk).map (fun (status, del, s) =>
      if !status.isError && isPk then trackPlatformMode P env s del else (status, s))

/-- `ProcessVarWithKek`. -/
def processVarWithKek : Option (EfiStatus × AuthState) :=
  if !hasKeyAttributes attributes then some (.invalidParameter, s)
  else if s.mPlatformMode == .userMode && !isCustom env s then
    (verifyTimeBasedPayloadAndUpdate P env s name guid data attributes .kek).map
      (fun (status, _, s) => (status, s))
  else
    match readAuthentication2 data with
    | none => none
    | some auth =>
        unlessError (updateUnverified P env s name guid attributes auth) (fun s =>
          if s.mPlatformMode != .setupMode then some (vendorKeyIsModified P env s)
          else some (.success, s))

/-- `IsDeleteAuthVariable`. -/
def isDeleteAuthVariable (orgAttributes : UInt32) : Bool :=
  attributes == orgAttributes && hasAttribute attributes variableAttributeAtAw &&
    (if hasAttribute attributes efiVariableTimeBasedAuthenticatedWriteAccess then
      uintnSub data.length (authinfo2Size data) == 0
    else uintnSub data.length authinfoSize == 0)

/-- The stored attributes have an authenticated-write bit. -/
def AuthVariable.isAuthenticated (v : AuthVariable) : Bool :=
  hasAttribute v.attributes variableAttributeAtAw

/-- `ProcessVariable`. -/
def processVariable : Option (EfiStatus × AuthState) :=
  let org := variableExLibFindVariable s name guid
  let isTimeBased := hasAttribute attributes efiVariableTimeBasedAuthenticatedWriteAccess
  let isCounterBased := hasAttribute attributes efiVariableAuthenticatedWriteAccess
  if org.any (fun org => isDeleteAuthVariable data attributes org.attributes) &&
      env.userPhysicalPresent then
    unlessError (some (authServiceInternalUpdateVariable P env s name guid [] 0)) (fun s =>
      if isTimeBased then deleteCertsFromDb P env s name guid else some (.success, s))
  else if needPhysicallyPresent name guid && !env.userPhysicalPresent then
    some (.securityViolation, s)
  else if org.any (fun org => isCounterBased &&
      hasAttribute org.attributes efiVariableTimeBasedAuthenticatedWriteAccess) then
    some (.securityViolation, s)
  else if org.any (fun org => isTimeBased &&
      hasAttribute org.attributes efiVariableAuthenticatedWriteAccess) then
    some (.securityViolation, s)
  else if isTimeBased then
    (verifyTimeBasedPayloadAndUpdate P env s name guid data attributes .priv).map
      (fun (status, _, s) => (status, s))
  else if isCounterBased then
    processCounterBased P env s name guid data attributes
      (org.filter (fun org => hasAttribute org.attributes efiVariableAuthenticatedWriteAccess))
  else if org.any (·.isAuthenticated) then some (.writeProtected, s)
  else some (authServiceInternalUpdateVariable P env s name guid data attributes)

/-- `AuthVariableLibProcessVariable`. -/
def authVariableLibProcessVariable : Option (EfiStatus × AuthState) :=
  if isPlatformKey name guid then processVarWithPk P env s name guid data attributes true
  else if isKeyExchangeKey name guid then
    processVarWithPk P env s name guid data attributes false
  else if isImageSecurityDatabase name guid then
    match processVarWithPk P env s name guid data attributes false with
    | none => none
    | some (status, s) =>
        if status.isError then processVarWithKek P env s name guid data attributes
        else some (status, s)
  else processVariable P env s name guid data attributes

end Process

end AuthVariableLib
end Udk
