import Udk.AuthVariableLib.AuthService

/-!
# Initialization and `SetVariable`

`AuthVariableLibInitialize`, and `VariableServiceSetVariable` on the way to
`AuthVariableLibProcessVariable`, with the hook for the language variables.
-/

namespace Udk
namespace AuthVariableLib

open Variable

section Initialize

variable (P : Platform) (env : Environment)

/-- The contents of `SignatureSupport`. -/
def mSignatureSupport : Bytes :=
  [0x12, 0xa5, 0x6c, 0x82, 0x10, 0xcf, 0xc9, 0x4a, 0xb1, 0x87, 0xbe, 0x01, 0x49, 0x66, 0x31, 0xbd,
    0x26, 0x16, 0xc4, 0xc1, 0x4c, 0x50, 0x92, 0x40, 0xac, 0xa9, 0x41, 0xf9, 0x36, 0x93, 0x43, 0x28,
    0xe8, 0x66, 0x57, 0x3c, 0x9c, 0x26, 0x34, 0x4e, 0xaa, 0x14, 0xed, 0x77, 0x6e, 0x85, 0xb3, 0xb6,
    0xa1, 0x59, 0xc0, 0xa5, 0xe4, 0x94, 0xa7, 0x4a, 0x87, 0xb5, 0xab, 0x15, 0x5c, 0x2b, 0xf0, 0x72]

/-- Load the key database, or create it. -/
def initKeyDatabase (s : AuthState) : EfiStatus × AuthState :=
  match variableExLibFindVariable s authvarKeydbName efiAuthenticatedVariableGuid with
  | none =>
      authServiceInternalUpdateVariable P env { s with mPubKeyStore := [] } authvarKeydbName
        efiAuthenticatedVariableGuid [0] variableAttributeNvBsRtAw
  | some keydb =>
      (.success, { s with
        mPubKeyStore := readKeyDb keydb.data (keydb.data.length / keyDbDataSize) })

/-- The platform mode of the store: `SETUP_MODE` when `PK` is not found. -/
def initPlatformMode (s : AuthState) : AuthState :=
  { s with
    mPlatformMode :=
      if (variableExLibFindVariable s efiPlatformKeyName efiGlobalVariableGuid).isNone then
        .setupMode
      else .userMode }

/-- Write a one-byte variable. -/
def setByte (s : AuthState) (name : Char16Str) (guid : Guid) (byte : UInt8)
    (attributes : UInt32) : EfiStatus × AuthState :=
  authServiceInternalUpdateVariable P env s name guid [byte] attributes

/-- Bring `SecureBootEnable` in line with the platform mode; the second component is its
value. -/
def initSecureBootEnable (s : AuthState) : EfiStatus × UInt8 × AuthState :=
  match variableExLibFindVariable s efiSecureBootEnableName efiSecureBootEnableDisableGuid with
  | some v =>
      match s.mPlatformMode with
      | .setupMode =>
          -- The status of the deletion is not looked at.
          (.success, 0, (authServiceInternalUpdateVariable P env s efiSecureBootEnableName
            efiSecureBootEnableDisableGuid [] variableAttributeNvBs).2)
      | .userMode => (.success, v.data.getD 0 0, s)
  | none =>
      match s.mPlatformMode with
      | .setupMode => (.success, 0, s)
      | .userMode =>
          let (status, s) := setByte P env s efiSecureBootEnableName
            efiSecureBootEnableDisableGuid 1 variableAttributeNvBs
          (status, 1, s)

/-- Create `certdb`, or clean it up; the last argument is fuel for the clean-up. -/
def initCertDb (s : AuthState) (fuel : Nat) : Option (EfiStatus × AuthState) :=
  match variableExLibFindVariable s efiCertDbName efiCertDbGuid with
  | none => some (setCertDb P env s (toLE 4 4))
  | some _ => cleanCertsLoop P env fuel s

/-- Load `VendorKeysNv`, or create it. -/
def initVendorKeys (s : AuthState) : EfiStatus × AuthState :=
  match variableExLibFindVariable s efiVendorKeysNvVariableName efiVendorKeysNvGuid with
  | some v => (.success, { s with mVendorKeyState := v.data.getD 0 0 })
  | none =>
      setByte P env { s with mVendorKeyState := 1 } efiVendorKeysNvVariableName
        efiVendorKeysNvGuid 1
        (variableAttributeNvBs ||| efiVariableTimeBasedAuthenticatedWriteAccess)

/-- The second half of the initialization, from `SecureBootEnable` on. -/
def initSecureBoot (s : AuthState) (fuel : Nat) : Option (EfiStatus × AuthState) :=
  let (status, secureBootEnable, s) := initSecureBootEnable P env s
  unlessError (some (status, s)) (fun s =>
  unlessError
    (some (setByte P env s efiSecureBootModeName efiGlobalVariableGuid
      (if secureBootEnable = 1 && s.mPlatformMode == .userMode then 1 else 0)
      variableAttributeBsRt)) (fun s =>
  unlessError
    (some (setByte P env s efiCustomModeName efiCustomModeEnableGuid 0 variableAttributeNvBs))
    (fun s =>
  unlessError (initCertDb P env s fuel) (fun s =>
  unlessError (some (initVendorKeys P env s)) (fun s =>
  some (setByte P env s efiVendorKeysVariableName efiGlobalVariableGuid s.mVendorKeyState
    variableAttributeBsRt))))))

/-- `AuthVariableLibInitialize`; the last argument is fuel for the clean-up of `certdb`. -/
def authVariableLibInitialize (s : AuthState) (fuel : Nat) : Option (EfiStatus × AuthState) :=
  unlessError (some (initKeyDatabase P env s)) (fun s =>
  let s := initPlatformMode s
  unlessError
    (some (setByte P env s efiSetupModeName efiGlobalVariableGuid s.mPlatformMode.toByte
      variableAttributeBsRt)) (fun s =>
  unlessError
    (some (authServiceInternalUpdateVariable P env s efiSignatureSupportName
      efiGlobalVariableGuid mSignatureSupport variableAttributeBsRt)) (fun s =>
  initSecureBoot P env s fuel)))

end Initialize

section Sample

/-- A platform with room for three keys. -/
def authPlatform : Platform where
  flashKind := .rewritable
  authFormat := true
  blockLengths := [65536]
  headerLength := 72
  storeLength := 65464
  pcdHwErrStorageSize := 0
  pcdMaxUserNvVariableSpaceSize := 0
  pcdBoottimeReservedNvVariableSpaceSize := 0
  pcdMaxVariableSize := 1024
  pcdMaxAuthVariableSize := 1024
  pcdMaxHardwareErrorVariableSize := 0
  hasProperty := fun _ _ => false
  storeLength_mod := by decide
  hwErr_lt := by decide
  maxUser_lt := by decide
  reserved_lt := by decide

/-- Every signature verifies, every update is carried out, and nobody is present. -/
def acceptingEnvironment : Environment where
  verify := fun _ _ => true
  pkcs7GetSigners := fun _ sigData => some (sigData, [])
  rsaGetPublicKeyFromX509 := fun _ => true
  userPhysicalPresent := false
  storeOutcome := fun _ => .done
  remainingSpace := fun _ => true
  pcdUefiVariableDefaultLangDeprecate := true
  varCheck := fun _ _ _ _ => .success
  bestLanguage := fun _ _ => none

/-- Boot time, with an empty store. -/
def emptyState : AuthState where
  vars := []
  atRuntime := false
  mPubKeyStore := []
  mPlatformMode := .setupMode
  mVendorKeyState := 1
  platformLangCodes := false
  langCodes := false
  events := []

/-- The state of a call that returns. -/
def returned (r : Option (EfiStatus × AuthState)) : AuthState :=
  (r.map Prod.snd).getD emptyState

/-- The state after the initialization on an empty store. -/
def initializedState : AuthState :=
  returned (authVariableLibInitialize authPlatform acceptingEnvironment emptyState 1)

theorem initialize_emptyState :
    authVariableLibInitialize authPlatform acceptingEnvironment emptyState 1 =
      some (.success, initializedState) := by
  decide +kernel

end Sample

section Lang

variable (P : Platform) (env : Environment)

/-- Set the variable of the other language code set. -/
def updateOtherLang (s : AuthState) (name : Char16Str) (best : Option Bytes) :
    EfiStatus × AuthState :=
  match best with
  | none => (.success, s)
  | some lang =>
      if !env.remainingSpace s.events then (.outOfResources, s)
      else
        authServiceInternalUpdateVariable P env s name efiGlobalVariableGuid lang
          variableAttributeNvBsRt

/-- The language variable that decides, with its data. -/
def decidingLang (s : AuthState) (name : Char16Str) (data : Bytes) (setLanguageCodes : Bool) :
    Option (Char16Str × Bytes) :=
  if setLanguageCodes && s.platformLangCodes && s.langCodes then
    match findVariable s efiPlatformLangVariableName efiGlobalVariableGuid false with
    | some v => some (efiPlatformLangVariableName, v.data)
    | none =>
        (findVariable s efiLangVariableName efiGlobalVariableGuid false).map
          (fun v => (efiLangVariableName, v.data))
  else some (name, data)

/-- `AutoUpdateLangVariable`. -/
def autoUpdateLangVariable (s : AuthState) (name : Char16Str) (data : Bytes) :
    EfiStatus × AuthState :=
  let setsPlatformLangCodes := name == efiPlatformLangCodesVariableName
  let setsLangCodes := name == efiLangCodesVariableName
  let setLanguageCodes := setsPlatformLangCodes || setsLangCodes
  if data.isEmpty then (.success, s)
  else if setLanguageCodes && s.atRuntime then (.writeProtected, s)
  else
    let s := { s with
      platformLangCodes := s.platformLangCodes || setsPlatformLangCodes
      langCodes := s.langCodes || setsLangCodes }
    match decidingLang s name data setLanguageCodes with
    | none => (.success, s)
    | some (deciding, lang) =>
        let (status, s) :=
          if s.platformLangCodes && s.langCodes && deciding == efiPlatformLangVariableName then
            updateOtherLang P env s efiLangVariableName (env.bestLanguage deciding lang)
          else if s.platformLangCodes && s.langCodes && deciding == efiLangVariableName then
            updateOtherLang P env s efiPlatformLangVariableName (env.bestLanguage deciding lang)
          else (.success, s)
        (if setLanguageCodes then .success else status, s)

end Lang

section SetVariable

/-- The arguments of `SetVariable`. -/
structure SetRequest where
  variableName : Char16Str
  vendorGuid : Guid
  attributes : UInt32
  data : Bytes

namespace SetRequest

variable (req : SetRequest)

def isCounterBased : Bool :=
  hasAttribute req.attributes efiVariableAuthenticatedWriteAccess

def isTimeBased : Bool :=
  hasAttribute req.attributes efiVariableTimeBasedAuthenticatedWriteAccess

/-- Bytes of the descriptor in front of the payload, `none` when it is malformed. -/
def descriptorSize : Option Nat :=
  if req.isCounterBased then
    if req.data.length < authinfoSize then none else some authinfoSize
  else if req.isTimeBased then
    if req.data.length < offsetOfAuthinfo2CertData ||
        req.data.length - 16 < dwLength req.data || dwLength req.data < 24 then none
    else some (authinfo2Size req.data)
  else some 0

end SetRequest

variable (P : Platform) (env : Environment) (s : AuthState) (req : SetRequest)

/-- The attribute checks of `SetVariable`. -/
def attributesAllowed : Bool :=
  !hasAttribute req.attributes (~~~efiVariableAttributesMask) &&
    !(hasAttribute req.attributes efiVariableRuntimeAccess &&
      !hasAttribute req.attributes efiVariableBootserviceAccess) &&
    (hasAttribute req.attributes variableAttributeAtAw ||
      !hasAttribute req.attributes efiVariableHardwareErrorRecord ||
      P.pcdHwErrStorageSize != 0) &&
    !(req.isCounterBased && req.isTimeBased)

/-- Name and payload fit into a variable of this kind. -/
def sizeAllowed (payloadSize : Nat) : Bool :=
  let limit :=
    if hasAttribute req.attributes efiVariableHardwareErrorRecord then
      P.pcdMaxHardwareErrorVariableSize
    else if hasAttribute req.attributes variableAttributeAtAw then P.maxAuthVariableSize
    else P.maxVariableSize
  decide (req.variableName.strSize ≤ uintnSub (2 ^ 64 - 1) payloadSize) &&
    decide (req.variableName.strSize + payloadSize ≤ uintnSub limit (getVariableHeaderSize true))

/-- The checks on a variable that exists already, with the status of the one that fails. -/
def checkExisting : EfiStatus :=
  match findVariable s req.variableName req.vendorGuid true with
  | none => .success
  | some v =>
      if !hasAttribute v.attributes efiVariableRuntimeAccess && s.atRuntime then .writeProtected
      else if req.attributes != 0 &&
          req.attributes &&& ~~~efiVariableAppendWrite != v.attributes then .invalidParameter
      else .success

/-- The checks of `VariableServiceSetVariable` before anything is changed. -/
def checkRequest : EfiStatus :=
  if req.variableName.chars = [] then .invalidParameter
  else if !attributesAllowed P req then .invalidParameter
  else
    match req.descriptorSize with
    | none => .securityViolation
    | some size =>
        if !sizeAllowed P req (req.data.length - size) then .invalidParameter
        else
          let status := env.varCheck req.variableName req.vendorGuid req.attributes
            (req.data.drop size)
          if status.isError then status else checkExisting s req

/-- The call of `AutoUpdateLangVariable`, unless `PcdUefiVariableDefaultLangDeprecate`. -/
def langHook : EfiStatus × AuthState :=
  if env.pcdUefiVariableDefaultLangDeprecate then (.success, s)
  else autoUpdateLangVariable P env s req.variableName req.data

/-- `VariableServiceSetVariable` with `AuthSupport`. -/
def variableServiceSetVariable : Option (EfiStatus × AuthState) :=
  if (checkRequest P env s req).isError then some (checkRequest P env s req, s)
  else
    unlessError (some (langHook P env s req)) (fun s =>
    authVariableLibProcessVariable P env s req.variableName req.vendorGuid req.data
      req.attributes)

end SetVariable

section Sample

/-- A counter-based request: count, certificate header, empty certificate, and payload. -/
def counterData (count : UInt64) (payload : Bytes) : Bytes :=
  toLE 8 count.toNat ++ toLE 4 552 ++ toLE 2 0x0200 ++ toLE 2 winCertTypeEfiGuid ++
    efiCertTypeRsa2048Sha256Guid.bytes ++ List.replicate 528 0 ++ payload

/-- A variable `C` of the global vendor. -/
def sampleName : Char16Str :=
  ⟨[67], by decide⟩

/-- Set `C` to one byte. -/
def counterRequest (count : UInt64) (byte : UInt8) : SetRequest where
  variableName := sampleName
  vendorGuid := efiGlobalVariableGuid
  attributes := variableAttributeNvBsRtAw
  data := counterData count [byte]

/-- Set `C` where every signature verifies. -/
def setCounter (s : AuthState) (count : UInt64) (byte : UInt8) : Option (EfiStatus × AuthState) :=
  variableServiceSetVariable authPlatform acceptingEnvironment s (counterRequest count byte)

/-- `C` has been created with count 1. -/
def createdState : AuthState :=
  returned (setCounter initializedState 1 10)

theorem setCounter_create :
    setCounter initializedState 1 10 = some (.success, createdState) := by
  decide +kernel

end Sample

end AuthVariableLib
end Udk
