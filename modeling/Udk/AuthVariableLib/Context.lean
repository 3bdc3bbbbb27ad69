import Udk.Variable.Update

/-!
# The services behind the authentication library

`AuthVariableLib` reaches the variable driver through `AUTH_VAR_LIB_CONTEXT_IN`
only.  Here the store is what these services show of it: the variables
`FindVariable` can find, in the order of their records.  `updateVariable` makes
the decisions of `UpdateVariable` on the variable it finds; how the block writes,
the quotas and the reclaim behind a decision end is an answer of the environment.
There is no variable HOB, and the firmware volume is writable.

The environment may answer differently each time: every answer depends on the
events so far.
-/

namespace Udk
namespace AuthVariableLib

open Variable

/-- A public key of a counter-based variable. -/
structure PublicKey where
  bytes : Bytes
  length_eq : bytes.length = 256
deriving DecidableEq

/-- A variable with the fields of `AUTH_VARIABLE_INFO`. -/
structure AuthVariable where
  variableName : Char16Str
  vendorGuid : Guid
  data : Bytes
  attributes : UInt32
  pubKeyIndex : UInt32
  monotonicCount : UInt64
  timeStamp : EfiTime
deriving DecidableEq

/-- A status with `EFI_ERROR`. -/
structure StoreError where
  status : EfiStatus
  isError : status.isError = true
deriving DecidableEq

/-- How the store writes of an update end. -/
inductive StoreOutcome where
  | done
  /-- An error, and the variable is as before. -/
  | refused (error : StoreError)
  /-- An error, although the new record has become valid. -/
  | late (error : StoreError)
deriving DecidableEq

/-- A question to the crypto library. -/
inductive Query where
  /-- SHA-256 over `message`, then `RsaPkcs1Verify`. -/
  | rsaPkcs1Verify (publicKey : PublicKey) (message signature : Bytes)
  | pkcs7Verify (sigData rootCert message : Bytes)
deriving DecidableEq

inductive Event where
  | verified (query : Query) (answer : Bool)
  | stored (name : Char16Str) (guid : Guid) (outcome : StoreOutcome)
deriving DecidableEq

/-- The answers of the platform, the crypto library and the store during one call. -/
structure Environment where
  verify : List Event → Query → Bool
  /-- `Pkcs7GetSigners`: the certificate stack of the signer and the trusted certificate. -/
  pkcs7GetSigners : List Event → Bytes → Option (Bytes × Bytes)
  rsaGetPublicKeyFromX509 : Bytes → Bool
  userPhysicalPresent : Bool
  storeOutcome : List Event → StoreOutcome
  /-- `CheckRemainingSpaceForConsistency`. -/
  remainingSpace : List Event → Bool
  pcdUefiVariableDefaultLangDeprecate : Bool
  /-- `VarCheckLibSetVariableCheck`. -/
  varCheck : Char16Str → Guid → UInt32 → Bytes → EfiStatus
  /-- The language of the other code set that matches a `PlatformLang` or a `Lang`. -/
  bestLanguage : Char16Str → Bytes → Option Bytes

/-- `AUTHVAR_KEY_DB_DATA`. -/
structure AuthvarKeyDbData where
  keyIndex : UInt32
  keyData : PublicKey
deriving DecidableEq

inductive PlatformMode where
  | setupMode
  | userMode
deriving DecidableEq

/-- The byte `SetupMode` holds. -/
def PlatformMode.toByte : PlatformMode → UInt8
  | .setupMode => 1
  | .userMode => 0

/-- The store and the globals of the library. -/
structure AuthState where
  vars : List AuthVariable
  atRuntime : Bool
  /-- The first `mPubKeyNumber` entries of `mPubKeyStore`. -/
  mPubKeyStore : List AuthvarKeyDbData
  mPlatformMode : PlatformMode
  mVendorKeyState : UInt8
  /-- `PlatformLangCodes` and `LangCodes` of the driver have been set. -/
  platformLangCodes : Bool
  langCodes : Bool
  /-- What happened so far, the latest first. -/
  events : List Event
deriving DecidableEq

section Find

/-- The variable has this name and vendor. -/
def AuthVariable.isNamed (v : AuthVariable) (name : Char16Str) (guid : Guid) : Bool :=
  v.variableName == name && v.vendorGuid == guid

/-- At runtime only a variable with runtime access is found. -/
def AuthVariable.isFound (v : AuthVariable) (name : Char16Str) (guid : Guid)
    (ignoreRtCheck atRuntime : Bool) : Bool :=
  v.isNamed name guid &&
    (ignoreRtCheck || !atRuntime || hasAttribute v.attributes efiVariableRuntimeAccess)

variable (s : AuthState)

/-- `FindVariable`. -/
def findVariable (name : Char16Str) (guid : Guid) (ignoreRtCheck : Bool) :
    Option AuthVariable :=
  s.vars.find? (·.isFound name guid ignoreRtCheck s.atRuntime)

/-- `VariableExLibFindVariable`. -/
def variableExLibFindVariable (name : Char16Str) (guid : Guid) : Option AuthVariable :=
  findVariable s name guid false

/-- The variable can be enumerated. -/
def isEnumerated (v : AuthVariable) : Bool :=
  !s.atRuntime || hasAttribute v.attributes efiVariableRuntimeAccess

/-- `VariableExLibFindNextVariable`: the empty name asks for the first variable. -/
def variableExLibFindNextVariable (name : Char16Str) (guid : Guid) : Option AuthVariable :=
  if name.chars = [] then s.vars.find? (isEnumerated s)
  else
    ((s.vars.dropWhile (fun v => !v.isFound name guid false s.atRuntime)).drop 1).find?
      (isEnumerated s)

end Find

section Update

variable (P : Platform) (env : Environment) (s : AuthState)

/-- Carry out an update of the variable list, as far as the store does. -/
def store (name : Char16Str) (guid : Guid) (vars : List AuthVariable) :
    EfiStatus × AuthState :=
  let outcome := env.storeOutcome s.events
  let events := .stored name guid outcome :: s.events
  match outcome with
  | .done => (.success, { s with vars, events })
  | .refused error => (error.status, { s with events })
  | .late error => (error.status, { s with vars, events })

/-- The timestamp of the new record; `old` is the timestamp of the one it replaces. -/
def recordTimeStamp (req : UpdateRequest) (old : Option EfiTime) : EfiTime :=
  match req.timeStamp with
  | none => EfiTime.zero
  | some time =>
      if !hasAttribute req.attributes efiVariableTimeBasedAuthenticatedWriteAccess then
        EfiTime.zero
      else if !req.isAppend then time
      else
        match old with
        | none => EfiTime.zero
        | some oldTime => if variableCompareTimeStamp oldTime time then time else EfiTime.zero

/-- The variable that a record with `data` makes. -/
def newVariable (req : UpdateRequest) (old : Option AuthVariable) (data : Bytes) :
    AuthVariable where
  variableName := req.variableName
  vendorGuid := req.vendorGuid
  data := data
  attributes := req.attributes &&& ~~~efiVariableAppendWrite
  pubKeyIndex := req.keyIndex
  monotonicCount := req.monotonicCount
  timeStamp := recordTimeStamp req (old.map AuthVariable.timeStamp)

/-- The largest data of a variable. -/
def maxDataSize (req : UpdateRequest) : Nat :=
  let dataOffset := getVariableHeaderSize true + req.variableName.strSize
  if hasAttribute req.attributes efiVariableHardwareErrorRecord then
    uintnSub P.pcdMaxHardwareErrorVariableSize dataOffset
  else if hasAttribute req.attributes variableAttributeAtAw then
    uintnSub P.maxAuthVariableSize dataOffset
  else uintnSub P.maxVariableSize dataOffset

/-- What `UpdateVariable` decides to do. -/
inductive UpdateDecision where
  /-- Return this status. -/
  | keep (status : EfiStatus)
  /-- Delete the variable found. -/
  | remove
  /-- Write a new record, and delete the one of the variable found. -/
  | install (v : AuthVariable)
deriving DecidableEq

/-- The part of `UpdateVariable` for a variable that exists. -/
def updateExisting (atRuntime : Bool) (req : UpdateRequest) (old : AuthVariable) :
    UpdateDecision :=
  -- A variable without the NV attribute lies in the volatile store.
  if atRuntime && !hasAttribute old.attributes efiVariableNonVolatile then
    .keep .writeProtected
  else if atRuntime && !hasAttribute old.attributes efiVariableRuntimeAccess then
    .keep .invalidParameter
  else if req.isDelete then .remove
  else if old.data == req.data && !req.isAppend && req.timeStamp.isNone then .keep .success
  else if req.isAppend then
    if maxDataSize P req < old.data.length + req.data.length then .keep .invalidParameter
    else .install (newVariable req (some old) (old.data ++ req.data))
  else .install (newVariable req (some old) req.data)

/-- The part for a variable that does not exist. -/
def updateAbsent (atRuntime : Bool) (req : UpdateRequest) : UpdateDecision :=
  if req.data.isEmpty && req.isAppend then .keep .success
  else if req.data.isEmpty ||
      !hasAttribute req.attributes
        (efiVariableRuntimeAccess ||| efiVariableBootserviceAccess) then
    .keep .notFound
  else if atRuntime && (!hasAttribute req.attributes efiVariableRuntimeAccess ||
      !hasAttribute req.attributes efiVariableNonVolatile) then
    .keep .invalidParameter
  else .install (newVariable req none req.data)

/-- The decision for a request. -/
def updateDecision (req : UpdateRequest) : UpdateDecision :=
  match findVariable s req.variableName req.vendorGuid false with
  | some old => updateExisting P s.atRuntime req old
  | none => updateAbsent s.atRuntime req

/-- The other variables, in their order. -/
def withoutFound (req : UpdateRequest) : List AuthVariable :=
  s.vars.eraseP (·.isFound req.variableName req.vendorGuid false s.atRuntime)

/-- `VariableExLibUpdateVariable`: `FindVariable`, then `UpdateVariable`.  A new record
lies behind the others. -/
def variableExLibUpdateVariable (req : UpdateRequest) : EfiStatus × AuthState :=
  match updateDecision P s req with
  | .keep status => (status, s)
  | .remove => store env s req.variableName req.vendorGuid (withoutFound s req)
  | .install v => store env s req.variableName req.vendorGuid (withoutFound s req ++ [v])

/-- `ScratchBufferSize`. -/
def scratchBufferSize : Nat :=
  let size := max P.pcdMaxVariableSize P.pcdMaxAuthVariableSize
  if P.pcdHwErrStorageSize != 0 then max size P.pcdMaxHardwareErrorVariableSize else size

/-- `VariableExLibGetScratchBuffer` has a buffer of this size. -/
def variableExLibGetScratchBuffer (size : Nat) : Bool :=
  size ≤ scratchBufferSize P

/-- Ask the crypto library. -/
def askVerify (query : Query) : Bool × AuthState :=
  let answer := env.verify s.events query
  (answer, { s with events := .verified query answer :: s.events })

end Update

end AuthVariableLib
end Udk
