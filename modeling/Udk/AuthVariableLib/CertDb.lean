import Udk.AuthVariableLib.Descriptors

/-!
# The certificate database

`certdb` holds, behind a `UINT32` with its size, one `AUTH_CERT_DB_DATA` node for
each private time-based variable: vendor GUID, sizes of the node, of the name and
of the certificates, then name and certificates.  The functions below read and
rebuild these bytes as the source does; a search that would not end is `none`.
-/

namespace Udk
namespace AuthVariableLib

open Variable

/-- `VARIABLE_ATTRIBUTE_NV_BS_RT_AT`. -/
def variableAttributeNvBsRtAt : UInt32 :=
  variableAttributeNvBsRt ||| efiVariableTimeBasedAuthenticatedWriteAccess

/-- An update without key index, count and timestamp
(`AuthServiceInternalUpdateVariable`). -/
def plainRequest (name : Char16Str) (guid : Guid) (data : Bytes) (attributes : UInt32) :
    UpdateRequest :=
  ⟨name, guid, data, attributes, 0, 0, none⟩

/-- `if (EFI_ERROR (Status)) return Status;` between two parts of a function. -/
def unlessError (r : Option (EfiStatus × AuthState))
    (next : AuthState → Option (EfiStatus × AuthState)) : Option (EfiStatus × AuthState) :=
  match r with
  | none => none
  | some (status, s) => if status.isError then some (status, s) else next s

/-- The output parameters of `FindCertsFromDb`. -/
structure CertPosition where
  certOffset : Nat
  certDataSize : Nat
  certNodeOffset : Nat
  certNodeSize : Nat
deriving DecidableEq

section Search

variable (name : Char16Str) (guid : Guid) (data : Bytes)

/-- The search loop of `FindCertsFromDb` from `offset` on; the first argument is fuel. -/
def findCertsLoop : Nat → Nat → Option (Except EfiStatus CertPosition)
  | 0, _ => none
  | fuel + 1, offset =>
      let ptr := data.drop offset
      let nodeSize := field ptr 16 4
      let nameSize := field ptr 20 4
      let certSize := field ptr 24 4
      if data.length % 2 ^ 32 ≤ offset then some (.error .notFound)
      else if Guid.read ptr == guid then
        if nodeSize ≠ 28 + certSize + 2 * nameSize then some (.error .invalidParameter)
        else if nameSize == name.chars.length &&
            slice ptr 28 (2 * nameSize) == char16Bytes name.chars then
          some (.ok
            { certOffset := offset + 28 + 2 * nameSize
              certDataSize := certSize
              certNodeOffset := offset
              certNodeSize := nodeSize })
        else findCertsLoop fuel ((offset + 28 + 2 * nameSize + certSize) % 2 ^ 32)
      else findCertsLoop fuel ((offset + nodeSize) % 2 ^ 32)

/-- `FindCertsFromDb`. -/
def findCertsFromDb : Option (Except EfiStatus CertPosition) :=
  if data.length < 4 then some (.error .invalidParameter)
  else if field data 0 4 ≠ data.length % 2 ^ 32 then some (.error .invalidParameter)
  else findCertsLoop name guid data (data.length + 1) 4

end Search

section Update

variable (P : Platform) (env : Environment) (s : AuthState)
variable (name : Char16Str) (guid : Guid)

/-- `mMaxCertDbSize`. -/
def mMaxCertDbSize : Nat :=
  uintnSub P.maxAuthVariableSize (efiCertDbName.strSize) % 2 ^ 32

/-- `GetCertsFromDb`. -/
def getCertsFromDb : Option (Except EfiStatus Bytes) :=
  match variableExLibFindVariable s efiCertDbName efiCertDbGuid with
  | none => some (.error .notFound)
  | some certdb =>
      if certdb.data.length = 0 then some (.error .notFound)
      else
        match findCertsFromDb name guid certdb.data with
        | none => none
        | some (.error status) => some (.error status)
        | some (.ok found) => some (.ok (slice certdb.data found.certOffset found.certDataSize))

/-- Write new contents of `certdb`. -/
def setCertDb (newCertDb : Bytes) : EfiStatus × AuthState :=
  variableExLibUpdateVariable P env s
    (plainRequest efiCertDbName efiCertDbGuid newCertDb variableAttributeNvBsRtAt)

/-- The database without the node. -/
def certDbWithout (data : Bytes) (found : CertPosition) : Bytes :=
  toLE 4 (data.length - found.certNodeSize) ++ slice data 4 (found.certNodeOffset - 4) ++
    data.drop (found.certNodeOffset + found.certNodeSize)

/-- `DeleteCertsFromDb`. -/
def deleteCertsFromDb : Option (EfiStatus × AuthState) :=
  match variableExLibFindVariable s efiCertDbName efiCertDbGuid with
  | none => some (.notFound, s)
  | some certdb =>
      if certdb.data.length = 0 then some (.notFound, s)
      else if certdb.data.length = 4 then some (.success, s)
      else
        match findCertsFromDb name guid certdb.data with
        | none => none
        | some (.error status) => some (status, s)
        | some (.ok found) =>
            if 2 ^ 32 ≤ found.certNodeOffset + found.certNodeSize then none
            else if certdb.data.length < found.certNodeOffset + found.certNodeSize then
              some (.notFound, s)
            else some (setCertDb P env s (certDbWithout certdb.data found))

/-- An `AUTH_CERT_DB_DATA` node. -/
def certNode (certData : Bytes) : Bytes :=
  guid.bytes ++ toLE 4 (28 + certData.length + 2 * name.chars.length) ++
    toLE 4 name.chars.length ++ toLE 4 certData.length ++ char16Bytes name.chars ++ certData

/-- `InsertCertsToDb`. -/
def insertCertsToDb (certData : Bytes) : Option (EfiStatus × AuthState) :=
  match variableExLibFindVariable s efiCertDbName efiCertDbGuid with
  | none => some (.notFound, s)
  | some certdb =>
      if certdb.data.length = 0 then some (.notFound, s)
      else
        match findCertsFromDb name guid certdb.data with
        | none => none
        | some (.ok _) => some (.accessDenied, s)
        | some (.error _) =>
            let newCertDbSize := certdb.data.length + (certNode name guid certData).length
            if mMaxCertDbSize P < newCertDbSize % 2 ^ 32 then some (.outOfResources, s)
            -- A size that passes because it wraps overruns `mCertDbStore`.
            else if 2 ^ 32 ≤ newCertDbSize then none
            else
              some (setCertDb P env s (toLE 4 newCertDbSize ++ certdb.data.drop 4 ++
                certNode name guid certData))

end Update

section Clean

variable (P : Platform) (env : Environment)

/-- `AuthServiceInternalFindVariable` for a name that may be empty: the empty name finds
the first variable. -/
def authServiceInternalFindVariable (s : AuthState) (name : Char16Str) (guid : Guid) :
    Option AuthVariable :=
  if name.chars = [] then s.vars.find? (isEnumerated s)
  else variableExLibFindVariable s name guid

/-- The name and vendor of the first node from `offset` on whose variable does not exist,
none when there is no such node; the first argument is fuel. -/
def findOrphan (s : AuthState) (data : Bytes) : Nat → Nat → Option (Option (Char16Str × Guid))
  | 0, _ => none
  | fuel + 1, offset =>
      let ptr := data.drop offset
      let name := readChar16Str (slice ptr 28 (2 * field ptr 20 4) ++ [0, 0])
      if data.length % 2 ^ 32 ≤ offset then some none
      else if (authServiceInternalFindVariable s name (Guid.read ptr)).isNone then
        some (some (name, Guid.read ptr))
      else findOrphan s data fuel ((offset + field ptr 16 4) % 2 ^ 32)

/-- `CleanCertsFromDb`; the first argument is fuel. -/
def cleanCertsLoop : Nat → AuthState → Option (EfiStatus × AuthState)
  | 0, _ => none
  | fuel + 1, s =>
      match variableExLibFindVariable s efiCertDbName efiCertDbGuid with
      | none => some (.notFound, s)
      | some certdb =>
          if certdb.data.length = 0 then some (.notFound, s)
          else
            match findOrphan s certdb.data (certdb.data.length + 1) 4 with
            | none => none
            | some none => some (.success, s)
            | some (some (name, guid)) =>
                match deleteCertsFromDb P env s name guid with
                | none => none
                | some (_, s) => cleanCertsLoop fuel s

end Clean

end AuthVariableLib
end Udk
