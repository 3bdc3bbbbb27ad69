import Udk.AuthVariableLib.Context

/-!
# Names, descriptors and signature lists

The variables the authentication library knows by name, the descriptors in front
of an authenticated payload, and the walks over `EFI_SIGNATURE_LIST` data.  A
descriptor that does not fit into the data it is read from is `none`: the source
relies on the caller's check.  A walk that does not end, and a division by zero,
is `none` as well.
-/

namespace Udk
namespace AuthVariableLib

open Variable

section Names

/-- A `CHAR16` string literal. -/
def char16 (chars : List Char) : List UInt16 :=
  chars.map (fun c => UInt16.ofNat c.toNat)

/-- `EFI_PLATFORM_KEY_NAME`. -/
def efiPlatformKeyName : Char16Str :=
  ⟨char16 ['P', 'K'], by decide⟩

/-- `EFI_KEY_EXCHANGE_KEY_NAME`. -/
def efiKeyExchangeKeyName : Char16Str :=
  ⟨char16 ['K', 'E', 'K'], by decide⟩

/-- `EFI_IMAGE_SECURITY_DATABASE`. -/
def efiImageSecurityDatabase : Char16Str :=
  ⟨char16 ['d', 'b'], by decide⟩

/-- `EFI_IMAGE_SECURITY_DATABASE1`. -/
def efiImageSecurityDatabase1 : Char16Str :=
  ⟨char16 ['d', 'b', 'x'], by decide⟩

/-- `EFI_IMAGE_SECURITY_DATABASE2`. -/
def efiImageSecurityDatabase2 : Char16Str :=
  ⟨char16 ['d', 'b', 't'], by decide⟩

/-- `EFI_SETUP_MODE_NAME`. -/
def efiSetupModeName : Char16Str :=
  ⟨char16 ['S', 'e', 't', 'u', 'p', 'M', 'o', 'd', 'e'], by decide⟩

/-- `EFI_SECURE_BOOT_MODE_NAME`. -/
def efiSecureBootModeName : Char16Str :=
  ⟨char16 ['S', 'e', 'c', 'u', 'r', 'e', 'B', 'o', 'o', 't'], by decide⟩

/-- `EFI_SIGNATURE_SUPPORT_NAME`. -/
def efiSignatureSupportName : Char16Str :=
  ⟨char16 ['S', 'i', 'g', 'n', 'a', 't', 'u', 'r', 'e', 'S', 'u', 'p', 'p', 'o', 'r', 't'],
    by decide⟩

/-- `EFI_SECURE_BOOT_ENABLE_NAME`. -/
def efiSecureBootEnableName : Char16Str :=
  ⟨char16 ['S', 'e', 'c', 'u', 'r', 'e', 'B', 'o', 'o', 't', 'E', 'n', 'a', 'b', 'l', 'e'],
    by decide⟩

/-- `EFI_CUSTOM_MODE_NAME`. -/
def efiCustomModeName : Char16Str :=
  ⟨char16 ['C', 'u', 's', 't', 'o', 'm', 'M', 'o', 'd', 'e'], by decide⟩

/-- `EFI_VENDOR_KEYS_VARIABLE_NAME`. -/
def efiVendorKeysVariableName : Char16Str :=
  ⟨char16 ['V', 'e', 'n', 'd', 'o', 'r', 'K', 'e', 'y', 's'], by decide⟩

/-- `EFI_VENDOR_KEYS_NV_VARIABLE_NAME`. -/
def efiVendorKeysNvVariableName : Char16Str :=
  ⟨char16 ['V', 'e', 'n', 'd', 'o', 'r', 'K', 'e', 'y', 's', 'N', 'v'], by decide⟩

/-- `AUTHVAR_KEYDB_NAME`. -/
def authvarKeydbName : Char16Str :=
  ⟨char16 ['A', 'u', 't', 'h', 'V', 'a', 'r', 'K', 'e', 'y', 'D', 'a', 't', 'a', 'b', 'a',
    's', 'e'], by decide⟩

/-- `EFI_CERT_DB_NAME`. -/
def efiCertDbName : Char16Str :=
  ⟨char16 ['c', 'e', 'r', 't', 'd', 'b'], by decide⟩

/-- `EFI_PLATFORM_LANG_VARIABLE_NAME`. -/
def efiPlatformLangVariableName : Char16Str :=
  ⟨char16 ['P', 'l', 'a', 't', 'f', 'o', 'r', 'm', 'L', 'a', 'n', 'g'], by decide⟩

/-- `EFI_PLATFORM_LANG_CODES_VARIABLE_NAME`. -/
def efiPlatformLangCodesVariableName : Char16Str :=
  ⟨char16 ['P', 'l', 'a', 't', 'f', 'o', 'r', 'm', 'L', 'a', 'n', 'g', 'C', 'o', 'd', 'e',
    's'], by decide⟩

/-- `EFI_LANG_VARIABLE_NAME`. -/
def efiLangVariableName : Char16Str :=
  ⟨char16 ['L', 'a', 'n', 'g'], by decide⟩

/-- `EFI_LANG_CODES_VARIABLE_NAME`. -/
def efiLangCodesVariableName : Char16Str :=
  ⟨char16 ['L', 'a', 'n', 'g', 'C', 'o', 'd', 'e', 's'], by decide⟩

def efiGlobalVariableGuid : Guid :=
  ⟨[0x61, 0xdf, 0xe4, 0x8b, 0xca, 0x93, 0xd2, 0x11,
    0xaa, 0x0d, 0x00, 0xe0, 0x98, 0x03, 0x2b, 0x8c], by decide⟩

def efiImageSecurityDatabaseGuid : Guid :=
  ⟨[0xcb, 0xb2, 0x19, 0xd7, 0x3a, 0x3d, 0x96, 0x45,
    0xa3, 0xbc, 0xda, 0xd0, 0x0e, 0x67, 0x65, 0x6f], by decide⟩

def efiSecureBootEnableDisableGuid : Guid :=
  ⟨[0xc7, 0x0b, 0xa3, 0xf0, 0x08, 0xaf, 0x56, 0x45,
    0x99, 0xc4, 0x00, 0x10, 0x09, 0xc9, 0x3a, 0x44], by decide⟩

def efiCustomModeEnableGuid : Guid :=
  ⟨[0x0c, 0xec, 0x76, 0xc0, 0x28, 0x70, 0x99, 0x43,
    0xa0, 0x72, 0x71, 0xee, 0x5c, 0x44, 0x8b, 0x9f], by decide⟩

def efiVendorKeysNvGuid : Guid :=
  ⟨[0xe0, 0xe4, 0x73, 0x90, 0xec, 0x60, 0x6e, 0x4b,
    0x99, 0x03, 0x4c, 0x22, 0x3c, 0x26, 0x0f, 0x3c], by decide⟩

def efiAuthenticatedVariableGuid : Guid :=
  ⟨[0x78, 0x2c, 0xf3, 0xaa, 0x7b, 0x94, 0x9a, 0x43,
    0xa1, 0x80, 0x2e, 0x14, 0x4e, 0xc3, 0x77, 0x92], by decide⟩

def efiCertDbGuid : Guid :=
  ⟨[0x6e, 0xe5, 0xbe, 0xd9, 0xdc, 0x75, 0xd9, 0x49,
    0xb4, 0xd7, 0xb5, 0x34, 0x21, 0x0f, 0x63, 0x7a], by decide⟩

def efiCertTypeRsa2048Sha256Guid : Guid :=
  ⟨[0x14, 0x74, 0x71, 0xa7, 0x16, 0xc6, 0x77, 0x49,
    0x94, 0x20, 0x84, 0x47, 0x12, 0xa7, 0x35, 0xbf], by decide⟩

def efiCertPkcs7Guid : Guid :=
  ⟨[0x9d, 0xd2, 0xaf, 0x4a, 0xdf, 0x68, 0xee, 0x49,
    0x8a, 0xa9, 0x34, 0x7d, 0x37, 0x56, 0x65, 0xa7], by decide⟩

def efiCertX509Guid : Guid :=
  ⟨[0xa1, 0x59, 0xc0, 0xa5, 0xe4, 0x94, 0xa7, 0x4a,
    0x87, 0xb5, 0xab, 0x15, 0x5c, 0x2b, 0xf0, 0x72], by decide⟩

end Names

section Names

variable (name : Char16Str) (guid : Guid)

/-- The platform key. -/
def isPlatformKey : Bool :=
  guid == efiGlobalVariableGuid && name == efiPlatformKeyName

/-- The key exchange keys. -/
def isKeyExchangeKey : Bool :=
  guid == efiGlobalVariableGuid && name == efiKeyExchangeKeyName

/-- `db`, `dbx` or `dbt`. -/
def isImageSecurityDatabase : Bool :=
  guid == efiImageSecurityDatabaseGuid &&
    (name == efiImageSecurityDatabase || name == efiImageSecurityDatabase1 ||
      name == efiImageSecurityDatabase2)

end Names

section Descriptors

/-- `WIN_CERT_TYPE_EFI_GUID`. -/
def winCertTypeEfiGuid : Nat := 0x0EF1

/-- `AUTHINFO_SIZE`. -/
def authinfoSize : Nat := 560

/-- `EFI_VARIABLE_AUTHENTICATION`, and the payload behind it. -/
structure VariableAuthentication where
  monotonicCount : UInt64
  wCertificateType : Nat
  certType : Guid
  publicKey : PublicKey
  signature : Bytes
  payload : Bytes

theorem length_publicKey
    {data : Bytes}
    (h : authinfoSize ≤ data.length) :
    (slice data 48 256).length = 256 := by
  simp [slice]
  unfold authinfoSize at h
  omega

/-- Read the descriptor of a counter-based request. -/
def readAuthentication (data : Bytes) : Option VariableAuthentication :=
  if h : authinfoSize ≤ data.length then
    some
      { monotonicCount := UInt64.ofNat (field data 0 8)
        wCertificateType := field data 14 2
        certType := Guid.read (data.drop 16)
        publicKey := ⟨slice data 48 256, length_publicKey h⟩
        signature := slice data 304 256
        payload := data.drop authinfoSize }
  else none

/-- `OFFSET_OF_AUTHINFO2_CERT_DATA`. -/
def offsetOfAuthinfo2CertData : Nat := 40

/-- `AuthInfo.Hdr.dwLength` of an `EFI_VARIABLE_AUTHENTICATION_2`. -/
def dwLength (data : Bytes) : Nat :=
  field data 16 4

/-- `AUTHINFO2_SIZE`. -/
def authinfo2Size (data : Bytes) : Nat :=
  16 + dwLength data

/-- `EFI_VARIABLE_AUTHENTICATION_2`, and the payload behind it. -/
structure VariableAuthentication2 where
  timeStamp : EfiTime
  wCertificateType : Nat
  certType : Guid
  sigData : Bytes
  payload : Bytes

/-- Read the descriptor of a time-based request. -/
def readAuthentication2 (data : Bytes) : Option VariableAuthentication2 :=
  if data.length < offsetOfAuthinfo2CertData || data.length - 16 < dwLength data ||
      dwLength data < 24 then none
  else
    some
      { timeStamp := EfiTime.read data
        wCertificateType := field data 22 2
        certType := Guid.read (data.drop 24)
        sigData := slice data offsetOfAuthinfo2CertData (dwLength data - 24)
        payload := data.drop (authinfo2Size data) }

end Descriptors

section SignatureLists

/-- The header of an `EFI_SIGNATURE_LIST`. -/
structure SignatureList where
  signatureType : Guid
  signatureListSize : Nat
  signatureHeaderSize : Nat
  signatureSize : Nat

/-- The list header at an address. -/
def readSignatureList (mem : Bytes) : SignatureList where
  signatureType := Guid.read mem
  signatureListSize := field mem 16 4
  signatureHeaderSize := field mem 20 4
  signatureSize := field mem 24 4

namespace SignatureList

variable (l : SignatureList)

/-- Offset of the first `EFI_SIGNATURE_DATA` of the list. -/
def dataOffset : Nat :=
  28 + l.signatureHeaderSize

/-- Bytes of the signatures of the list. -/
def signaturesSize : Nat :=
  uintnSub (uintnSub l.signatureListSize 28) l.signatureHeaderSize

/-- Number of signatures in the list. -/
def signatureCount : Nat :=
  l.signaturesSize / l.signatureSize

/-- Size of `SignatureData` of one signature. -/
def certSize : Nat :=
  uintnSub l.signatureSize 16

/-- Signature `index` of the list at `mem`, with its owner. -/
def signatureAt (mem : Bytes) (index : Nat) : Bytes :=
  slice mem (l.dataOffset + index * l.signatureSize) l.signatureSize

/-- `SignatureData` of signature `index`. -/
def certAt (mem : Bytes) (index : Nat) : Bytes :=
  slice mem (l.dataOffset + index * l.signatureSize + 16) l.certSize

end SignatureList

/-- `EFI_SIGNATURE_ITEM`; a size of `none` is no requirement. -/
structure SignatureItem where
  sigType : Guid
  sigHeaderSize : Option Nat
  sigDataSize : Option Nat

/-- `mSupportSigItem`. -/
def mSupportSigItem : List SignatureItem :=
  [⟨⟨[0x26, 0x16, 0xc4, 0xc1, 0x4c, 0x50, 0x92, 0x40,
      0xac, 0xa9, 0x41, 0xf9, 0x36, 0x93, 0x43, 0x28], by decide⟩, some 0, some 32⟩,
    ⟨⟨[0xe8, 0x66, 0x57, 0x3c, 0x9c, 0x26, 0x34, 0x4e,
      0xaa, 0x14, 0xed, 0x77, 0x6e, 0x85, 0xb3, 0xb6], by decide⟩, some 0, some 256⟩,
    ⟨⟨[0x90, 0x61, 0xb3, 0xe2, 0x9b, 0x87, 0x3d, 0x4a,
      0xad, 0x8d, 0xf2, 0xe7, 0xbb, 0xa3, 0x27, 0x84], by decide⟩, some 0, some 256⟩,
    ⟨⟨[0x12, 0xa5, 0x6c, 0x82, 0x10, 0xcf, 0xc9, 0x4a,
      0xb1, 0x87, 0xbe, 0x01, 0x49, 0x66, 0x31, 0xbd], by decide⟩, some 0, some 20⟩,
    ⟨⟨[0x4f, 0x44, 0xf8, 0x67, 0x43, 0x87, 0xf1, 0x48,
      0xa3, 0x28, 0x1e, 0xaa, 0xb8, 0x73, 0x60, 0x80], by decide⟩, some 0, some 256⟩,
    ⟨efiCertX509Guid, some 0, none⟩,
    ⟨⟨[0x33, 0x52, 0x6e, 0x0b, 0x5c, 0xa6, 0xc9, 0x44,
      0x94, 0x07, 0xd9, 0xab, 0x83, 0xbf, 0xc8, 0xbd], by decide⟩, some 0, some 28⟩,
    ⟨⟨[0x07, 0x53, 0x3e, 0xff, 0xd0, 0x9f, 0xc9, 0x48,
      0x85, 0xf1, 0x8a, 0xd5, 0x6c, 0x70, 0x1e, 0x01], by decide⟩, some 0, some 48⟩,
    ⟨⟨[0xae, 0x0f, 0x3e, 0x09, 0xc4, 0xa6, 0x50, 0x4f,
      0x9f, 0x1b, 0xd4, 0x1e, 0x2b, 0x89, 0xc1, 0x9a], by decide⟩, some 0, some 64⟩,
    ⟨⟨[0x92, 0xa4, 0xd2, 0x3b, 0xc0, 0x96, 0x79, 0x40,
      0xb4, 0x20, 0xfc, 0xf9, 0x8e, 0xf1, 0x03, 0xed], by decide⟩, some 0, some 48⟩,
    ⟨⟨[0x6e, 0x87, 0x76, 0x70, 0xc2, 0x80, 0xe6, 0x4e,
      0xaa, 0xd2, 0x28, 0xb3, 0x49, 0xa6, 0x86, 0x5b], by decide⟩, some 0, some 64⟩,
    ⟨⟨[0x63, 0xbf, 0x6d, 0x44, 0x02, 0x25, 0xda, 0x4c,
      0xbc, 0xfa, 0x24, 0x65, 0xd2, 0xb0, 0xfe, 0x9d], by decide⟩, some 0, some 80⟩]

section Format

variable (env : Environment)

/-- What the format check says about one list, `none` when its signature size is zero
and the list is divided by it. -/
def checkSignatureList (mem : Bytes) : Option EfiStatus :=
  let l := readSignatureList mem
  match mSupportSigItem.find? (·.sigType == l.signatureType) with
  | none => some .invalidParameter
  | some item =>
      if item.sigDataSize.any (· != l.certSize) then some .invalidParameter
      else if item.sigHeaderSize.any (· != l.signatureHeaderSize) then some .invalidParameter
      else if l.signatureType == efiCertX509Guid &&
          !env.rsaGetPublicKeyFromX509 (l.certAt mem 0) then some .invalidParameter
      else if l.signatureSize = 0 then none
      else if l.signaturesSize % l.signatureSize ≠ 0 then some .invalidParameter
      else some .success

/-- The walk of `CheckSignatureListFormat`; the first argument is fuel. -/
def checkSignatureLists (isPk : Bool) : Nat → Bytes → Nat → Option EfiStatus
  | 0, _, _ => none
  | fuel + 1, mem, sigCount =>
      let l := readSignatureList mem
      if mem.length = 0 then
        if isPk && decide (1 < sigCount) then some .invalidParameter else some .success
      else if mem.length < l.signatureListSize then some .invalidParameter
      else
        match checkSignatureList env mem with
        | some .success =>
            checkSignatureLists isPk fuel (mem.drop l.signatureListSize)
              ((sigCount + l.signatureCount) % 2 ^ 32)
        | result => result

/-- `CheckSignatureListFormat`. -/
def checkSignatureListFormat (name : Char16Str) (guid : Guid) (data : Bytes) :
    Option EfiStatus :=
  if data.length = 0 then some .success
  else if isPlatformKey name guid then
    checkSignatureLists env true (data.length + 1) data 0
  else if isKeyExchangeKey name guid || isImageSecurityDatabase name guid then
    checkSignatureLists env false (data.length + 1) data 0
  else some .success

end Format

section Filter

/-- A signature is in one of the lists, of the type and size of `new`; the first
argument is fuel. -/
def isOldSignature (new : SignatureList) (signature : Bytes) : Nat → Bytes → Option Bool
  | 0, _ => none
  | fuel + 1, mem =>
      let l := readSignatureList mem
      if mem.length = 0 || decide (mem.length < l.signatureListSize) then some false
      else if l.signatureType == new.signatureType && l.signatureSize == new.signatureSize then
        if l.signatureSize = 0 then none
        else if (List.range l.signatureCount).any (fun i => l.signatureAt mem i == signature) then
          some true
        else isOldSignature new signature fuel (mem.drop l.signatureListSize)
      else isOldSignature new signature fuel (mem.drop l.signatureListSize)

/-- The signatures of the list at `mem` that `data` does not have. -/
def newSignatures (data mem : Bytes) : Option (List Bytes) :=
  let l := readSignatureList mem
  if l.signatureSize = 0 then none
  else
    ((List.range l.signatureCount).map (l.signatureAt mem)).filterMapM (fun signature => do
      let isOld ← isOldSignature l signature (data.length + 1) data
      pure (if isOld then none else some signature))

/-- The list at `mem` with the signatures kept, nothing when none is. -/
def keptList (mem : Bytes) (kept : List Bytes) : Bytes :=
  let l := readSignatureList mem
  if kept.isEmpty then []
  else
    slice mem 0 16 ++ toLE 4 (l.dataOffset + kept.length * l.signatureSize) ++
      slice mem 20 (l.dataOffset - 20) ++ kept.flatten

/-- The walk of `FilterSignatureList` over the new data; the first argument is fuel. -/
def filterSignatureLists (data : Bytes) : Nat → Bytes → Option Bytes
  | 0, _ => none
  | fuel + 1, mem =>
      let l := readSignatureList mem
      if mem.length = 0 || decide (mem.length < l.signatureListSize) then some []
      else
        match newSignatures data mem, filterSignatureLists data fuel (mem.drop l.signatureListSize) with
        | some kept, some rest => some (keptList mem kept ++ rest)
        | _, _ => none

/-- `FilterSignatureList`; without a scratch buffer the new data stays as it is. -/
def filterSignatureList (P : Platform) (data newData : Bytes) : Option Bytes :=
  if newData.length = 0 || !variableExLibGetScratchBuffer P newData.length then some newData
  else filterSignatureLists data (newData.length + 1) newData

end Filter

end SignatureLists

end AuthVariableLib
end Udk
