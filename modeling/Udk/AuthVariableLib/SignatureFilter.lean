import Udk.AuthVariableLib.Descriptors

/-!
# `FilterSignatureList`, pointer by pointer

The three loops of the function with the pointers and sizes they keep.  A pointer is the
memory from it on, which goes on behind the data, and sizes are counted apart, so that
what the loops read does not follow from where the data ends.
-/

/-!
## Signature lists and their bytes

An `EFI_SIGNATURE_LIST` with its signatures, as an object that is well formed, and the
bytes of a signature database.  In front of any other memory the bytes are read back
field by field.
-/

namespace Udk
namespace AuthVariableLib

open Variable List

/-- An `EFI_SIGNATURE_LIST` whose `EFI_SIGNATURE_DATA` fill it exactly. -/
structure SigList where
  signatureType : Guid
  signatureHeader : Bytes
  signatureSize : Nat
  signatures : List Bytes
  size_pos : 0 < signatureSize
  size_lt : signatureSize < 2 ^ 32
  length_eq : ∀ signature ∈ signatures, signature.length = signatureSize
  fits : 28 + signatureHeader.length + signatures.length * signatureSize < 2 ^ 32

namespace SigList

/-- `SignatureListSize`. -/
def size (l : SigList) : Nat :=
  28 + l.signatureHeader.length + l.signatures.length * l.signatureSize

/-- The fields and the header in front of the signatures. -/
def head (l : SigList) : Bytes :=
  l.signatureType.bytes ++ (toLE 4 l.size ++ (toLE 4 l.signatureHeader.length ++
    (toLE 4 l.signatureSize ++ l.signatureHeader)))

def bytes (l : SigList) : Bytes :=
  l.head ++ l.signatures.flatten

/-- The bytes of a signature database. -/
def encode (lists : List SigList) : Bytes :=
  lists.flatMap bytes

theorem encode_cons (l : SigList) (lists : List SigList) :
    encode (l :: lists) = l.bytes ++ encode lists :=
  rfl

theorem length_flatten {signatures : List Bytes} {n : Nat}
    (h : ∀ signature ∈ signatures, signature.length = n) :
    signatures.flatten.length = signatures.length * n := by
  rw [List.length_flatten, map_congr_left h, map_const', sum_replicate,
    smul_eq_mul]

section Read

variable (l : SigList) (rest : Bytes)

@[simp] theorem length_head : l.head.length = 28 + l.signatureHeader.length := by
  simp only [head, length_append, toLE_length, l.signatureType.length_eq]
  omega

@[simp] theorem length_bytes : l.bytes.length = l.size := by
  rw [bytes, length_append, length_head, length_flatten l.length_eq, size]

theorem readSignatureList_bytes :
    readSignatureList (l.bytes ++ rest) =
      ⟨l.signatureType, l.size, l.signatureHeader.length, l.signatureSize⟩ := by
  have hguid := l.signatureType.length_eq
  have hfits := l.fits
  have hsize := l.size_lt
  have hbytes : l.bytes ++ rest = l.signatureType.bytes ++ (toLE 4 l.size ++
      (toLE 4 l.signatureHeader.length ++ (toLE 4 l.signatureSize ++
        (l.signatureHeader ++ (l.signatures.flatten ++ rest))))) := by
    simp [bytes, head]
  have htype : Guid.read (l.bytes ++ rest) = l.signatureType := by
    rw [hbytes, Guid.read_append]
  have hlist : field (l.bytes ++ rest) 16 4 = l.size := by
    rw [hbytes]
    exact field_at _ _ hguid (by unfold size; omega)
  have hheader : field (l.bytes ++ rest) 20 4 = l.signatureHeader.length := by
    rw [hbytes, ← append_assoc]
    exact field_at _ _ (by simp [hguid]) (by omega)
  have hsignature : field (l.bytes ++ rest) 24 4 = l.signatureSize := by
    rw [hbytes, ← append_assoc, ← append_assoc]
    exact field_at _ _ (by simp [hguid]) (by omega)
  rw [readSignatureList, htype, hlist, hheader, hsignature]

theorem signatureCount_read :
    (readSignatureList (l.bytes ++ rest)).signatureCount = l.signatures.length := by
  have hfits := l.fits
  have hsub : uintnSub (uintnSub l.size 28) l.signatureHeader.length =
      l.signatures.length * l.signatureSize := by
    unfold uintnSub size
    omega
  rw [readSignatureList_bytes, SignatureList.signatureCount, SignatureList.signaturesSize, hsub,
    Nat.mul_div_cancel _ l.size_pos]

theorem drop_size : (l.bytes ++ rest).drop l.size = rest :=
  drop_left' l.length_bytes

theorem drop_dataOffset :
    (l.bytes ++ rest).drop (28 + l.signatureHeader.length) = l.signatures.flatten ++ rest := by
  rw [bytes, append_assoc]
  exact drop_left' l.length_head

theorem take_dataOffset :
    (l.bytes ++ rest).take (28 + l.signatureHeader.length) = l.head := by
  rw [bytes, append_assoc]
  exact take_left' l.length_head

end Read

theorem length_le_encode (lists : List SigList) : lists.length ≤ (encode lists).length := by
  induction lists with
  | nil => exact le_refl 0
  | cons l lists ih =>
      rw [encode_cons, length_cons, length_append, length_bytes, size]
      omega

end SigList

end AuthVariableLib
end Udk

namespace Udk
namespace AuthVariableLib
namespace Signatures

open Variable List

section Code

/-- The loop over `Index2`: one of the next `certCount` signatures is equal to `NewCert`. -/
def hasCert (newCert : Bytes) (signatureSize : Nat) : Nat → Bytes → Bool
  | 0, _ => false
  | certCount + 1, cert =>
      if newCert.take signatureSize == cert.take signatureSize then true
      else hasCert newCert signatureSize certCount (cert.drop signatureSize)

/-- The walk over the original lists, which ends with `IsNewCert`; the first argument is
fuel, and a division by zero has no result. -/
def isNewCert (newCertList : SignatureList) (newCert : Bytes) :
    Nat → Nat → Bytes → Option Bool
  | 0, _, _ => none
  | fuel + 1, size, mem =>
      let certList := readSignatureList mem
      if size = 0 ∨ size < certList.signatureListSize then some true
      else if certList.signatureType == newCertList.signatureType &&
          certList.signatureSize == newCertList.signatureSize then
        if certList.signatureSize = 0 then none
        else if hasCert newCert certList.signatureSize certList.signatureCount
            (mem.drop certList.dataOffset) then some false
        else isNewCert newCertList newCert fuel (size - certList.signatureListSize)
          (mem.drop certList.signatureListSize)
      else isNewCert newCertList newCert fuel (size - certList.signatureListSize)
        (mem.drop certList.signatureListSize)

/-- The bytes of the scratch buffer in front of `Tail`, and `CopiedCount`. -/
structure Copied where
  tail : Bytes
  copiedCount : Nat
deriving DecidableEq

/-- Copy the signature, behind the list header if it is the first one. -/
def copyCert (newCertList : SignatureList) (list newCert : Bytes) (copied : Copied) : Copied :=
  let tail :=
    if copied.copiedCount = 0 then copied.tail ++ list.take newCertList.dataOffset
    else copied.tail
  ⟨tail ++ newCert.take newCertList.signatureSize, copied.copiedCount + 1⟩

/-- The loop over `Index`, with `newCertCount - Index` as its first argument. -/
def copyCerts (data : Bytes) (dataSize : Nat) (newCertList : SignatureList) (list : Bytes) :
    Nat → Bytes → Copied → Option Copied
  | 0, _, copied => some copied
  | count + 1, newCert, copied => do
      let isNew ← isNewCert newCertList newCert (dataSize + 1) dataSize data
      copyCerts data dataSize newCertList list count (newCert.drop newCertList.signatureSize)
        (if isNew then copyCert newCertList list newCert copied else copied)

/-- Update `SignatureListSize` in the list kept. -/
def updateListSize (newCertList : SignatureList) (copied : Copied) : Bytes :=
  if copied.copiedCount = 0 then copied.tail
  else
    let signatureListSize :=
      newCertList.dataOffset + copied.copiedCount * newCertList.signatureSize
    copyMem copied.tail (copied.tail.length - signatureListSize + 16) (toLE 4 signatureListSize)

/-- The walk over the new lists, with the scratch buffer up to `Tail`; the first argument
is fuel. -/
def filterLists (data : Bytes) (dataSize : Nat) : Nat → Nat → Bytes → Bytes → Option Bytes
  | 0, _, _, _ => none
  | fuel + 1, newDataSize, list, tail =>
      let newCertList := readSignatureList list
      if newDataSize = 0 ∨ newDataSize < newCertList.signatureListSize then some tail
      else if newCertList.signatureSize = 0 then none
      else do
        let copied ← copyCerts data dataSize newCertList list newCertList.signatureCount
          (list.drop newCertList.dataOffset) ⟨tail, 0⟩
        filterLists data dataSize fuel (newDataSize - newCertList.signatureListSize)
          (list.drop newCertList.signatureListSize) (updateListSize newCertList copied)

/-- What `FilterSignatureList` returns, with the memory at `NewData` and `*NewDataSize`. -/
structure FilterResult where
  status : EfiStatus
  newData : Bytes
  newDataSize : Nat
deriving DecidableEq

/-- `FilterSignatureList`.  Each list takes a byte at least, so that the sizes are enough
fuel. -/
def filterSignatureList (P : Platform) (data : Bytes) (dataSize : Nat) (newData : Bytes)
    (newDataSize : Nat) : Option FilterResult :=
  if newDataSize = 0 then some ⟨.success, newData, newDataSize⟩
  else if !variableExLibGetScratchBuffer P newDataSize then
    some ⟨.outOfResources, newData, newDataSize⟩
  else
    (filterLists data dataSize (newDataSize + 1) newDataSize newData []).map fun tempData =>
      ⟨.success, copyMem newData 0 tempData, tempData.length⟩

end Code

section Meaning

/-- A list of the type and signature size has an equal signature. -/
def isOld (old : List SigList) (l : SigList) (signature : Bytes) : Bool :=
  old.any fun o => o.signatureType == l.signatureType && o.signatureSize == l.signatureSize &&
    o.signatures.contains signature

/-- The signatures of a list that are not old. -/
def newOnes (old : List SigList) (l : SigList) : List Bytes :=
  l.signatures.filter fun signature => !isOld old l signature

/-- The list with its new signatures only. -/
def onlyNew (old : List SigList) (l : SigList) : SigList where
  signatureType := l.signatureType
  signatureHeader := l.signatureHeader
  signatureSize := l.signatureSize
  signatures := newOnes old l
  size_pos := l.size_pos
  size_lt := l.size_lt
  length_eq := fun _ h => l.length_eq _ (mem_of_mem_filter h)
  fits := by
    have hle : (newOnes old l).length ≤ l.signatures.length := length_filter_le _ _
    have hmul := Nat.mul_le_mul_right l.signatureSize hle
    have hfits := l.fits
    omega

/-- The lists with their new signatures, without those that have none left. -/
def filtered (old new : List SigList) : List SigList :=
  (new.map (onlyNew old)).filter fun l => !l.signatures.isEmpty

/-- A signature with what its list says of it. -/
structure Entry where
  signatureType : Guid
  signatureHeader : Bytes
  signatureSize : Nat
  signature : Bytes

/-- The signatures of all lists, in order. -/
def entries (lists : List SigList) : List Entry :=
  lists.flatMap fun l =>
    l.signatures.map (Entry.mk l.signatureType l.signatureHeader l.signatureSize)

/-- No list of the type and signature size has an equal signature. -/
def Entry.isNew (old : List SigList) (e : Entry) : Bool :=
  !old.any fun o => o.signatureType == e.signatureType && o.signatureSize == e.signatureSize &&
    o.signatures.contains e.signature

theorem entries_filtered (old new : List SigList) :
    entries (filtered old new) = (entries new).filter (Entry.isNew old) := by
  induction new with
  | nil => rfl
  | cons l new ih =>
      have hlist : (entries [l]).filter (Entry.isNew old) = entries [onlyNew old l] := by
        simp only [entries, flatMap_cons, flatMap_nil, append_nil, filter_map,
          onlyNew]
        rfl
      have hsplit : entries (l :: new) = entries [l] ++ entries new := by
        simp [entries]
      rw [hsplit, filter_append, ← ih, hlist]
      simp only [filtered, map_cons, filter_cons]
      cases hempty : (onlyNew old l).signatures with
      | nil | cons s kept => simp [entries, hempty]

theorem length_filtered_le (old new : List SigList) :
    (SigList.encode (filtered old new)).length ≤ (SigList.encode new).length := by
  induction new with
  | nil => exact le_refl _
  | cons l new ih =>
      have hone : (onlyNew old l).size ≤ l.size := by
        have hle : (newOnes old l).length ≤ l.signatures.length := length_filter_le _ _
        have hmul := Nat.mul_le_mul_right l.signatureSize hle
        simp only [SigList.size, onlyNew]
        omega
      rw [SigList.encode_cons, length_append, SigList.length_bytes]
      simp only [filtered, map_cons, filter_cons] at ih ⊢
      split_ifs with hempty
      · rw [SigList.encode_cons, length_append, SigList.length_bytes]
        omega
      · omega

/-- A signature that was filtered is old where the result has been appended. -/
theorem filtered_appended (old new : List SigList) :
    filtered (old ++ filtered old new) new = [] := by
  refine eq_nil_iff_forall_not_mem.mpr fun l hl => ?_
  obtain ⟨hmap, hkept⟩ := mem_filter.mp hl
  obtain ⟨m, hm, rfl⟩ := mem_map.mp hmap
  have hnone : newOnes (old ++ filtered old new) m = [] := by
    refine filter_eq_nil_iff.mpr fun s hs hnew => ?_
    rw [isOld, any_append, Bool.not_or, Bool.and_eq_true] at hnew
    obtain ⟨hold, hnot⟩ := hnew
    have hmem : s ∈ (onlyNew old m).signatures := mem_filter.mpr ⟨hs, hold⟩
    have hin : onlyNew old m ∈ filtered old new := by
      refine mem_filter.mpr ⟨mem_map_of_mem hm, ?_⟩
      rw [isEmpty_eq_false_iff.mpr (ne_nil_of_mem hmem), Bool.not_false]
    rw [Bool.not_eq_true', any_eq_false] at hnot
    refine hnot _ hin ?_
    simpa [onlyNew] using hmem
  simp [onlyNew, hnone] at hkept

end Meaning

section Old

variable {l : SigList} {newCert : Bytes}

theorem hasCert_eq (newCert : Bytes) {size : Nat} {signatures : List Bytes}
    (h : ∀ signature ∈ signatures, signature.length = size) (rest : Bytes) :
    hasCert newCert size signatures.length (signatures.flatten ++ rest) =
      signatures.contains (newCert.take size) := by
  induction signatures with
  | nil => rfl
  | cons signature signatures ih =>
      have hlen := h signature mem_cons_self
      have hmem : (signature :: signatures).flatten ++ rest =
          signature ++ (signatures.flatten ++ rest) := by
        simp
      rw [length_cons, hmem, hasCert, take_left' hlen, drop_left' hlen,
        ih fun s hs => h s (mem_cons_of_mem _ hs), contains_cons]
      cases hnew : newCert.take size == signature with
      | true => rfl
      | false => rfl

/-- The walk over the original lists decides whether the signature is old. -/
theorem isNewCert_eq (old : List SigList) (behind : Bytes) {fuel : Nat} (hfuel : old.length < fuel)
    (listSize : Nat) :
    isNewCert ⟨l.signatureType, listSize, l.signatureHeader.length, l.signatureSize⟩ newCert fuel
        (SigList.encode old).length (SigList.encode old ++ behind) =
      some (!isOld old l (newCert.take l.signatureSize)) := by
  induction old generalizing fuel with
  | nil =>
      obtain ⟨fuel, rfl⟩ : ∃ m, fuel = m + 1 := Nat.exists_eq_succ_of_ne_zero (by omega)
      simp only [isNewCert, SigList.encode, flatMap_nil, length_nil, true_or, if_true]
      rfl
  | cons o old ih =>
      obtain ⟨fuel, rfl⟩ : ∃ m, fuel = m + 1 := Nat.exists_eq_succ_of_ne_zero (by omega)
      have hih := ih (by simpa using hfuel : old.length < fuel)
      have hmem : SigList.encode (o :: old) ++ behind = o.bytes ++ (SigList.encode old ++ behind) := by
        rw [SigList.encode_cons, append_assoc]
      have hlen : (SigList.encode (o :: old)).length = o.size + (SigList.encode old).length := by
        rw [SigList.encode_cons, length_append, SigList.length_bytes]
      have hgo : ¬(o.size + (SigList.encode old).length = 0 ∨
          o.size + (SigList.encode old).length < o.size) := by
        unfold SigList.size
        omega
      have hcount := o.signatureCount_read (SigList.encode old ++ behind)
      rw [o.readSignatureList_bytes] at hcount
      have hfound := hasCert_eq newCert o.length_eq (SigList.encode old ++ behind)
      rw [hmem, hlen, isNewCert]
      simp only [o.readSignatureList_bytes, if_neg hgo, hcount, SigList.drop_size,
        SignatureList.dataOffset, SigList.drop_dataOffset, if_neg o.size_pos.ne', hfound,
        Nat.add_sub_cancel_left, hih, isOld, any_cons]
      by_cases htype : (o.signatureType == l.signatureType && o.signatureSize == l.signatureSize) = true
      · have hsize : o.signatureSize = l.signatureSize := by
          simpa using (Bool.and_eq_true_iff.mp htype).2
        rw [if_pos htype, htype, hsize]
        cases o.signatures.contains (newCert.take l.signatureSize) with
        | true => rfl
        | false => rfl
      · rw [if_neg htype, Bool.eq_false_of_not_eq_true htype]
        rfl

end Old

section New

variable {l : SigList} {old : List SigList}

/-- The scratch buffer with some signatures of a list behind what was there. -/
def copiedOf (l : SigList) (before : Bytes) (kept : List Bytes) : Copied :=
  ⟨if kept.isEmpty then before else before ++ (l.head ++ kept.flatten), kept.length⟩

theorem copyCert_copiedOf (before : Bytes) (kept : List Bytes) {signature rest : Bytes}
    (hlen : signature.length = l.signatureSize) (behind : Bytes) :
    copyCert ⟨l.signatureType, l.size, l.signatureHeader.length, l.signatureSize⟩
        (l.bytes ++ behind) (signature ++ rest) (copiedOf l before kept) =
      copiedOf l before (kept ++ [signature]) := by
  have hcert : (signature ++ rest).take l.signatureSize = signature := take_left' hlen
  cases kept with
  | nil =>
      simp only [copyCert, copiedOf, SignatureList.dataOffset, SigList.take_dataOffset, hcert]
      simp
  | cons s kept =>
      simp only [copyCert, copiedOf, hcert]
      simp

theorem copyCerts_eq (behindOld behind before : Bytes) {signatures kept : List Bytes}
    (h : ∀ signature ∈ signatures, signature.length = l.signatureSize) (rest : Bytes) :
    copyCerts (SigList.encode old ++ behindOld) (SigList.encode old).length
        ⟨l.signatureType, l.size, l.signatureHeader.length, l.signatureSize⟩
        (l.bytes ++ behind) signatures.length (signatures.flatten ++ rest)
        (copiedOf l before kept) =
      some (copiedOf l before (kept ++ signatures.filter fun s => !isOld old l s)) := by
  induction signatures generalizing kept with
  | nil => simp [copyCerts]
  | cons signature signatures ih =>
      have hlen := h signature mem_cons_self
      have hmem : (signature :: signatures).flatten ++ rest =
          signature ++ (signatures.flatten ++ rest) := by
        simp
      have hcert : (signature ++ (signatures.flatten ++ rest)).take l.signatureSize = signature :=
        take_left' hlen
      have hnext : (signature ++ (signatures.flatten ++ rest)).drop l.signatureSize =
          signatures.flatten ++ rest :=
        drop_left' hlen
      have hfuel : old.length < (SigList.encode old).length + 1 :=
        Nat.lt_succ_of_le (SigList.length_le_encode old)
      have hrest : ∀ s ∈ signatures, s.length = l.signatureSize := fun s hs =>
        h s (mem_cons_of_mem _ hs)
      rw [length_cons, hmem, copyCerts, isNewCert_eq old behindOld hfuel, hcert]
      simp only [Option.bind_eq_bind, Option.bind_some, hnext]
      cases hold : isOld old l signature with
      | true =>
          simp only [Bool.not_true, Bool.false_eq_true, if_false]
          rw [ih hrest, filter_cons_of_neg (by simp [hold])]
      | false =>
          simp only [Bool.not_false, if_true]
          rw [copyCert_copiedOf before kept hlen behind, ih hrest,
            filter_cons_of_pos (by simp [hold]), append_assoc, singleton_append]

/-- The list size written last makes the list with its new signatures. -/
theorem updateListSize_eq (before : Bytes) :
    updateListSize ⟨l.signatureType, l.size, l.signatureHeader.length, l.signatureSize⟩
        (copiedOf l before (newOnes old l)) =
      before ++ SigList.encode ([onlyNew old l].filter fun l => !l.signatures.isEmpty) := by
  cases hkept : newOnes old l with
  | nil =>
      have hnone : [onlyNew old l].filter (fun l => !l.signatures.isEmpty) = [] := by
        simp [onlyNew, hkept]
      rw [hnone]
      simp [updateListSize, copiedOf, SigList.encode]
  | cons s kept =>
      have hone : [onlyNew old l].filter (fun l => !l.signatures.isEmpty) = [onlyNew old l] := by
        simp [onlyNew, hkept]
      have hsize : 28 + l.signatureHeader.length + (s :: kept).length * l.signatureSize =
          (onlyNew old l).size := by
        simp only [SigList.size, onlyNew, hkept]
      have hflat : ((s :: kept).flatten).length = (s :: kept).length * l.signatureSize := by
        refine SigList.length_flatten fun signature hs => ?_
        rw [← hkept] at hs
        exact l.length_eq _ (mem_of_mem_filter hs)
      have hguid := l.signatureType.length_eq
      have htail : before ++ (l.head ++ (s :: kept).flatten) =
          (before ++ l.signatureType.bytes) ++ (toLE 4 l.size ++
            (toLE 4 l.signatureHeader.length ++ (toLE 4 l.signatureSize ++
              (l.signatureHeader ++ (s :: kept).flatten)))) := by
        simp [SigList.head]
      have hoffset : (before ++ (l.head ++ (s :: kept).flatten)).length -
          (onlyNew old l).size + 16 = (before ++ l.signatureType.bytes).length + 0 := by
        simp only [length_append, SigList.length_head, hflat, ← hsize, hguid]
        omega
      have hwrite : copyMem (toLE 4 l.size) 0 (toLE 4 (onlyNew old l).size) =
          toLE 4 (onlyNew old l).size := by
        rw [copyMem_zero (by simp), drop_eq_nil_of_le (by simp), append_nil]
      rw [hone, updateListSize, copiedOf, if_neg (by simp)]
      simp only [isEmpty_cons, Bool.false_eq_true, if_false, SignatureList.dataOffset, hsize,
        hoffset]
      rw [htail, copyMem, overlay_append _ _ _ _ _ _ (by simp), ← copyMem, hwrite]
      simp [SigList.encode, SigList.bytes, SigList.head, onlyNew, hkept]

/-- The walk over the new lists. -/
theorem filterLists_eq (behindOld behind : Bytes) {new : List SigList} {fuel : Nat}
    (hfuel : new.length < fuel) (before : Bytes) :
    filterLists (SigList.encode old ++ behindOld) (SigList.encode old).length fuel
        (SigList.encode new).length (SigList.encode new ++ behind) before =
      some (before ++ SigList.encode (filtered old new)) := by
  induction new generalizing fuel before with
  | nil =>
      obtain ⟨fuel, rfl⟩ : ∃ m, fuel = m + 1 := Nat.exists_eq_succ_of_ne_zero (by omega)
      simp [filterLists, filtered, SigList.encode]
  | cons l new ih =>
      obtain ⟨fuel, rfl⟩ : ∃ m, fuel = m + 1 := Nat.exists_eq_succ_of_ne_zero (by omega)
      have hmem : SigList.encode (l :: new) ++ behind = l.bytes ++ (SigList.encode new ++ behind) := by
        rw [SigList.encode_cons, append_assoc]
      have hlen : (SigList.encode (l :: new)).length = l.size + (SigList.encode new).length := by
        rw [SigList.encode_cons, length_append, SigList.length_bytes]
      have hgo : ¬(l.size + (SigList.encode new).length = 0 ∨
          l.size + (SigList.encode new).length < l.size) := by
        unfold SigList.size
        omega
      have hcount := l.signatureCount_read (SigList.encode new ++ behind)
      rw [l.readSignatureList_bytes] at hcount
      have hcopy := @copyCerts_eq l old behindOld (SigList.encode new ++ behind) before
        l.signatures [] l.length_eq (SigList.encode new ++ behind)
      rw [nil_append] at hcopy
      have hsplit : filtered old (l :: new) =
          [onlyNew old l].filter (fun l => !l.signatures.isEmpty) ++ filtered old new := by
        simp only [filtered, map_cons, filter_cons, filter_nil]
        split_ifs <;> rfl
      rw [hmem, hlen, filterLists]
      simp only [l.readSignatureList_bytes, if_neg hgo, hcount, SigList.drop_size,
        SignatureList.dataOffset, SigList.drop_dataOffset, if_neg l.size_pos.ne',
        Nat.add_sub_cancel_left]
      rw [show (⟨before, 0⟩ : Copied) = copiedOf l before [] from rfl, hcopy, Option.bind_eq_bind,
        Option.bind_some, ih (by simpa using hfuel)]
      rw [show (List.filter (fun s => !isOld old l s) l.signatures) = newOnes old l from rfl,
        updateListSize_eq, hsplit, append_assoc]
      simp [SigList.encode]

end New

/-- **Append filtering.**  On signature databases the function returns, and when it succeeds
`NewData` holds the new lists with the entries that are new, without empty lists; nothing
behind the new data has changed. -/
theorem filterSignatureList_exact (P : Platform) (old new : List SigList)
    (behindOld behind : Bytes) :
    ∃ result, filterSignatureList P (SigList.encode old ++ behindOld) (SigList.encode old).length
        (SigList.encode new ++ behind) (SigList.encode new).length = some result ∧
      (result.status = .success →
        result.newDataSize = (SigList.encode (filtered old new)).length ∧
        result.newData.take result.newDataSize = SigList.encode (filtered old new) ∧
        result.newData.drop (SigList.encode new).length = behind ∧
        entries (filtered old new) = (entries new).filter (Entry.isNew old) ∧
        ∀ l ∈ filtered old new, l.signatures ≠ []) := by
  have hentries := entries_filtered old new
  have hnonempty : ∀ l ∈ filtered old new, l.signatures ≠ [] := by
    intro l hl
    have hkept := (mem_filter.mp hl).2
    simpa using hkept
  have hle := length_filtered_le old new
  rw [filterSignatureList]
  split_ifs with hzero hscratch
  · refine ⟨_, rfl, fun _ => ⟨?_, ?_, drop_left, hentries, hnonempty⟩⟩
    · show (SigList.encode new).length = _
      omega
    · rw [eq_nil_of_length_eq_zero (by omega : (SigList.encode (filtered old new)).length = 0)]
      exact take_eq_nil_iff.mpr (Or.inl hzero)
  · exact ⟨_, rfl, fun h => by cases h⟩
  · rw [filterLists_eq behindOld behind (Nat.lt_succ_of_le (SigList.length_le_encode new))]
    have hcopy : copyMem (SigList.encode new ++ behind) 0 (SigList.encode (filtered old new)) =
        SigList.encode (filtered old new) ++
          (SigList.encode new ++ behind).drop (SigList.encode (filtered old new)).length :=
      copyMem_zero (by rw [length_append]; omega)
    refine ⟨_, rfl, fun _ => ⟨rfl, ?_, ?_, hentries, hnonempty⟩⟩
    · show (copyMem _ 0 ([] ++ _)).take ([] ++ _).length = _
      rw [nil_append, hcopy, take_left]
    · show (copyMem _ 0 ([] ++ _)).drop _ = behind
      rw [nil_append, copyMem, overlay_drop _ _ (by omega), drop_left]

/-- **Appending twice.**  Where what was filtered has been appended, the same lists add nothing. -/
theorem filterSignatureList_twice (P : Platform) (old new : List SigList)
    (behindOld behind : Bytes) :
    ∃ result, filterSignatureList P (SigList.encode (old ++ filtered old new) ++ behindOld)
        (SigList.encode (old ++ filtered old new)).length
        (SigList.encode new ++ behind) (SigList.encode new).length = some result ∧
      result.newData = SigList.encode new ++ behind ∧
      (result.status = .success → result.newDataSize = 0) := by
  rw [filterSignatureList]
  split_ifs with hzero hscratch
  · exact ⟨_, rfl, rfl, fun _ => hzero⟩
  · exact ⟨_, rfl, rfl, fun h => by cases h⟩
  · rw [filterLists_eq behindOld behind (Nat.lt_succ_of_le (SigList.length_le_encode new)),
      filtered_appended]
    exact ⟨_, rfl, copyMem_zero (Nat.zero_le _), fun _ => rfl⟩

end Signatures
end AuthVariableLib
end Udk
