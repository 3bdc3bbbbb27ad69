import Udk.AuthVariableLib.SignatureFilter

/-!
# `CheckSignatureListFormat`

The walk of the format check with its size and pointer, over memory that goes on behind
the data, and the walk over `KEK` that trusts what the check accepted.  The sizes of a list
are subtracted without a look at their order, so that a list shorter than its own header
can pass.
-/

namespace Udk
namespace AuthVariableLib
namespace Signatures

open Variable List

section Code

/-- `RsaGetPublicKeyFromX509`, which refuses sizes above `INT_MAX`; `parse` is the parser
of the certificate. -/
def rsaGetPublicKeyFromX509 (parse : Bytes → Bool) (cert : Bytes) (certSize : Nat) : Bool :=
  decide (certSize < 2 ^ 31) && parse (cert.take certSize)

/-- What the body of the walk says about the list at a pointer; a division by zero has no
result. -/
def checkList (parse : Bytes → Bool) (mem : Bytes) : Option EfiStatus :=
  let sigList := readSignatureList mem
  match mSupportSigItem.find? (·.sigType == sigList.signatureType) with
  | none => some .invalidParameter
  | some item =>
      if item.sigDataSize.any (· != sigList.certSize) then some .invalidParameter
      else if item.sigHeaderSize.any (· != sigList.signatureHeaderSize) then some .invalidParameter
      else if sigList.signatureType == efiCertX509Guid &&
          !rsaGetPublicKeyFromX509 parse (mem.drop (sigList.dataOffset + 16)) sigList.certSize then
        some .invalidParameter
      else if sigList.signatureSize = 0 then none
      else if sigList.signaturesSize % sigList.signatureSize ≠ 0 then some .invalidParameter
      else some .success

/-- The walk with `SigDataSize`, `SigList` and `SigCount`; the first argument is fuel. -/
def checkLists (parse : Bytes → Bool) (isPk : Bool) :
    Nat → Nat → Bytes → Nat → Option EfiStatus
  | 0, _, _, _ => none
  | fuel + 1, sigDataSize, mem, sigCount =>
      let sigList := readSignatureList mem
      if sigDataSize = 0 then
        if isPk && decide (1 < sigCount) then some .invalidParameter else some .success
      else if sigDataSize < sigList.signatureListSize then some .invalidParameter
      else
        match checkList parse mem with
        | some .success =>
            checkLists parse isPk fuel (sigDataSize - sigList.signatureListSize)
              (mem.drop sigList.signatureListSize)
              ((sigCount + sigList.signatureCount) % 2 ^ 32)
        | result => result

/-- `CheckSignatureListFormat`; `fuel` bounds the rounds of its walk. -/
def checkSignatureListFormat (parse : Bytes → Bool) (name : Char16Str) (guid : Guid)
    (fuel : Nat) (data : Bytes) (dataSize : Nat) : Option EfiStatus :=
  if dataSize = 0 then some .success
  else if isPlatformKey name guid then checkLists parse true fuel dataSize data 0
  else if isKeyExchangeKey name guid || isImageSecurityDatabase name guid then
    checkLists parse false fuel dataSize data 0
  else some .success

/-- The loop over the certificates of a list: what goes to `Pkcs7Verify`. -/
def certsOfList (certSize signatureSize : Nat) : Nat → Bytes → List Bytes
  | 0, _ => []
  | count + 1, cert =>
      (cert.drop 16).take certSize ::
        certsOfList certSize signatureSize count (cert.drop signatureSize)

/-- The walk over `KEK`, as long as no certificate verifies; the first argument is fuel. -/
def kekWalk : Nat → Nat → Bytes → Option (List Bytes)
  | 0, _, _ => none
  | fuel + 1, kekDataSize, mem =>
      let certList := readSignatureList mem
      if kekDataSize = 0 ∨ kekDataSize < certList.signatureListSize then some []
      else if certList.signatureType == efiCertX509Guid && certList.signatureSize = 0 then none
      else do
        let certs :=
          if certList.signatureType == efiCertX509Guid then
            certsOfList certList.certSize certList.signatureSize certList.signatureCount
              (mem.drop certList.dataOffset)
          else []
        let rest ← kekWalk fuel (kekDataSize - certList.signatureListSize)
          (mem.drop certList.signatureListSize)
        pure (certs ++ rest)

end Code

section Tests

variable {parse : Bytes → Bool} {mem : Bytes}

theorem mSupportSigItem_sizes : ∀ item ∈ mSupportSigItem, item.sigHeaderSize = some 0 ∧
    (item.sigDataSize = none → item.sigType = efiCertX509Guid) ∧
    ∀ n ∈ item.sigDataSize, n < 2 ^ 31 := by
  decide

theorem certSize_lt {l : SignatureList} (hlt : l.signatureSize < 2 ^ 32)
    (h : l.certSize < 2 ^ 31) : 16 ≤ l.signatureSize ∧ l.certSize = l.signatureSize - 16 := by
  unfold SignatureList.certSize uintnSub at *
  omega

/-- What passes the tests: a list without header whose signatures have an owner each and,
by the sizes as they are subtracted, fill it.  There is no division by zero. -/
theorem checkList_cases (parse : Bytes → Bool) (mem : Bytes) :
    checkList parse mem = some .invalidParameter ∨
      checkList parse mem = some .success ∧ 16 ≤ (readSignatureList mem).signatureSize ∧
        (readSignatureList mem).signatureHeaderSize = 0 ∧
        (readSignatureList mem).signaturesSize % (readSignatureList mem).signatureSize = 0 := by
  have hlt : (readSignatureList mem).signatureSize < 2 ^ 32 := field_lt mem 24 4
  unfold checkList
  cases hitem : mSupportSigItem.find? (·.sigType == (readSignatureList mem).signatureType) with
  | none => exact Or.inl (by simp only [hitem])
  | some item =>
      obtain ⟨hheader, hx509, hsize⟩ := mSupportSigItem_sizes item (mem_of_find?_eq_some hitem)
      have htype : item.sigType = (readSignatureList mem).signatureType := by
        simpa using find?_some hitem
      simp only [hitem, hheader, Option.any_some, bne_iff_ne, ne_eq]
      by_cases hdata : item.sigDataSize.any (· != (readSignatureList mem).certSize) = true
      · exact Or.inl (if_pos hdata)
      by_cases hhead : (0 : Nat) = (readSignatureList mem).signatureHeaderSize
      swap
      · exact Or.inl (by rw [if_neg hdata, if_pos hhead])
      by_cases hparse : ((readSignatureList mem).signatureType == efiCertX509Guid &&
          !rsaGetPublicKeyFromX509 parse (mem.drop ((readSignatureList mem).dataOffset + 16))
            (readSignatureList mem).certSize) = true
      · exact Or.inl (by rw [if_neg hdata, if_neg (not_not.mpr hhead), if_pos hparse])
      have hcert : (readSignatureList mem).certSize < 2 ^ 31 := by
        cases hn : item.sigDataSize with
        | none =>
            rw [← htype, hx509 hn] at hparse
            simp only [rsaGetPublicKeyFromX509, beq_self_eq_true, Bool.true_and,
              Bool.not_eq_true', Bool.not_eq_false, Bool.and_eq_true, decide_eq_true_eq] at hparse
            exact hparse.1
        | some n =>
            rw [hn] at hdata hsize
            have hn' : n = (readSignatureList mem).certSize := by simpa using hdata
            rw [← hn']
            exact hsize n rfl
      have howner := (certSize_lt hlt hcert).1
      rw [if_neg hdata, if_neg (not_not.mpr hhead), if_neg hparse, if_neg (by omega)]
      by_cases hmod : (readSignatureList mem).signaturesSize %
          (readSignatureList mem).signatureSize = 0
      · exact Or.inr ⟨if_neg (not_not.mpr hmod), howner, hhead.symm, hmod⟩
      · exact Or.inl (if_pos hmod)

end Tests

section Chain

variable {parse : Bytes → Bool} {isPk : Bool} {lists : List SignatureList}

/-- The walk passes these lists, from one size and pointer to another. -/
inductive Passes (parse : Bytes → Bool) : Nat → Bytes → List SignatureList → Nat → Bytes → Prop
  | nil (size : Nat) (mem : Bytes) : Passes parse size mem [] size mem
  | cons {size size' : Nat} {mem mem' : Bytes} {lists : List SignatureList} (hsize : size ≠ 0)
      (hfits : (readSignatureList mem).signatureListSize ≤ size)
      (hcheck : checkList parse mem = some .success)
      (hrest : Passes parse (size - (readSignatureList mem).signatureListSize)
        (mem.drop (readSignatureList mem).signatureListSize) lists size' mem') :
      Passes parse size mem (readSignatureList mem :: lists) size' mem'

/-- `SigCount` behind some lists. -/
def countSignatures (sigCount : Nat) (lists : List SignatureList) : Nat :=
  lists.foldl (fun count l => (count + l.signatureCount) % 2 ^ 32) sigCount

theorem checkLists_step {fuel size sigCount : Nat} {mem : Bytes} (hsize : size ≠ 0)
    (hfits : (readSignatureList mem).signatureListSize ≤ size)
    (hcheck : checkList parse mem = some .success) :
    checkLists parse isPk (fuel + 1) size mem sigCount =
      checkLists parse isPk fuel (size - (readSignatureList mem).signatureListSize)
        (mem.drop (readSignatureList mem).signatureListSize)
        ((sigCount + (readSignatureList mem).signatureCount) % 2 ^ 32) := by
  simp only [checkLists, if_neg hsize, if_neg (not_lt.mpr hfits), hcheck]

theorem checkLists_success {fuel size sigCount : Nat} {mem : Bytes}
    (h : checkLists parse isPk fuel size mem sigCount = some .success) :
    ∃ lists mem', Passes parse size mem lists 0 mem' ∧
      (isPk = true → countSignatures sigCount lists ≤ 1) := by
  induction fuel generalizing size mem sigCount with
  | zero => cases h
  | succ fuel ih =>
      by_cases hsize : size = 0
      · subst hsize
        refine ⟨[], mem, .nil 0 mem, fun hpk => ?_⟩
        by_contra hcount
        have hmany : 1 < sigCount := not_le.mp hcount
        simp only [checkLists, if_true, hpk, Bool.true_and] at h
        rw [if_pos (decide_eq_true hmany)] at h
        cases h
      · by_cases hfits : (readSignatureList mem).signatureListSize ≤ size
        · rcases checkList_cases parse mem with hbad | ⟨hcheck, -⟩
          · simp only [checkLists, if_neg hsize, if_neg (not_lt.mpr hfits), hbad] at h
            cases h
          · rw [checkLists_step hsize hfits hcheck] at h
            obtain ⟨lists, mem', hpasses, hcount⟩ := ih h
            exact ⟨_, mem', .cons hsize hfits hcheck hpasses, hcount⟩
        · simp only [checkLists, if_neg hsize, if_pos (not_le.mp hfits)] at h
          cases h

theorem Passes.accepted {fuel size sigCount : Nat} {mem mem' : Bytes}
    (h : Passes parse size mem lists 0 mem') (hfuel : lists.length < fuel)
    (hcount : isPk = true → countSignatures sigCount lists ≤ 1) :
    checkLists parse isPk fuel size mem sigCount = some .success := by
  induction lists generalizing fuel size mem sigCount with
  | nil =>
      obtain ⟨fuel, rfl⟩ : ∃ m, fuel = m + 1 := Nat.exists_eq_succ_of_ne_zero (by omega)
      cases h
      rw [checkLists, if_pos rfl, if_neg]
      intro hmany
      rw [Bool.and_eq_true, decide_eq_true_eq] at hmany
      exact absurd (hcount hmany.1) (not_le.mpr hmany.2)
  | cons l lists ih =>
      obtain ⟨fuel, rfl⟩ : ∃ m, fuel = m + 1 := Nat.exists_eq_succ_of_ne_zero (by omega)
      cases h with
      | cons hsize hfits hcheck hrest =>
          rw [checkLists_step hsize hfits hcheck]
          exact ih hrest (by simpa using hfuel) hcount

theorem Passes.stuck {size size' : Nat} {mem mem' : Bytes}
    (h : Passes parse size mem lists size' mem') (hzero : ∃ l ∈ lists, l.signatureListSize = 0)
    (fuel sigCount : Nat) : checkLists parse isPk fuel size mem sigCount = none := by
  induction fuel generalizing size mem lists sigCount with
  | zero => rfl
  | succ fuel ih =>
      cases h with
      | nil =>
          obtain ⟨l, hl, -⟩ := hzero
          cases hl
      | cons hsize hfits hcheck hrest =>
          rw [checkLists_step hsize hfits hcheck]
          by_cases hhead : (readSignatureList mem).signatureListSize = 0
          · -- the same list again
            rw [hhead, Nat.sub_zero, drop_zero]
            exact ih (.cons hsize hfits hcheck hrest) ⟨_, mem_cons_self, hhead⟩ _
          · obtain ⟨l, hl, hlzero⟩ := hzero
            rcases mem_cons.mp hl with rfl | hl
            · exact absurd hlzero hhead
            · exact ih hrest ⟨l, hl, hlzero⟩ _

theorem checkLists_returns {fuel size sigCount : Nat} {mem : Bytes} (hfuel : size < fuel)
    (hpos : ∀ lists size' mem', Passes parse size mem lists size' mem' →
      ∀ l ∈ lists, l.signatureListSize ≠ 0) :
    ∃ status, checkLists parse isPk fuel size mem sigCount = some status := by
  induction fuel generalizing size mem sigCount with
  | zero => exact absurd hfuel (Nat.not_lt_zero _)
  | succ fuel ih =>
      by_cases hsize : size = 0
      · simp only [checkLists, if_pos hsize]
        split_ifs
        · exact ⟨_, rfl⟩
        · exact ⟨_, rfl⟩
      · by_cases hfits : (readSignatureList mem).signatureListSize ≤ size
        · rcases checkList_cases parse mem with hbad | ⟨hcheck, -⟩
          · exact ⟨.invalidParameter, by
              simp only [checkLists, if_neg hsize, if_neg (not_lt.mpr hfits), hbad]⟩
          · have hhead := hpos _ _ _ (.cons hsize hfits hcheck (.nil _ _)) _ mem_cons_self
            rw [checkLists_step hsize hfits hcheck]
            refine ih (by omega) fun lists size' mem' hpasses l hl => ?_
            exact hpos _ _ _ (.cons hsize hfits hcheck hpasses) l (mem_cons_of_mem _ hl)
        · exact ⟨.invalidParameter, by
            simp only [checkLists, if_neg hsize, if_pos (not_le.mp hfits)]⟩

end Chain

section WellFormed

variable {parse : Bytes → Bool}

/-- Bytes cut into pieces of one size. -/
def chunks (n : Nat) : Nat → Bytes → List Bytes
  | 0, _ => []
  | count + 1, bs => bs.take n :: chunks n count (bs.drop n)

theorem flatten_chunks {n count : Nat} {bs : Bytes} (h : bs.length = count * n) :
    (chunks n count bs).flatten = bs := by
  induction count generalizing bs with
  | zero => exact (eq_nil_of_length_eq_zero (by omega)).symm
  | succ count ih =>
      rw [Nat.succ_mul] at h
      rw [chunks, flatten_cons, ih (by rw [length_drop]; omega)]
      exact take_append_drop n bs

theorem length_of_mem_chunks {n count : Nat} {bs chunk : Bytes} (h : bs.length = count * n)
    (hmem : chunk ∈ chunks n count bs) : chunk.length = n := by
  induction count generalizing bs with
  | zero => cases hmem
  | succ count ih =>
      rw [Nat.succ_mul] at h
      rcases mem_cons.mp hmem with rfl | hmem
      · rw [length_take]
        omega
      · exact ih (by rw [length_drop]; omega) hmem

theorem length_chunks (n count : Nat) (bs : Bytes) : (chunks n count bs).length = count := by
  induction count generalizing bs with
  | zero => rfl
  | succ count ih => rw [chunks, length_cons, ih]

/-- The signature lists of a database, each with room for the signature owners. -/
def IsDatabase (data : Bytes) : Prop :=
  ∃ lists : List SigList, data = SigList.encode lists ∧ ∀ l ∈ lists, 16 ≤ l.signatureSize

theorem Guid.bytes_read {mem : Bytes} (h : 16 ≤ mem.length) :
    (Guid.read mem).bytes = slice mem 0 16 := by
  show (mem ++ List.replicate 16 0).take 16 = (mem.drop 0).take 16
  rw [take_append_of_le_length h, drop_zero]

/-- A list that passes and is at least as long as its header is well formed. -/
theorem sigList_of_checkList {mem : Bytes} (hcheck : checkList parse mem = some .success)
    (hhead : 28 ≤ (readSignatureList mem).signatureListSize)
    (hle : (readSignatureList mem).signatureListSize ≤ mem.length) :
    ∃ l : SigList, l.bytes = mem.take (readSignatureList mem).signatureListSize ∧
      16 ≤ l.signatureSize := by
  rcases checkList_cases parse mem with hbad | ⟨-, howner, hheader, hmod⟩
  · rw [hbad] at hcheck
    cases hcheck
  have hlist : (readSignatureList mem).signatureListSize < 2 ^ 32 := field_lt mem 16 4
  have hsub : (readSignatureList mem).signaturesSize =
      (readSignatureList mem).signatureListSize - 28 := by
    rw [SignatureList.signaturesSize, hheader]
    unfold uintnSub
    omega
  rw [hsub] at hmod
  obtain ⟨count, hcount⟩ := Nat.dvd_of_mod_eq_zero hmod
  rw [Nat.mul_comm] at hcount
  have hbody : (slice mem 28 ((readSignatureList mem).signatureListSize - 28)).length =
      count * (readSignatureList mem).signatureSize := by
    rw [slice_length]
    omega
  let l : SigList := {
    signatureType := Guid.read mem
    signatureHeader := []
    signatureSize := (readSignatureList mem).signatureSize
    signatures := chunks (readSignatureList mem).signatureSize count
      (slice mem 28 ((readSignatureList mem).signatureListSize - 28))
    size_pos := by omega
    size_lt := field_lt mem 24 4
    length_eq := fun _ h => length_of_mem_chunks hbody h
    fits := by
      rw [length_chunks, ← hcount, length_nil]
      omega }
  have hsize : l.size = (readSignatureList mem).signatureListSize := by
    show 28 + 0 + (chunks _ count _).length * _ = _
    rw [length_chunks, ← hcount]
    omega
  have hzero : toLE 4 0 = slice mem 20 4 := by
    rw [← hheader]
    exact toLE_field (by omega)
  refine ⟨l, ?_, howner⟩
  calc l.bytes
      = ((Guid.read mem).bytes ++ (toLE 4 l.size ++ (toLE 4 0 ++
          (toLE 4 (readSignatureList mem).signatureSize ++ [])))) ++
          (chunks _ count _).flatten := rfl
    _ = slice mem 0 16 ++ slice mem (0 + 16) 4 ++ slice mem (0 + (16 + 4)) 4 ++
          slice mem (0 + (16 + 4 + 4)) 4 ++
          slice mem (0 + (16 + 4 + 4 + 4)) ((readSignatureList mem).signatureListSize - 28) := by
      rw [flatten_chunks hbody, hsize, hzero, Guid.bytes_read (by omega)]
      simp only [readSignatureList, toLE_field (by omega : 16 + 4 ≤ mem.length),
        toLE_field (by omega : 24 + 4 ≤ mem.length), append_nil, append_assoc,
        Nat.zero_add, Nat.reduceAdd]
    _ = slice mem 0 (16 + 4 + 4 + 4 + ((readSignatureList mem).signatureListSize - 28)) := by
      simp only [slice_append_slice]
    _ = mem.take (readSignatureList mem).signatureListSize := by
      rw [slice, drop_zero]
      congr 1
      omega

/-- A chain of lists that are not shorter than their header, up to the end of the data,
makes the data a database. -/
theorem Passes.isDatabase {data behind mem' : Bytes} {lists : List SignatureList}
    (h : Passes parse data.length (data ++ behind) lists 0 mem')
    (hhead : ∀ l ∈ lists, 28 ≤ l.signatureListSize) : IsDatabase data := by
  induction lists generalizing data with
  | nil =>
      refine ⟨[], ?_, fun l hl => by cases hl⟩
      generalize hsize : data.length = size at h
      cases h
      exact eq_nil_of_length_eq_zero hsize
  | cons l lists ih =>
      cases h with
      | cons hsize hfits hcheck hrest =>
          obtain ⟨s, hbytes, howner⟩ := sigList_of_checkList hcheck
            (hhead _ mem_cons_self) (by rw [length_append]; omega)
          rw [take_append_of_le_length hfits] at hbytes
          rw [drop_append_of_le_length hfits, ← length_drop] at hrest
          obtain ⟨others, hothers, hall⟩ := ih hrest fun l hl =>
            hhead l (mem_cons_of_mem _ hl)
          refine ⟨s :: others, ?_, ?_⟩
          · rw [SigList.encode_cons, hbytes, ← hothers, take_append_drop]
          · intro l hl
            rcases mem_cons.mp hl with rfl | hl
            · exact howner
            · exact hall l hl

theorem Passes.head_le {lists : List SigList} {behind mem' : Bytes} {size' : Nat}
    {passed : List SignatureList}
    (h : Passes parse (SigList.encode lists).length (SigList.encode lists ++ behind) passed
      size' mem') : ∀ l ∈ passed, 28 ≤ l.signatureListSize := by
  induction lists generalizing passed with
  | nil =>
      cases h with
      | nil =>
          intro l hl
          cases hl
      | cons hsize hfits hcheck hrest => exact absurd rfl hsize
  | cons s lists ih =>
      cases h with
      | nil =>
          intro l hl
          cases hl
      | cons hsize hfits hcheck hrest =>
          have hmem : SigList.encode (s :: lists) ++ behind =
              s.bytes ++ (SigList.encode lists ++ behind) := by
            rw [SigList.encode_cons, append_assoc]
          have hlen : (SigList.encode (s :: lists)).length - s.size =
              (SigList.encode lists).length := by
            rw [SigList.encode_cons, length_append, SigList.length_bytes,
              Nat.add_sub_cancel_left]
          simp only [hmem, SigList.readSignatureList_bytes, SigList.drop_size, hlen] at hrest ⊢
          intro l hl
          rcases mem_cons.mp hl with rfl | hl
          · show 28 ≤ s.size
            unfold SigList.size
            omega
          · exact ih hrest l hl

end WellFormed

section Walks

theorem certsOfList_eq {size : Nat} {signatures : List Bytes}
    (h : ∀ signature ∈ signatures, signature.length = size) (howner : 16 ≤ size) (rest : Bytes) :
    certsOfList (size - 16) size signatures.length (signatures.flatten ++ rest) =
      signatures.map (·.drop 16) := by
  induction signatures with
  | nil => rfl
  | cons signature signatures ih =>
      have hlen := h signature mem_cons_self
      have hmem : (signature :: signatures).flatten ++ rest =
          signature ++ (signatures.flatten ++ rest) := by
        simp
      have hcert : ((signature ++ (signatures.flatten ++ rest)).drop 16).take (size - 16) =
          signature.drop 16 := by
        rw [drop_append_of_le_length (by omega), take_left']
        rw [length_drop, hlen]
      rw [length_cons, hmem, certsOfList, hcert, drop_left' hlen,
        ih fun s hs => h s (mem_cons_of_mem _ hs), map_cons]

/-- What the walk over `KEK` tries with the lists that end within some size. -/
def kekCerts : Nat → List SigList → List Bytes
  | _, [] => []
  | size, l :: lists =>
      if size < l.size then []
      else (if l.signatureType == efiCertX509Guid then l.signatures.map (·.drop 16) else []) ++
        kekCerts (size - l.size) lists

/-- On a database the walk over `KEK` ends, and reads nothing else. -/
theorem kekWalk_eq (behind : Bytes) {lists : List SigList} {size fuel : Nat}
    (howner : ∀ l ∈ lists, 16 ≤ l.signatureSize) (hsize : size ≤ (SigList.encode lists).length)
    (hfuel : lists.length < fuel) :
    kekWalk fuel size (SigList.encode lists ++ behind) = some (kekCerts size lists) := by
  induction lists generalizing size fuel with
  | nil =>
      obtain ⟨fuel, rfl⟩ : ∃ m, fuel = m + 1 := Nat.exists_eq_succ_of_ne_zero (by omega)
      have hzero : size = 0 := Nat.le_zero.mp hsize
      simp only [kekWalk, hzero, true_or, if_true, kekCerts]
  | cons l lists ih =>
      obtain ⟨fuel, rfl⟩ : ∃ m, fuel = m + 1 := Nat.exists_eq_succ_of_ne_zero (by omega)
      have hmem : SigList.encode (l :: lists) ++ behind =
          l.bytes ++ (SigList.encode lists ++ behind) := by
        rw [SigList.encode_cons, append_assoc]
      have hlen : (SigList.encode (l :: lists)).length = l.size + (SigList.encode lists).length := by
        rw [SigList.encode_cons, length_append, SigList.length_bytes]
      have hpos : 28 ≤ l.size := by
        unfold SigList.size
        omega
      have hcount := l.signatureCount_read (SigList.encode lists ++ behind)
      rw [l.readSignatureList_bytes] at hcount
      have hlowner := howner l mem_cons_self
      have hcertSize : uintnSub l.signatureSize 16 = l.signatureSize - 16 := by
        have hlt := l.size_lt
        unfold uintnSub
        omega
      have hcerts := certsOfList_eq l.length_eq hlowner (SigList.encode lists ++ behind)
      rw [hmem, kekWalk]
      simp only [l.readSignatureList_bytes, hcount, SigList.drop_size, SignatureList.certSize,
        hcertSize, SignatureList.dataOffset, SigList.drop_dataOffset, hcerts, l.size_pos.ne',
        decide_false, Bool.and_false, Bool.false_eq_true, if_false, kekCerts]
      by_cases hend : size < l.size
      · rw [if_pos (Or.inr hend), if_pos hend]
      · rw [if_neg (by omega), if_neg hend,
          ih (fun l hl => howner l (mem_cons_of_mem _ hl)) (by omega) (by simpa using hfuel)]
        rfl

theorem filterSignatureList_within (P : Platform) (old new : List SigList) :
    ∃ status newData newDataSize, newData.length = (SigList.encode new).length ∧
      ∀ behindOld behind, filterSignatureList P (SigList.encode old ++ behindOld)
          (SigList.encode old).length (SigList.encode new ++ behind) (SigList.encode new).length =
        some ⟨status, newData ++ behind, newDataSize⟩ := by
  have hle := length_filtered_le old new
  by_cases hzero : (SigList.encode new).length = 0
  · refine ⟨.success, SigList.encode new, (SigList.encode new).length, rfl, fun _ _ => ?_⟩
    rw [filterSignatureList, if_pos hzero]
  by_cases hscratch : (!variableExLibGetScratchBuffer P (SigList.encode new).length) = true
  · refine ⟨.outOfResources, SigList.encode new, (SigList.encode new).length, rfl, fun _ _ => ?_⟩
    rw [filterSignatureList, if_neg hzero, if_pos hscratch]
  · refine ⟨.success, SigList.encode (filtered old new) ++
      (SigList.encode new).drop (SigList.encode (filtered old new)).length,
      (SigList.encode (filtered old new)).length, ?_, fun behindOld behind => ?_⟩
    · rw [length_append, length_drop]
      omega
    · have hcopy : copyMem (SigList.encode new ++ behind) 0 (SigList.encode (filtered old new)) =
          SigList.encode (filtered old new) ++
            (SigList.encode new ++ behind).drop (SigList.encode (filtered old new)).length :=
        copyMem_zero (by rw [length_append]; omega)
      rw [filterSignatureList, if_neg hzero, if_neg hscratch,
        filterLists_eq behindOld behind (Nat.lt_succ_of_le (SigList.length_le_encode new)),
        Option.map_some, nil_append, hcopy, drop_append_of_le_length hle,
        append_assoc]

end Walks

section Exact

variable (parse : Bytes → Bool) (name : Char16Str) (guid : Guid) (data behind : Bytes)

/-- A variable that holds signature lists. -/
def isSignatureVariable : Bool :=
  isPlatformKey name guid || isKeyExchangeKey name guid || isImageSecurityDatabase name guid

/-- The function returns, and after `EFI_SUCCESS` the data is a database, on which the walks
end and touch nothing but the data. -/
structure FormatCheckExact : Prop where
  returns : ∃ fuel status,
    checkSignatureListFormat parse name guid fuel (data ++ behind) data.length = some status
  database : ∀ fuel,
    checkSignatureListFormat parse name guid fuel (data ++ behind) data.length = some .success →
      IsDatabase data
  kek : ∀ fuel,
    checkSignatureListFormat parse name guid fuel (data ++ behind) data.length = some .success →
      ∃ rounds certs, ∀ behind',
        kekWalk rounds (data.length % 2 ^ 32) (data ++ behind') = some certs
  filterOld : ∀ fuel,
    checkSignatureListFormat parse name guid fuel (data ++ behind) data.length = some .success →
      ∀ P newData, IsDatabase newData → ∃ status kept newDataSize, kept.length = newData.length ∧
        ∀ behind' behindNew,
          filterSignatureList P (data ++ behind') data.length (newData ++ behindNew)
            newData.length = some ⟨status, kept ++ behindNew, newDataSize⟩
  filterNew : ∀ fuel,
    checkSignatureListFormat parse name guid fuel (data ++ behind) data.length = some .success →
      ∀ P oldData, IsDatabase oldData → ∃ status kept newDataSize, kept.length = data.length ∧
        ∀ behindOld behind',
          filterSignatureList P (oldData ++ behindOld) oldData.length (data ++ behind')
            data.length = some ⟨status, kept ++ behind', newDataSize⟩

/-- No list of size zero passes, and no list shorter than its header is among lists that
pass and fill the data, one signature at most for `PK`. -/
structure NoShortList : Prop where
  pos : ∀ lists size' mem', Passes parse data.length (data ++ behind) lists size' mem' →
    ∀ l ∈ lists, l.signatureListSize ≠ 0
  head : ∀ lists mem', Passes parse data.length (data ++ behind) lists 0 mem' →
    (isPlatformKey name guid = true → countSignatures 0 lists ≤ 1) →
    ∀ l ∈ lists, 28 ≤ l.signatureListSize

variable {parse name guid data behind}

theorem checkSignatureListFormat_eq (hname : isSignatureVariable name guid = true)
    (hdata : data.length ≠ 0) (fuel : Nat) :
    checkSignatureListFormat parse name guid fuel (data ++ behind) data.length =
      checkLists parse (isPlatformKey name guid) fuel data.length (data ++ behind) 0 := by
  rw [checkSignatureListFormat, if_neg hdata]
  cases hpk : isPlatformKey name guid with
  | true => rw [if_pos rfl]
  | false =>
      rw [isSignatureVariable, hpk, Bool.false_or] at hname
      rw [if_neg (by decide), if_pos hname]

theorem FormatCheckExact.of_database (hreturns : ∃ fuel status,
      checkSignatureListFormat parse name guid fuel (data ++ behind) data.length = some status)
    (hdata : ∀ fuel, checkSignatureListFormat parse name guid fuel (data ++ behind) data.length =
      some .success → IsDatabase data) : FormatCheckExact parse name guid data behind where
  returns := hreturns
  database := hdata
  kek := by
    intro fuel hsuccess
    obtain ⟨lists, rfl, howner⟩ := hdata fuel hsuccess
    exact ⟨lists.length + 1, _, fun behind' =>
      kekWalk_eq behind' howner (Nat.mod_le _ _) (Nat.lt_succ_self _)⟩
  filterOld := by
    intro fuel hsuccess P newData hnew
    obtain ⟨lists, rfl, -⟩ := hdata fuel hsuccess
    obtain ⟨new, rfl, -⟩ := hnew
    exact filterSignatureList_within P lists new
  filterNew := by
    intro fuel hsuccess P oldData hold
    obtain ⟨lists, rfl, -⟩ := hdata fuel hsuccess
    obtain ⟨old, rfl, -⟩ := hold
    exact filterSignatureList_within P old lists

theorem formatCheckExact_nil : FormatCheckExact parse name guid [] behind :=
  .of_database ⟨0, .success, rfl⟩ fun _ _ => ⟨[], rfl, fun l hl => by cases hl⟩

theorem noShortList_nil : NoShortList parse name guid [] behind where
  pos := by
    intro lists size' mem' hpasses l hl
    cases hpasses with
    | nil => cases hl
    | cons hsize hfits hcheck hrest => exact absurd rfl hsize
  head := by
    intro lists mem' hpasses hcount l hl
    cases hpasses with
    | nil => cases hl
    | cons hsize hfits hcheck hrest => exact absurd rfl hsize

end Exact

/-- **Exactness of the format check.**  It holds exactly when no list that declares fewer
bytes than its own header passes the subtraction on the way to the end of the data. -/
theorem checkSignatureListFormat_exact_iff (parse : Bytes → Bool) (name : Char16Str)
    (guid : Guid) (data behind : Bytes) (hname : isSignatureVariable name guid = true) :
    FormatCheckExact parse name guid data behind ↔ NoShortList parse name guid data behind := by
  by_cases hdata : data.length = 0
  · rw [eq_nil_of_length_eq_zero hdata]
    exact ⟨fun _ => noShortList_nil, fun _ => formatCheckExact_nil⟩
  have hwalk := @checkSignatureListFormat_eq parse name guid data behind hname hdata
  constructor
  case mp =>
    intro hexact
    constructor
    case pos =>
      intro lists size' mem' hpasses l hl hzero
      obtain ⟨fuel, status, hstatus⟩ := hexact.returns
      rw [hwalk, hpasses.stuck ⟨l, hl, hzero⟩] at hstatus
      cases hstatus
    case head =>
      intro lists mem' hpasses hcount
      have hsuccess := hpasses.accepted (Nat.lt_succ_self lists.length) hcount
      rw [← hwalk] at hsuccess
      obtain ⟨database, hdatabase, -⟩ := hexact.database _ hsuccess
      rw [hdatabase] at hpasses
      exact hpasses.head_le
  case mpr =>
    intro hshort
    refine .of_database ?_ fun fuel hsuccess => ?_
    · obtain ⟨status, hstatus⟩ := @checkLists_returns parse (isPlatformKey name guid)
        (data.length + 1) data.length 0 (data ++ behind) (Nat.lt_succ_self _) hshort.pos
      exact ⟨_, status, (hwalk _).trans hstatus⟩
    · rw [hwalk] at hsuccess
      obtain ⟨lists, mem', hpasses, hcount⟩ := checkLists_success hsuccess
      exact hpasses.isDatabase (hshort.head lists mem' hpasses hcount)

theorem length_sha256Guid :
    ([0x26, 0x16, 0xc4, 0xc1, 0x4c, 0x50, 0x92, 0x40,
      0xac, 0xa9, 0x41, 0xf9, 0x36, 0x93, 0x43, 0x28] : Bytes).length = 16 := by
  rfl

/-- `EFI_CERT_SHA256_GUID`. -/
def efiCertSha256Guid : Guid :=
  ⟨[0x26, 0x16, 0xc4, 0xc1, 0x4c, 0x50, 0x92, 0x40,
    0xac, 0xa9, 0x41, 0xf9, 0x36, 0x93, 0x43, 0x28], length_sha256Guid⟩

/-- One hash with its owner. -/
def sampleHashes : SigList where
  signatureType := efiCertSha256Guid
  signatureHeader := []
  signatureSize := 48
  signatures := [List.replicate 48 7]
  size_pos := by decide
  size_lt := by decide
  length_eq := by decide
  fits := by decide

theorem checkSignatureListFormat_exact_iff_sample :
    FormatCheckExact (fun _ => true) efiImageSecurityDatabase efiImageSecurityDatabaseGuid
      (SigList.encode [sampleHashes]) [1, 2, 3] := by
  refine (checkSignatureListFormat_exact_iff _ _ _ _ _ (by decide)).mpr ⟨?_, ?_⟩
  · intro lists size' mem' hpasses l hl hzero
    have hle := hpasses.head_le l hl
    omega
  · exact fun lists mem' hpasses _ => hpasses.head_le

/-- Twelve bytes of data, with a list header that goes on behind them. -/
theorem checkSignatureListFormat_accepts_short :
    checkSignatureListFormat (fun _ => true) efiImageSecurityDatabase
        efiImageSecurityDatabaseGuid 2
        ([0x26, 0x16, 0xc4, 0xc1, 0x4c, 0x50, 0x92, 0x40, 0xac, 0xa9, 0x41, 0xf9] ++
          [0x36, 0x93, 0x43, 0x28, 12, 0, 0, 0, 0, 0, 0, 0, 48, 0, 0, 0]) 12 =
      some .success ∧
    ¬FormatCheckExact (fun _ => true) efiImageSecurityDatabase efiImageSecurityDatabaseGuid
      [0x26, 0x16, 0xc4, 0xc1, 0x4c, 0x50, 0x92, 0x40, 0xac, 0xa9, 0x41, 0xf9]
      [0x36, 0x93, 0x43, 0x28, 12, 0, 0, 0, 0, 0, 0, 0, 48, 0, 0, 0] := by
  have hsuccess : checkSignatureListFormat (fun _ => true) efiImageSecurityDatabase
        efiImageSecurityDatabaseGuid 2
        ([0x26, 0x16, 0xc4, 0xc1, 0x4c, 0x50, 0x92, 0x40, 0xac, 0xa9, 0x41, 0xf9] ++
          [0x36, 0x93, 0x43, 0x28, 12, 0, 0, 0, 0, 0, 0, 0, 48, 0, 0, 0]) 12 =
      some .success := by
    decide
  refine ⟨hsuccess, fun hexact => ?_⟩
  obtain ⟨lists, hlists, -⟩ := hexact.database 2 hsuccess
  have hlen := congrArg List.length hlists
  cases lists with
  | nil => cases hlen
  | cons l lists =>
      rw [SigList.encode_cons, length_append, SigList.length_bytes, SigList.size] at hlen
      have htwelve : 12 = 28 + l.signatureHeader.length + l.signatures.length * l.signatureSize +
          (SigList.encode lists).length := hlen
      omega

end Signatures
end AuthVariableLib
end Udk
