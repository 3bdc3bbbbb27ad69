import Udk.AuthVariableLib.Records

/-!
# Entries of the certificate database

The bytes of `certdb` as a list of entries.  On such bytes the search of
`FindCertsFromDb` finds an entry by name and vendor, and taking out its node or adding
one is taking it out of the list or adding it.
-/

namespace Udk
namespace AuthVariableLib

open Variable List

/-- An `AUTH_CERT_DB_DATA` node with what it stands for. -/
structure CertEntry where
  name : Char16Str
  guid : Guid
  certs : Bytes
deriving DecidableEq

namespace CertEntry

def bytes (e : CertEntry) : Bytes :=
  certNode e.name e.guid e.certs

/-- `CertNodeSize`. -/
def size (e : CertEntry) : Nat :=
  28 + e.certs.length + 2 * e.name.chars.length

/-- The entry of this variable. -/
def isNamed (e : CertEntry) (name : Char16Str) (guid : Guid) : Bool :=
  e.name == name && e.guid == guid

@[simp] theorem isNamed_iff
    {e : CertEntry} {name : Char16Str} {guid : Guid} :
    e.isNamed name guid = true ↔ e.name = name ∧ e.guid = guid := by
  simp [isNamed]

@[simp] theorem bytes_length
    (e : CertEntry) :
    e.bytes.length = e.size := by
  simp only [bytes, certNode, size, length_append, toLE_length, char16Bytes_length,
    e.guid.length_eq]
  omega

end CertEntry

/-- The bytes behind the size of the database. -/
def certNodes (entries : List CertEntry) : Bytes :=
  entries.flatMap CertEntry.bytes

/-- The contents of `certdb` for these entries. -/
def certDbBytes (entries : List CertEntry) : Bytes :=
  toLE 4 (4 + (certNodes entries).length) ++ certNodes entries

@[simp] theorem certDbBytes_length
    (entries : List CertEntry) :
    (certDbBytes entries).length = 4 + (certNodes entries).length := by
  simp [certDbBytes]

theorem certNodes_append
    (entries entries' : List CertEntry) :
    certNodes (entries ++ entries') = certNodes entries ++ certNodes entries' := by
  simp [certNodes]

theorem certNodes_cons
    (e : CertEntry) (entries : List CertEntry) :
    certNodes (e :: entries) = e.bytes ++ certNodes entries := rfl

section Node

variable {e : CertEntry} (rest : Bytes)

theorem read_certNode
    (hsize : e.size < 2 ^ 32) :
    Guid.read (e.bytes ++ rest) = e.guid ∧ field (e.bytes ++ rest) 16 4 = e.size ∧
      field (e.bytes ++ rest) 20 4 = e.name.chars.length ∧
      field (e.bytes ++ rest) 24 4 = e.certs.length ∧
      slice (e.bytes ++ rest) 28 (2 * e.name.chars.length) = char16Bytes e.name.chars := by
  unfold CertEntry.size at hsize
  have hguid := e.guid.length_eq
  have hbytes : e.bytes ++ rest = e.guid.bytes ++ (toLE 4 e.size ++
      (toLE 4 e.name.chars.length ++ (toLE 4 e.certs.length ++
        (char16Bytes e.name.chars ++ (e.certs ++ rest))))) := by
    simp [CertEntry.bytes, certNode, CertEntry.size]
  refine ⟨?_, ?_, ?_, ?_, ?_⟩
  · rw [hbytes, Guid.read_append]
  · rw [hbytes]
    exact field_at _ _ hguid (by unfold CertEntry.size; omega)
  · rw [hbytes, ← append_assoc]
    exact field_at _ _ (by simp [hguid]) (by omega)
  · rw [hbytes, ← append_assoc, ← append_assoc]
    exact field_at _ _ (by simp [hguid]) (by omega)
  · have hslice := slice_append_right (e.guid.bytes ++ toLE 4 e.size ++
      toLE 4 e.name.chars.length ++ toLE 4 e.certs.length)
      (char16Bytes e.name.chars ++ (e.certs ++ rest)) 0 (2 * e.name.chars.length)
    simp only [length_append, hguid, toLE_length] at hslice
    rw [hbytes]
    simp only [append_assoc] at hslice
    rw [hslice, slice, drop_zero]
    exact take_left' (char16Bytes_length _)

end Node

/-- A loop over the entries, at one of them. -/
theorem certNodes_at
    {e : CertEntry} {entries : List CertEntry} {before : Bytes}
    (hlength : (before ++ certNodes (e :: entries)).length < 2 ^ 32) :
    before ++ certNodes (e :: entries) = (before ++ e.bytes) ++ certNodes entries ∧
      before.length + e.size < 2 ^ 32 ∧
      (before ++ certNodes (e :: entries)).drop before.length = e.bytes ++ certNodes entries ∧
      ¬(before ++ certNodes (e :: entries)).length % 2 ^ 32 ≤ before.length := by
  have hnodes : before ++ certNodes (e :: entries) =
      (before ++ e.bytes) ++ certNodes entries := by
    rw [certNodes_cons, append_assoc]
  rw [Nat.mod_eq_of_lt hlength]
  refine ⟨hnodes, ?_, by rw [drop_left, certNodes_cons], ?_⟩
  · rw [hnodes, length_append, length_append, CertEntry.bytes_length] at hlength
    omega
  · rw [certNodes_cons, length_append, length_append, CertEntry.bytes_length]
    unfold CertEntry.size
    omega

section Find

variable {entries : List CertEntry}

variable (name : Char16Str) (guid : Guid)

/-- Where the search finds an entry, from `offset` on. -/
def findEntry : Nat → List CertEntry → Option CertPosition
  | _, [] => none
  | offset, e :: entries =>
      if e.isNamed name guid then
        some
          { certOffset := offset + 28 + 2 * e.name.chars.length
            certDataSize := e.certs.length
            certNodeOffset := offset
            certNodeSize := e.size }
      else findEntry (offset + e.size) entries

theorem sameName_iff
    (a b : Char16Str) :
    (a.chars.length == b.chars.length && char16Bytes a.chars == char16Bytes b.chars) = (a == b) := by
  rw [Bool.eq_iff_iff, Bool.and_eq_true, beq_iff_eq, beq_iff_eq, beq_iff_eq]
  constructor
  · rintro ⟨-, hchars⟩
    exact Char16Str.bytes_injective (by rw [Char16Str.bytes, Char16Str.bytes, hchars])
  · rintro rfl
    exact ⟨rfl, rfl⟩

/-- The search loop finds what `findEntry` finds. -/
theorem findCertsLoop_eq
    {before : Bytes} {fuel : Nat}
    (hlength : (before ++ certNodes entries).length < 2 ^ 32) (hfuel : entries.length < fuel) :
    findCertsLoop name guid (before ++ certNodes entries) fuel before.length =
      some (match findEntry name guid before.length entries with
        | none => .error .notFound
        | some found => .ok found) := by
  induction entries generalizing before fuel with
  | nil =>
      obtain ⟨fuel, rfl⟩ := Nat.exists_eq_succ_of_ne_zero (Nat.ne_of_gt hfuel)
      have hend : (before ++ certNodes []).length % 2 ^ 32 ≤ before.length := by
        rw [Nat.mod_eq_of_lt hlength]
        simp [certNodes]
      simp only [findCertsLoop, findEntry, if_pos hend]
  | cons e entries ih =>
      obtain ⟨fuel, rfl⟩ : ∃ n, fuel = n + 1 := Nat.exists_eq_succ_of_ne_zero (by
        rw [length_cons] at hfuel
        omega)
      obtain ⟨hnodes, hsize, hptr, hmore⟩ := certNodes_at hlength
      have hoffset : (before ++ e.bytes).length = before.length + e.size := by simp
      obtain ⟨hguid, hnode, hname, hcerts, hchars⟩ :=
        @read_certNode e (certNodes entries) (by omega)
      have hih := @ih (before ++ e.bytes) fuel (hnodes ▸ hlength) (by
        rw [length_cons] at hfuel
        omega)
      rw [hoffset, ← hnodes] at hih
      have hnext : (before.length + e.size) % 2 ^ 32 = before.length + e.size :=
        Nat.mod_eq_of_lt (by omega)
      have hnode' : (before.length + 28 + 2 * e.name.chars.length + e.certs.length) % 2 ^ 32 =
          before.length + e.size := by
        rw [← hnext, CertEntry.size]
        congr 1
        omega
      rw [findCertsLoop]
      simp only [hptr, hguid, hnode, hname, hcerts, hchars, sameName_iff, if_neg hmore, hnode',
        hnext, findEntry, CertEntry.isNamed, hih]
      by_cases hg : e.guid = guid
      · by_cases hn : e.name = name
        · simp [hg, hn, CertEntry.size]
        · simp [hg, hn, CertEntry.size]
      · simp [hg]

theorem findEntry_eq_none
    {offset : Nat} :
    findEntry name guid offset entries = none ↔ entries.any (·.isNamed name guid) = false := by
  induction entries generalizing offset with
  | nil => simp [findEntry]
  | cons e entries ih =>
      rw [findEntry, any_cons]
      cases e.isNamed name guid with
      | true => simp
      | false => simpa using ih

theorem findEntry_split
    {offset : Nat} {entries : List CertEntry}
    (h : entries.any (·.isNamed name guid) = true) :
    ∃ before e behind, entries = before ++ e :: behind ∧ e.isNamed name guid = true ∧
      findEntry name guid offset entries =
        some
          { certOffset := offset + (certNodes before).length + 28 + 2 * e.name.chars.length
            certDataSize := e.certs.length
            certNodeOffset := offset + (certNodes before).length
            certNodeSize := e.size } := by
  induction entries generalizing offset with
  | nil => cases h
  | cons e entries ih =>
      by_cases he : e.isNamed name guid = true
      · refine ⟨[], e, entries, rfl, he, ?_⟩
        rw [findEntry, if_pos he]
        rfl
      · rw [any_cons, Bool.eq_false_of_not_eq_true he, Bool.false_or] at h
        obtain ⟨before, e', behind, heq, hnamed, hfind⟩ := @ih (offset + e.size) h
        refine ⟨e :: before, e', behind, by rw [heq]; rfl, hnamed, ?_⟩
        rw [findEntry, if_neg he, hfind, certNodes_cons, length_append,
          CertEntry.bytes_length, Nat.add_assoc offset]

theorem length_le_certNodes
    (entries : List CertEntry) :
    entries.length ≤ (certNodes entries).length := by
  induction entries with
  | nil => rfl
  | cons e entries ih =>
      rw [certNodes_cons, length_cons, length_append, CertEntry.bytes_length,
        CertEntry.size]
      omega

theorem findCertsFromDb_entries
    (hlength : (certDbBytes entries).length < 2 ^ 32) :
    findCertsFromDb name guid (certDbBytes entries) =
      some (match findEntry name guid 4 entries with
        | none => .error .notFound
        | some found => .ok found) := by
  have hlength' : 4 + (certNodes entries).length < 2 ^ 32 := by simpa using hlength
  have hsize : field (certDbBytes entries) 0 4 = (certDbBytes entries).length := by
    have hfield := @field_at [] (certNodes entries) 0 4 (4 + (certNodes entries).length) rfl
      (by omega)
    rw [certDbBytes_length]
    exact hfield
  have hle := length_le_certNodes entries
  have hloop := @findCertsLoop_eq entries name guid (toLE 4 (4 + (certNodes entries).length))
    ((certDbBytes entries).length + 1) hlength (by rw [certDbBytes_length]; omega)
  rw [toLE_length] at hloop
  rw [findCertsFromDb, if_neg (by rw [certDbBytes_length]; omega),
    if_neg (by rw [hsize, Nat.mod_eq_of_lt hlength]; exact not_not.mpr rfl)]
  exact hloop

theorem certDbWithout_entries
    {before behind : List CertEntry} {e : CertEntry} {found : CertPosition}
    (hoffset : found.certNodeOffset = 4 + (certNodes before).length)
    (hsize : found.certNodeSize = e.size) :
    certDbWithout (certDbBytes (before ++ e :: behind)) found = certDbBytes (before ++ behind) := by
  have hbytes : certDbBytes (before ++ e :: behind) =
      (toLE 4 (4 + (certNodes (before ++ e :: behind)).length) ++ certNodes before) ++
        (e.bytes ++ certNodes behind) := by
    rw [certDbBytes, certNodes_append, certNodes_cons, append_assoc]
  have hfront : slice (certDbBytes (before ++ e :: behind)) 4 (found.certNodeOffset - 4) =
      certNodes before := by
    rw [hbytes, append_assoc, hoffset, Nat.add_sub_cancel_left, slice]
    have hdrop := @drop_left _ (toLE 4 (4 + (certNodes (before ++ e :: behind)).length))
      (certNodes before ++ (e.bytes ++ certNodes behind))
    rw [toLE_length] at hdrop
    rw [hdrop, take_left]
  have hback : (certDbBytes (before ++ e :: behind)).drop
      (found.certNodeOffset + found.certNodeSize) = certNodes behind := by
    have hdrop := @drop_left _ ((toLE 4 (4 + (certNodes (before ++ e :: behind)).length) ++
      certNodes before) ++ e.bytes) (certNodes behind)
    simp only [length_append, toLE_length, CertEntry.bytes_length] at hdrop
    rw [hbytes, hoffset, hsize, ← append_assoc _ e.bytes, hdrop]
  have hlength : (certDbBytes (before ++ e :: behind)).length - found.certNodeSize =
      4 + (certNodes (before ++ behind)).length := by
    rw [hbytes, hsize]
    simp only [certNodes_append, length_append, toLE_length, CertEntry.bytes_length]
    omega
  rw [certDbWithout, hfront, hback, hlength, certDbBytes, certNodes_append, append_assoc]

end Find

section Orphans

/-- The clean-up finds the variable of the entry. -/
def CertEntry.isKept (s : AuthState) (e : CertEntry) : Bool :=
  (authServiceInternalFindVariable s e.name e.guid).isSome

/-- The clean-up finds the first entry whose variable it does not find. -/
theorem findOrphan_entries
    {s : AuthState} {entries : List CertEntry} {before : Bytes} {fuel : Nat}
    (hlength : (before ++ certNodes entries).length < 2 ^ 32) (hfuel : entries.length < fuel) :
    findOrphan s (before ++ certNodes entries) fuel before.length =
      some ((entries.find? (!·.isKept s)).map fun e => (e.name, e.guid)) := by
  induction entries generalizing before fuel with
  | nil =>
      obtain ⟨fuel, rfl⟩ := Nat.exists_eq_succ_of_ne_zero (Nat.ne_of_gt hfuel)
      have hend : (before ++ certNodes []).length % 2 ^ 32 ≤ before.length := by
        rw [Nat.mod_eq_of_lt hlength]
        simp [certNodes]
      simp only [findOrphan, if_pos hend, find?_nil, Option.map_none]
  | cons e entries ih =>
      obtain ⟨fuel, rfl⟩ : ∃ n, fuel = n + 1 := Nat.exists_eq_succ_of_ne_zero (by
        rw [length_cons] at hfuel
        omega)
      obtain ⟨hnodes, hsize, hptr, hmore⟩ := certNodes_at hlength
      obtain ⟨hguid, hnode, hname, -, hchars⟩ :=
        @read_certNode e (certNodes entries) (by omega)
      have hread : readChar16Str (char16Bytes e.name.chars ++ [0, 0]) = e.name := by
        have hread := readChar16Str_append e.name []
        rwa [append_nil] at hread
      have hih := @ih (before ++ e.bytes) fuel (hnodes ▸ hlength) (by
        rw [length_cons] at hfuel
        omega)
      have hnext : (before.length + e.size) % 2 ^ 32 = (before ++ e.bytes).length := by
        rw [Nat.mod_eq_of_lt (by omega), length_append, CertEntry.bytes_length]
      rw [findOrphan]
      simp only [hptr, hguid, hnode, hname, hchars, hread, if_neg hmore, hnext]
      rw [hnodes, hih, find?_cons, CertEntry.isKept]
      cases authServiceInternalFindVariable s e.name e.guid with
      | none => rfl
      | some v => rfl

end Orphans

end AuthVariableLib
end Udk
