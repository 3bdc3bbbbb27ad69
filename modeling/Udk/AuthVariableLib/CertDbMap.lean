import Udk.AuthVariableLib.CertEntries

/-!
# The certificate database as a map

What a deletion and an insertion make of the entries of `certdb`, and what the store makes
of the new contents.  After calls that succeed, a search finds for each variable the
certificates inserted last.
-/

namespace Udk
namespace AuthVariableLib

open Variable List

section Held

/-- There is one `certdb`, with these contents. -/
def HoldsCertDb (s : AuthState) (data : Bytes) : Prop :=
  ∃ certdb, recordsOf s efiCertDbName efiCertDbGuid = [certdb] ∧
    certdb.attributes = variableAttributeNvBsRtAt ∧ certdb.data = data

variable {P : Platform} {env : Environment} {s : AuthState} {data newCertDb : Bytes}

theorem certDb_isAccessible {v : AuthVariable} (h : v.attributes = variableAttributeNvBsRtAt)
    (atRuntime : Bool) : v.isAccessible atRuntime = true := by
  rw [AuthVariable.isAccessible, h, show hasAttribute variableAttributeNvBsRtAt
    efiVariableRuntimeAccess = true by decide, Bool.or_true]

theorem HoldsCertDb.find (h : HoldsCertDb s data) :
    ∃ certdb, variableExLibFindVariable s efiCertDbName efiCertDbGuid = some certdb ∧
      recordsOf s efiCertDbName efiCertDbGuid = [certdb] ∧
      certdb.attributes = variableAttributeNvBsRtAt ∧ certdb.data = data := by
  obtain ⟨certdb, hrecords, hattributes, hdata⟩ := h
  refine ⟨certdb, ?_, hrecords, hattributes, hdata⟩
  rw [variableExLibFindVariable, findVariable_eq, hrecords, find?_cons,
    certDb_isAccessible hattributes]

theorem setCertDb_decision (h : HoldsCertDb s data) (hne : newCertDb ≠ [])
    (hchange : data ≠ newCertDb) :
    ∃ v, v.attributes = variableAttributeNvBsRtAt ∧ v.data = newCertDb ∧
      v.isNamed efiCertDbName efiCertDbGuid = true ∧
      updateDecision P s (plainRequest efiCertDbName efiCertDbGuid newCertDb
        variableAttributeNvBsRtAt) = .install v := by
  obtain ⟨certdb, hfind, -, hattributes, rfl⟩ := h.find
  have hdelete : (plainRequest efiCertDbName efiCertDbGuid newCertDb
      variableAttributeNvBsRtAt).isDelete = false := by
    have haccess : hasAttribute variableAttributeNvBsRtAt
        (efiVariableRuntimeAccess ||| efiVariableBootserviceAccess) = true := by
      decide
    simp [UpdateRequest.isDelete, plainRequest, haccess, hne]
  have happend : (plainRequest efiCertDbName efiCertDbGuid newCertDb
      variableAttributeNvBsRtAt).isAppend = false := by
    show hasAttribute variableAttributeNvBsRtAt efiVariableAppendWrite = false
    decide
  refine ⟨newVariable (plainRequest efiCertDbName efiCertDbGuid newCertDb
    variableAttributeNvBsRtAt) (some certdb) newCertDb, ?_, rfl, ?_, ?_⟩
  · show variableAttributeNvBsRtAt &&& ~~~efiVariableAppendWrite = variableAttributeNvBsRtAt
    decide
  · exact isNamed_iff.mpr ⟨rfl, rfl⟩
  · have hnv : hasAttribute variableAttributeNvBsRtAt efiVariableNonVolatile = true := by
      decide
    have hrt : hasAttribute variableAttributeNvBsRtAt efiVariableRuntimeAccess = true := by
      decide
    have hsame : (certdb.data == newCertDb) = false := by
      simpa using hchange
    rw [variableExLibFindVariable] at hfind
    simp only [updateDecision, plainRequest] at hfind hdelete happend ⊢
    rw [hfind]
    simp [updateExisting, hattributes, hnv, hrt, hdelete, happend, hsame]

theorem setCertDb_spec (h : HoldsCertDb s data) (hne : newCertDb ≠ [])
    (hchange : data ≠ newCertDb) :
    (setCertDb P env s newCertDb).2.events =
        .stored efiCertDbName efiCertDbGuid (env.storeOutcome s.events) :: s.events ∧
      match env.storeOutcome s.events with
      | .done => (setCertDb P env s newCertDb).1 = .success ∧
          HoldsCertDb (setCertDb P env s newCertDb).2 newCertDb
      | .refused error => (setCertDb P env s newCertDb).1 = error.status ∧
          HoldsCertDb (setCertDb P env s newCertDb).2 data
      | .late error => (setCertDb P env s newCertDb).1 = error.status ∧
          HoldsCertDb (setCertDb P env s newCertDb).2 newCertDb := by
  obtain ⟨v, hattributes, hdata, hnamed, hdecision⟩ := @setCertDb_decision P s _ _ h hne hchange
  obtain ⟨certdb, _, hrecords, hold, -⟩ := h.find
  have hwithout : (withoutFound s (plainRequest efiCertDbName efiCertDbGuid newCertDb
      variableAttributeNvBsRtAt)).filter (·.isNamed efiCertDbName efiCertDbGuid) = [] := by
    have herase := recordsOf_withoutFound s (plainRequest efiCertDbName efiCertDbGuid newCertDb
      variableAttributeNvBsRtAt)
    simp only [plainRequest] at herase ⊢
    rw [herase, hrecords]
    exact eraseP_cons_of_pos (certDb_isAccessible hold _)
  have hnew : (withoutFound s (plainRequest efiCertDbName efiCertDbGuid newCertDb
      variableAttributeNvBsRtAt) ++ [v]).filter (·.isNamed efiCertDbName efiCertDbGuid) = [v] := by
    rw [filter_append, hwithout, nil_append]
    exact filter_cons_of_pos hnamed
  rw [setCertDb, variableExLibUpdateVariable]
  simp only [hdecision]
  unfold store
  cases env.storeOutcome s.events with
  | done | late error => exact ⟨rfl, rfl, v, hnew, hattributes, hdata⟩
  | refused error => exact ⟨rfl, rfl, h⟩

theorem setCertDb_success (h : HoldsCertDb s data) (hne : newCertDb ≠ [])
    (hchange : data ≠ newCertDb) (hsuccess : (setCertDb P env s newCertDb).1 = .success) :
    HoldsCertDb (setCertDb P env s newCertDb).2 newCertDb := by
  obtain ⟨-, houtcome⟩ := @setCertDb_spec P env s _ _ h hne hchange
  have hnoerror : ∀ error : StoreError, (setCertDb P env s newCertDb).1 ≠ error.status := by
    intro error heq
    have herror := error.isError
    rw [← heq, hsuccess] at herror
    exact absurd herror (by decide)
  cases hstore : env.storeOutcome s.events with
  | done =>
      rw [hstore] at houtcome
      exact houtcome.2
  | refused error | late error =>
      rw [hstore] at houtcome
      exact absurd houtcome.1 (hnoerror error)

theorem recordsOf_setCertDb {name : Char16Str} {guid : Guid}
    (hne : ¬(name = efiCertDbName ∧ guid = efiCertDbGuid)) :
    recordsOf (setCertDb P env s newCertDb).2 name guid = recordsOf s name guid :=
  recordsOf_update_of_ne P env s _ hne

end Held

section Entries

variable {P : Platform} {env : Environment} {s : AuthState} {entries : List CertEntry}
variable (name : Char16Str) (guid : Guid)

theorem certDbBytes_ne_nil (entries : List CertEntry) : certDbBytes entries ≠ [] := by
  intro h
  have hlen := certDbBytes_length entries
  rw [h, length_nil] at hlen
  omega

theorem certDbBytes_ne_of_length {entries' : List CertEntry}
    (h : (certNodes entries).length ≠ (certNodes entries').length) :
    certDbBytes entries ≠ certDbBytes entries' := by
  intro heq
  have hlen := congrArg List.length heq
  rw [certDbBytes_length, certDbBytes_length] at hlen
  omega

/-- `DeleteCertsFromDb` by entries: the first entry of the variable is taken out. -/
theorem deleteCertsFromDb_entries (h : HoldsCertDb s (certDbBytes entries))
    (hlength : (certDbBytes entries).length < 2 ^ 32) :
    (entries = [] ∧ deleteCertsFromDb P env s name guid = some (.success, s)) ∨
    (entries ≠ [] ∧ entries.any (·.isNamed name guid) = false ∧
      deleteCertsFromDb P env s name guid = some (.notFound, s)) ∨
    ∃ before e behind, entries = before ++ e :: behind ∧ e.isNamed name guid = true ∧
      deleteCertsFromDb P env s name guid =
        some (setCertDb P env s (certDbBytes (before ++ behind))) := by
  obtain ⟨certdb, hfind, -, -, hdata⟩ := h.find
  have hsearch := findCertsFromDb_entries name guid hlength
  have hne : (certDbBytes entries).length ≠ 0 := by
    rw [certDbBytes_length]
    omega
  by_cases hempty : entries = []
  · subst hempty
    refine Or.inl ⟨rfl, ?_⟩
    simp only [deleteCertsFromDb, hfind, hdata, if_neg hne]
    exact if_pos (certDbBytes_length [])
  have hnodes : (certDbBytes entries).length ≠ 4 := by
    have hle := length_le_certNodes entries
    have hpos := length_pos_of_ne_nil hempty
    rw [certDbBytes_length]
    omega
  refine Or.inr ?_
  by_cases hany : entries.any (·.isNamed name guid) = true
  · obtain ⟨before, e, behind, hsplit, hnamed, hentry⟩ := @findEntry_split name guid 4 entries hany
    simp only [hentry] at hsearch
    have hsize : 4 + (certNodes before).length + e.size ≤ (certDbBytes entries).length := by
      rw [hsplit, certDbBytes_length, certNodes_append, certNodes_cons, length_append,
        length_append, CertEntry.bytes_length]
      omega
    refine Or.inr ⟨before, e, behind, hsplit, hnamed, ?_⟩
    simp only [deleteCertsFromDb, hfind, hdata, if_neg hne, if_neg hnodes, hsearch]
    rw [if_neg (by omega), if_neg (by omega), hsplit, certDbWithout_entries rfl rfl]
  · have hnone := Bool.eq_false_of_not_eq_true hany
    simp only [(findEntry_eq_none name guid).mpr hnone] at hsearch
    refine Or.inl ⟨hempty, hnone, ?_⟩
    simp only [deleteCertsFromDb, hfind, hdata, if_neg hne, if_neg hnodes, hsearch]

/-- `InsertCertsToDb` by entries: a success appends one for a variable that has none. -/
theorem insertCertsToDb_entries {certData : Bytes} {s' : AuthState}
    (h : HoldsCertDb s (certDbBytes entries))
    (hlength : (certDbBytes entries).length < 2 ^ 32)
    (hsuccess : insertCertsToDb P env s name guid certData = some (.success, s')) :
    entries.any (·.isNamed name guid) = false ∧
      (certDbBytes (entries ++ [⟨name, guid, certData⟩])).length < 2 ^ 32 ∧
      setCertDb P env s (certDbBytes (entries ++ [⟨name, guid, certData⟩])) = (.success, s') := by
  obtain ⟨certdb, hfind, -, -, hdata⟩ := h.find
  have hsearch := findCertsFromDb_entries name guid hlength
  have hne : (certDbBytes entries).length ≠ 0 := by
    rw [certDbBytes_length]
    omega
  have hbytes : toLE 4 ((certDbBytes entries).length + (certNode name guid certData).length) ++
      (certDbBytes entries).drop 4 ++ certNode name guid certData =
        certDbBytes (entries ++ [⟨name, guid, certData⟩]) := by
    have hdrop : (certDbBytes entries).drop 4 = certNodes entries :=
      drop_left' (toLE_length 4 _)
    have hone : certNodes [⟨name, guid, certData⟩] = certNode name guid certData := by
      rw [certNodes_cons]
      exact append_nil _
    rw [hdrop, certDbBytes_length, certDbBytes, certNodes_append, hone, length_append,
      Nat.add_assoc, append_assoc]
  have hnewLength : (certDbBytes (entries ++ [⟨name, guid, certData⟩])).length =
      (certDbBytes entries).length + (certNode name guid certData).length := by
    rw [← hbytes, length_append, length_append, length_drop, toLE_length,
      certDbBytes_length]
    omega
  by_cases hany : entries.any (·.isNamed name guid) = true
  · obtain ⟨before, e, behind, -, -, hentry⟩ := @findEntry_split name guid 4 entries hany
    simp only [hentry] at hsearch
    simp only [insertCertsToDb, hfind, hdata, if_neg hne, hsearch] at hsuccess
    cases hsuccess
  · have hnone := Bool.eq_false_of_not_eq_true hany
    simp only [(findEntry_eq_none name guid).mpr hnone] at hsearch
    simp only [insertCertsToDb, hfind, hdata, if_neg hne, hsearch, hbytes] at hsuccess
    split_ifs at hsuccess with hmax hwrap
    · cases hsuccess
    · exact ⟨hnone, by omega, Option.some.inj hsuccess⟩

end Entries

section Lookup

variable {entries : List CertEntry} {name name' : Char16Str} {guid guid' : Guid} {e : CertEntry}

/-- The certificates of a variable. -/
def certsOf (entries : List CertEntry) (name : Char16Str) (guid : Guid) : Option Bytes :=
  (entries.find? (·.isNamed name guid)).map CertEntry.certs

/-- No two entries are of one variable. -/
def DistinctEntries (entries : List CertEntry) : Prop :=
  entries.Pairwise fun a b => b.isNamed a.name a.guid = false

theorem isNamed_eq_false_comm {a b : CertEntry} (h : b.isNamed a.name a.guid = false) :
    a.isNamed b.name b.guid = false := by
  rw [← Bool.not_eq_true, CertEntry.isNamed_iff] at h ⊢
  exact fun heq => h ⟨heq.1.symm, heq.2.symm⟩

theorem certsOf_append (entries entries' : List CertEntry) :
    certsOf (entries ++ entries') name guid =
      (certsOf entries name guid).or (certsOf entries' name guid) := by
  rw [certsOf, find?_append, Option.map_or]
  rfl

theorem certsOf_cons (e : CertEntry) (entries : List CertEntry) :
    certsOf (e :: entries) name guid =
      if e.isNamed name guid = true then some e.certs else certsOf entries name guid := by
  rw [certsOf, find?_cons, certsOf]
  cases e.isNamed name guid with
  | true => rfl
  | false => rfl

theorem certsOf_eq_none (h : entries.any (·.isNamed name guid) = false) :
    certsOf entries name guid = none := by
  rw [certsOf, find?_eq_none.mpr, Option.map_none]
  exact any_eq_false.mp h

theorem certsOf_remove {before behind : List CertEntry}
    (hdistinct : DistinctEntries (before ++ e :: behind)) (hnamed : e.isNamed name guid = true) :
    certsOf (before ++ behind) name' guid' =
      if name = name' ∧ guid = guid' then none
      else certsOf (before ++ e :: behind) name' guid' := by
  obtain ⟨rfl, rfl⟩ := CertEntry.isNamed_iff.mp hnamed
  rw [DistinctEntries, pairwise_append] at hdistinct
  obtain ⟨-, hrest, hcross⟩ := hdistinct
  split_ifs with hsame
  · obtain ⟨rfl, rfl⟩ := hsame
    refine certsOf_eq_none (any_eq_false.mpr fun x hx => ?_)
    rw [Bool.not_eq_true]
    rcases mem_append.mp hx with hx | hx
    · exact isNamed_eq_false_comm (hcross x hx e mem_cons_self)
    · exact rel_of_pairwise_cons hrest hx
  · have hother : certsOf (e :: behind) name' guid' = certsOf behind name' guid' := by
      have hnot : ¬e.isNamed name' guid' = true := by
        rw [CertEntry.isNamed_iff]
        exact hsame
      rw [certsOf_cons, if_neg hnot]
    rw [certsOf_append, certsOf_append, hother]

theorem DistinctEntries.remove {before behind : List CertEntry}
    (h : DistinctEntries (before ++ e :: behind)) : DistinctEntries (before ++ behind) :=
  List.Pairwise.sublist ((sublist_cons_self e behind).append_left before) h

theorem DistinctEntries.insert (h : DistinctEntries entries)
    (hnone : entries.any (·.isNamed e.name e.guid) = false) :
    DistinctEntries (entries ++ [e]) := by
  refine pairwise_append.mpr ⟨h, pairwise_singleton _ _, fun a ha b hb => ?_⟩
  rw [mem_singleton] at hb
  subst hb
  have hnot := any_eq_false.mp hnone a ha
  exact isNamed_eq_false_comm (Bool.eq_false_of_not_eq_true hnot)

theorem certsOf_insert {certData : Bytes}
    (hnone : entries.any (·.isNamed name guid) = false) :
    certsOf (entries ++ [⟨name, guid, certData⟩]) name' guid' =
      if name = name' ∧ guid = guid' then some certData else certsOf entries name' guid' := by
  rw [certsOf_append]
  split_ifs with hsame
  · obtain ⟨rfl, rfl⟩ := hsame
    have hnamed : (⟨name, guid, certData⟩ : CertEntry).isNamed name guid = true :=
      CertEntry.isNamed_iff.mpr ⟨rfl, rfl⟩
    rw [certsOf_eq_none hnone, Option.none_or, certsOf_cons, if_pos hnamed]
  · have hnot : ¬(⟨name, guid, certData⟩ : CertEntry).isNamed name' guid' = true := by
      rw [CertEntry.isNamed_iff]
      exact hsame
    have hone : certsOf [⟨name, guid, certData⟩] name' guid' = none := by
      rw [certsOf_cons, if_neg hnot]
      rfl
    rw [hone, Option.or_none]

theorem slice_certs (before behind : List CertEntry) (e : CertEntry) :
    slice (certDbBytes (before ++ e :: behind))
        (4 + (certNodes before).length + 28 + 2 * e.name.chars.length) e.certs.length =
      e.certs := by
  have hbytes : certDbBytes (before ++ e :: behind) =
      (toLE 4 (4 + (certNodes (before ++ e :: behind)).length) ++ (certNodes before ++
        (e.guid.bytes ++ (toLE 4 e.size ++ (toLE 4 e.name.chars.length ++
          (toLE 4 e.certs.length ++ char16Bytes e.name.chars)))))) ++
        (e.certs ++ certNodes behind) := by
    rw [certDbBytes]
    simp [certNodes_append, certNodes_cons, CertEntry.bytes, certNode, CertEntry.size]
  rw [hbytes, slice, drop_left', take_left]
  simp only [length_append, toLE_length, char16Bytes_length, e.guid.length_eq]
  omega

theorem findCertsFromDb_certsOf (hdistinct : DistinctEntries entries)
    (hlength : (certDbBytes entries).length < 2 ^ 32) :
    match certsOf entries name guid with
    | none => findCertsFromDb name guid (certDbBytes entries) = some (.error .notFound)
    | some certs => ∃ found, findCertsFromDb name guid (certDbBytes entries) = some (.ok found) ∧
        found.certDataSize = certs.length ∧
        slice (certDbBytes entries) found.certOffset found.certDataSize = certs := by
  have hsearch := findCertsFromDb_entries name guid hlength
  by_cases hany : entries.any (·.isNamed name guid) = true
  · obtain ⟨before, e, behind, rfl, hnamed, hentry⟩ := @findEntry_split name guid 4 entries hany
    simp only [hentry] at hsearch
    have hcerts : certsOf (before ++ e :: behind) name guid = some e.certs := by
      obtain ⟨rfl, rfl⟩ := CertEntry.isNamed_iff.mp hnamed
      have hbefore : certsOf before e.name e.guid = none :=
        certsOf_eq_none (any_eq_false.mpr fun x hx => by
          have hx := (pairwise_append.mp hdistinct).2.2 x hx e mem_cons_self
          rw [isNamed_eq_false_comm hx]
          exact Bool.false_ne_true)
      rw [certsOf_append, hbefore, Option.none_or, certsOf_cons, if_pos hnamed]
    rw [hcerts]
    exact ⟨_, hsearch, rfl, slice_certs before behind e⟩
  · have hnone := Bool.eq_false_of_not_eq_true hany
    simp only [(findEntry_eq_none name guid).mpr hnone] at hsearch
    rw [certsOf_eq_none hnone]
    exact hsearch

end Lookup

section Runs

/-- A call of one of the two functions. -/
inductive CertDbCall where
  | insert (name : Char16Str) (guid : Guid) (certData : Bytes)
  | delete (name : Char16Str) (guid : Guid)

/-- What the call does. -/
def CertDbCall.run (P : Platform) (env : Environment) (s : AuthState) :
    CertDbCall → Option (EfiStatus × AuthState)
  | .insert name guid certData => insertCertsToDb P env s name guid certData
  | .delete name guid => deleteCertsFromDb P env s name guid

/-- Calls that all return `EFI_SUCCESS`, each with answers of its own from the environment. -/
inductive CertDbRun (P : Platform) : AuthState → List CertDbCall → AuthState → Prop
  | nil (s : AuthState) : CertDbRun P s [] s
  | snoc {s s' s'' : AuthState} {calls : List CertDbCall} (env : Environment) (call : CertDbCall)
      (hrun : CertDbRun P s calls s') (hcall : call.run P env s' = some (.success, s'')) :
      CertDbRun P s (calls ++ [call]) s''

/-- What one more call makes of the certificates of a variable. -/
def CertDbCall.certs (name : Char16Str) (guid : Guid) (before : Option Bytes) :
    CertDbCall → Option Bytes
  | .insert name' guid' certData => if name' = name ∧ guid' = guid then some certData else before
  | .delete name' guid' => if name' = name ∧ guid' = guid then none else before

/-- The certificates inserted last for a variable and not deleted since. -/
def lastInserted (calls : List CertDbCall) (name : Char16Str) (guid : Guid) : Option Bytes :=
  calls.foldl (fun before call => call.certs name guid before) none

/-- The size in front is the length, and nodes fill the rest. -/
def IsCertDb (data : Bytes) : Prop :=
  4 ≤ data.length ∧ field data 0 4 = data.length ∧ ∃ entries, data.drop 4 = certNodes entries

theorem isCertDb_certDbBytes {entries : List CertEntry}
    (hlength : (certDbBytes entries).length < 2 ^ 32) : IsCertDb (certDbBytes entries) := by
  have hlen := certDbBytes_length entries
  refine ⟨by omega, ?_, entries, drop_left' (toLE_length 4 _)⟩
  have hfield := @field_at [] (certNodes entries) 0 4 (4 + (certNodes entries).length) rfl
    (by omega)
  rw [hlen]
  exact hfield

variable {P : Platform} {env : Environment} {s s' : AuthState} {entries : List CertEntry}

/-- A call that succeeds keeps entries of distinct variables, with the certificates as it
says. -/
theorem CertDbCall.run_success {call : CertDbCall} (h : HoldsCertDb s (certDbBytes entries))
    (hlength : (certDbBytes entries).length < 2 ^ 32) (hdistinct : DistinctEntries entries)
    (hcall : call.run P env s = some (.success, s')) :
    ∃ entries', HoldsCertDb s' (certDbBytes entries') ∧
      (certDbBytes entries').length < 2 ^ 32 ∧ DistinctEntries entries' ∧
      ∀ name guid, certsOf entries' name guid =
        call.certs name guid (certsOf entries name guid) := by
  cases call with
  | insert name guid certData =>
      obtain ⟨hnone, hnewLength, hset⟩ := insertCertsToDb_entries name guid h hlength hcall
      have hchange : certDbBytes entries ≠ certDbBytes (entries ++ [⟨name, guid, certData⟩]) := by
        refine certDbBytes_ne_of_length ?_
        rw [certNodes_append, length_append, certNodes_cons, length_append,
          CertEntry.bytes_length, CertEntry.size]
        omega
      have hheld := @setCertDb_success P env s _ _ h (certDbBytes_ne_nil _) hchange
        (by rw [hset])
      rw [hset] at hheld
      exact ⟨_, hheld, hnewLength, hdistinct.insert hnone, fun name' guid' => certsOf_insert hnone⟩
  | delete name guid =>
      rcases @deleteCertsFromDb_entries P env s _ name guid h hlength with
        ⟨rfl, hdelete⟩ | ⟨-, -, hdelete⟩ | ⟨before, e, behind, rfl, hnamed, hdelete⟩
      · have hsame : (EfiStatus.success, s) = (.success, s') :=
          Option.some.inj (hdelete.symm.trans hcall)
        cases hsame
        refine ⟨[], h, hlength, hdistinct, fun name' guid' => ?_⟩
        show none = if name = name' ∧ guid = guid' then none else none
        rw [ite_self]
      · have hsame : (EfiStatus.notFound, s) = (.success, s') :=
          Option.some.inj (hdelete.symm.trans hcall)
        cases hsame
      · have hset : setCertDb P env s (certDbBytes (before ++ behind)) = (.success, s') :=
          Option.some.inj (hdelete.symm.trans hcall)
        have hnodes : (certNodes (before ++ e :: behind)).length =
            (certNodes (before ++ behind)).length + e.size := by
          simp only [certNodes_append, certNodes_cons, length_append, CertEntry.bytes_length]
          omega
        have hsize : 28 ≤ e.size := by
          unfold CertEntry.size
          omega
        have hchange : certDbBytes (before ++ e :: behind) ≠ certDbBytes (before ++ behind) :=
          certDbBytes_ne_of_length (by omega)
        have hheld := @setCertDb_success P env s _ _ h (certDbBytes_ne_nil _) hchange
          (by rw [hset])
        rw [hset] at hheld
        rw [certDbBytes_length] at hlength
        refine ⟨_, hheld, by rw [certDbBytes_length]; omega, hdistinct.remove,
          fun name' guid' => certsOf_remove hdistinct hnamed⟩

theorem CertDbRun.kept {calls : List CertDbCall} (hempty : HoldsCertDb s (toLE 4 4))
    (hrun : CertDbRun P s calls s') :
    ∃ entries, HoldsCertDb s' (certDbBytes entries) ∧
      (certDbBytes entries).length < 2 ^ 32 ∧ DistinctEntries entries ∧
      ∀ name guid, certsOf entries name guid = lastInserted calls name guid := by
  induction hrun with
  | nil => exact ⟨[], hempty, by decide, List.Pairwise.nil, fun _ _ => rfl⟩
  | snoc env call _ hcall ih =>
      obtain ⟨entries, hheld, hlength, hdistinct, hcerts⟩ := ih
      obtain ⟨entries', hheld', hlength', hdistinct', hcerts'⟩ :=
        CertDbCall.run_success hheld hlength hdistinct hcall
      refine ⟨entries', hheld', hlength', hdistinct', fun name guid => ?_⟩
      rw [hcerts', hcerts, lastInserted, lastInserted, foldl_append]
      rfl

end Runs

/-- **`certdb` is a faithful map.**  After calls that succeed, from the empty database on,
the bytes are well formed, and the search returns the certificates inserted last for a
variable and not deleted since, and `EFI_NOT_FOUND` when there are none. -/
theorem certDb_faithful (P : Platform) {s s' : AuthState} {calls : List CertDbCall}
    (hempty : HoldsCertDb s (toLE 4 4)) (hrun : CertDbRun P s calls s') :
    ∃ certdb, variableExLibFindVariable s' efiCertDbName efiCertDbGuid = some certdb ∧
      IsCertDb certdb.data ∧ ∀ name guid,
        match lastInserted calls name guid with
        | none => findCertsFromDb name guid certdb.data = some (.error .notFound)
        | some certs => ∃ found, findCertsFromDb name guid certdb.data = some (.ok found) ∧
            found.certDataSize = certs.length ∧
            slice certdb.data found.certOffset found.certDataSize = certs := by
  obtain ⟨entries, hheld, hlength, hdistinct, hcerts⟩ := hrun.kept hempty
  obtain ⟨certdb, hfind, -, -, hdata⟩ := hheld.find
  refine ⟨certdb, hfind, ?_, fun name guid => ?_⟩
  · rw [hdata]
    exact isCertDb_certDbBytes hlength
  · rw [hdata, ← hcerts]
    exact findCertsFromDb_certsOf hdistinct hlength

/-- The empty database, as the initialization writes it. -/
def emptyCertDbState : AuthState :=
  (setCertDb authPlatform acceptingEnvironment emptyState (toLE 4 4)).2

/-- Then `C` has certificates. -/
def insertedCertsState : AuthState :=
  returned (insertCertsToDb authPlatform acceptingEnvironment emptyCertDbState sampleName
    efiGlobalVariableGuid [1, 2, 3])

theorem holdsCertDb_empty : HoldsCertDb emptyCertDbState (toLE 4 4) := by
  refine ⟨newVariable (plainRequest efiCertDbName efiCertDbGuid (toLE 4 4)
    variableAttributeNvBsRtAt) none (toLE 4 4), ?_, ?_, rfl⟩
  · decide
  · decide

theorem certDb_faithful_sample :
    ∃ certdb, variableExLibFindVariable insertedCertsState efiCertDbName efiCertDbGuid =
        some certdb ∧
      ∃ found, findCertsFromDb sampleName efiGlobalVariableGuid certdb.data = some (.ok found) ∧
        slice certdb.data found.certOffset found.certDataSize = [1, 2, 3] := by
  have hrun : CertDbRun authPlatform emptyCertDbState
      ([] ++ [.insert sampleName efiGlobalVariableGuid [1, 2, 3]]) insertedCertsState :=
    .snoc acceptingEnvironment _ (.nil _) (by decide)
  obtain ⟨certdb, hfind, -, hsearch⟩ := certDb_faithful authPlatform holdsCertDb_empty hrun
  have hlast : lastInserted ([] ++ [.insert sampleName efiGlobalVariableGuid [1, 2, 3]])
      sampleName efiGlobalVariableGuid = some [1, 2, 3] := by
    decide
  have hsample := hsearch sampleName efiGlobalVariableGuid
  rw [hlast] at hsample
  obtain ⟨found, hfound, -, hslice⟩ := hsample
  exact ⟨certdb, hfind, found, hfound, hslice⟩

end AuthVariableLib
end Udk
