import Udk.AuthVariableLib.CertDbMap
import Udk.AuthVariableLib.KeyBinding

/-!
# Termination of `CleanCertsFromDb`

Each turn of the clean-up asks the store once for a `certdb` without its first orphaned
entry, and looks again whatever the store answers.  It ends when the store has carried
out as many of these writes as there are orphaned entries.
-/

namespace Udk
namespace AuthVariableLib

open Variable List

section Kept

variable {s s' : AuthState} {data data' : Bytes}

/-- The variable of the entry exists. -/
def CertEntry.hasVariable (s : AuthState) (e : CertEntry) : Bool :=
  (variableExLibFindVariable s e.name e.guid).isSome

/-- Only `certdb` may differ. -/
structure SameButCertDb (s s' : AuthState) : Prop where
  atRuntime : s'.atRuntime = s.atRuntime
  records : ∀ name guid, ¬(name = efiCertDbName ∧ guid = efiCertDbGuid) →
    recordsOf s' name guid = recordsOf s name guid

theorem SameButCertDb.refl (s : AuthState) : SameButCertDb s s :=
  ⟨rfl, fun _ _ _ => rfl⟩

theorem SameButCertDb.trans {s'' : AuthState} (h : SameButCertDb s s')
    (h' : SameButCertDb s' s'') : SameButCertDb s s'' where
  atRuntime := h'.atRuntime.trans h.atRuntime
  records := fun name guid hne => (h'.records name guid hne).trans (h.records name guid hne)

theorem SameButCertDb.hasVariable (h : SameButCertDb s s') (hheld : HoldsCertDb s data)
    (hheld' : HoldsCertDb s' data') (e : CertEntry) : e.hasVariable s' = e.hasVariable s := by
  rw [CertEntry.hasVariable, CertEntry.hasVariable]
  by_cases hcertdb : e.name = efiCertDbName ∧ e.guid = efiCertDbGuid
  · obtain ⟨certdb, hfind, -⟩ := hheld.find
    obtain ⟨certdb', hfind', -⟩ := hheld'.find
    rw [hcertdb.1, hcertdb.2, hfind, hfind']
    rfl
  · rw [variableExLibFindVariable, variableExLibFindVariable, findVariable_eq, findVariable_eq,
      h.atRuntime, h.records _ _ hcertdb]

theorem isKept_eq (hheld : HoldsCertDb s data) (e : CertEntry) :
    e.isKept s = (decide (e.name.chars = []) || e.hasVariable s) := by
  rw [CertEntry.isKept, authServiceInternalFindVariable]
  by_cases hempty : e.name.chars = []
  · obtain ⟨certdb, _, hrecords, hattributes, -⟩ := hheld.find
    have hmem : certdb ∈ s.vars := by
      have hrecord : certdb ∈ recordsOf s efiCertDbName efiCertDbGuid := by
        rw [hrecords]
        exact mem_singleton_self _
      exact (mem_recordsOf.mp hrecord).1
    rw [if_pos hempty, decide_eq_true hempty, Bool.true_or, find?_isSome]
    exact ⟨certdb, hmem, certDb_isAccessible hattributes _⟩
  · rw [if_neg hempty, decide_eq_false hempty, Bool.false_or, CertEntry.hasVariable]

theorem SameButCertDb.isKept (h : SameButCertDb s s') (hheld : HoldsCertDb s data)
    (hheld' : HoldsCertDb s' data') (e : CertEntry) : e.isKept s' = e.isKept s := by
  rw [isKept_eq hheld', isKept_eq hheld, h.hasVariable hheld hheld']

end Kept

section Attempts

/-- The answer leaves `certdb` as it was. -/
def StoreOutcome.isRefused : StoreOutcome → Bool
  | .refused _ => true
  | _ => false

/-- How many of the next writes of `certdb` the store carries out. -/
def carriedOut (env : Environment) : Nat → List Event → Nat
  | 0, _ => 0
  | n + 1, events =>
      (if (env.storeOutcome events).isRefused then 0 else 1) +
        carriedOut env n (.stored efiCertDbName efiCertDbGuid (env.storeOutcome events) :: events)

/-- The entries whose variable the clean-up does not find. -/
def orphans (s : AuthState) (entries : List CertEntry) : Nat :=
  entries.countP (!·.isKept s)

variable {P : Platform} {env : Environment} {s : AuthState} {entries : List CertEntry}
  {result : EfiStatus × AuthState}

theorem setCertDb_sameButCertDb (newCertDb : Bytes) :
    SameButCertDb s (setCertDb P env s newCertDb).2 where
  atRuntime := update_atRuntime P env s _
  records := fun _ _ hne => recordsOf_setCertDb hne

theorem findOrphan_certDbBytes (hlength : (certDbBytes entries).length < 2 ^ 32) :
    findOrphan s (certDbBytes entries) ((certDbBytes entries).length + 1) 4 =
      some ((entries.find? (!·.isKept s)).map fun e => (e.name, e.guid)) := by
  have hle := length_le_certNodes entries
  have hfind := @findOrphan_entries s entries (toLE 4 (4 + (certNodes entries).length))
    ((certDbBytes entries).length + 1) hlength (by rw [certDbBytes_length]; omega)
  rw [toLE_length] at hfind
  exact hfind

theorem find_orphan_of_eq_zero (h : orphans s entries = 0) :
    entries.find? (!·.isKept s) = none ∧ entries.filter (·.isKept s) = entries := by
  rw [orphans, countP_eq_zero] at h
  exact ⟨find?_eq_none.mpr h, filter_eq_self.mpr fun e he => by simpa using h e he⟩

theorem cleanCertsLoop_done (hheld : HoldsCertDb s (certDbBytes entries))
    (hlength : (certDbBytes entries).length < 2 ^ 32) (hnone : orphans s entries = 0)
    (fuel : Nat) : cleanCertsLoop P env (fuel + 1) s = some (.success, s) := by
  obtain ⟨certdb, hfind, -, -, hdata⟩ := hheld.find
  have hscan := @findOrphan_certDbBytes s entries hlength
  have hne : (certDbBytes entries).length ≠ 0 := by
    rw [certDbBytes_length]
    omega
  rw [(find_orphan_of_eq_zero hnone).1] at hscan
  simp only [cleanCertsLoop, hfind, hdata, if_neg hne, hscan, Option.map_none]

/-- Otherwise a turn asks the store to take out an entry that is an orphan. -/
theorem cleanCertsLoop_turn (hheld : HoldsCertDb s (certDbBytes entries))
    (hlength : (certDbBytes entries).length < 2 ^ 32) (hsome : orphans s entries ≠ 0) :
    ∃ s1 entries1, (∀ fuel, cleanCertsLoop P env (fuel + 1) s = cleanCertsLoop P env fuel s1) ∧
      HoldsCertDb s1 (certDbBytes entries1) ∧ (certDbBytes entries1).length < 2 ^ 32 ∧
      SameButCertDb s s1 ∧
      s1.events = .stored efiCertDbName efiCertDbGuid (env.storeOutcome s.events) :: s.events ∧
      entries1.filter (·.isKept s) = entries.filter (·.isKept s) ∧
      (if (env.storeOutcome s.events).isRefused then 0 else 1) + orphans s entries1 =
        orphans s entries := by
  obtain ⟨certdb, hfind, -, -, hdata⟩ := hheld.find
  have hscan := @findOrphan_certDbBytes s entries hlength
  have hne : (certDbBytes entries).length ≠ 0 := by
    rw [certDbBytes_length]
    omega
  cases horphan : entries.find? (!·.isKept s) with
  | none =>
      refine absurd ?_ hsome
      rw [orphans, countP_eq_zero]
      exact find?_eq_none.mp horphan
  | some e =>
      rw [horphan] at hscan
      have hmem : e ∈ entries := mem_of_find?_eq_some horphan
      have hkept : e.isKept s = false := by
        simpa using find?_some horphan
      have hany : entries.any (·.isNamed e.name e.guid) = true :=
        any_eq_true.mpr ⟨e, hmem, CertEntry.isNamed_iff.mpr ⟨rfl, rfl⟩⟩
      rcases @deleteCertsFromDb_entries P env s _ e.name e.guid hheld hlength with
        ⟨rfl, -⟩ | ⟨-, hnone, -⟩ | ⟨before, e', behind, rfl, hnamed, hdelete⟩
      · cases hmem
      · rw [hany] at hnone
        cases hnone
      · have hkept' : e'.isKept s = false := by
          obtain ⟨hname, hguid⟩ := CertEntry.isNamed_iff.mp hnamed
          rw [CertEntry.isKept, hname, hguid]
          exact hkept
        have hnodes : (certNodes (before ++ e' :: behind)).length =
            (certNodes (before ++ behind)).length + e'.size := by
          simp only [certNodes_append, certNodes_cons, length_append, CertEntry.bytes_length]
          omega
        have hsize : 28 ≤ e'.size := by
          unfold CertEntry.size
          omega
        have hchange : certDbBytes (before ++ e' :: behind) ≠ certDbBytes (before ++ behind) :=
          certDbBytes_ne_of_length (by omega)
        have hfilter : (before ++ behind).filter (·.isKept s) =
            (before ++ e' :: behind).filter (·.isKept s) := by
          rw [filter_append, filter_append,
            filter_cons_of_neg (by rw [hkept']; exact Bool.false_ne_true)]
        have hcount : 1 + orphans s (before ++ behind) = orphans s (before ++ e' :: behind) := by
          rw [orphans, orphans, countP_append, countP_append,
            countP_cons_of_pos (by rw [hkept']; rfl)]
          omega
        have hshorter : (certDbBytes (before ++ behind)).length < 2 ^ 32 := by
          rw [certDbBytes_length] at hlength ⊢
          omega
        obtain ⟨hevents, houtcome⟩ :=
          @setCertDb_spec P env s _ _ hheld (certDbBytes_ne_nil (before ++ behind)) hchange
        have hloop : ∀ fuel, cleanCertsLoop P env (fuel + 1) s =
            cleanCertsLoop P env fuel (setCertDb P env s (certDbBytes (before ++ behind))).2 := by
          intro fuel
          simp only [cleanCertsLoop, hfind, hdata, if_neg hne, hscan, Option.map_some, hdelete]
        cases hstore : env.storeOutcome s.events with
        | done | late error =>
            rw [hstore] at hevents houtcome
            exact ⟨_, before ++ behind, hloop, houtcome.2, hshorter,
              setCertDb_sameButCertDb _, hevents, hfilter, hcount⟩
        | refused error =>
            rw [hstore] at hevents houtcome
            exact ⟨_, before ++ e' :: behind, hloop, houtcome.2, hlength,
              setCertDb_sameButCertDb _, hevents, rfl, Nat.zero_add _⟩

theorem orphans_congr {s' : AuthState} (h : ∀ e : CertEntry, e.isKept s' = e.isKept s) :
    orphans s' entries = orphans s entries := by
  rw [orphans, orphans]
  simp only [h]

theorem cleanCertsLoop_returns {n : Nat} (hheld : HoldsCertDb s (certDbBytes entries))
    (hlength : (certDbBytes entries).length < 2 ^ 32)
    (hn : orphans s entries ≤ carriedOut env n s.events) :
    ∃ s', cleanCertsLoop P env (n + 1) s = some (.success, s') ∧ SameButCertDb s s' ∧
      HoldsCertDb s' (certDbBytes (entries.filter (·.isKept s))) := by
  induction n generalizing s entries with
  | zero =>
      have hnone : orphans s entries = 0 := Nat.le_zero.mp hn
      refine ⟨s, cleanCertsLoop_done hheld hlength hnone 0, .refl s, ?_⟩
      rw [(find_orphan_of_eq_zero hnone).2]
      exact hheld
  | succ n ih =>
      by_cases hnone : orphans s entries = 0
      · refine ⟨s, cleanCertsLoop_done hheld hlength hnone _, .refl s, ?_⟩
        rw [(find_orphan_of_eq_zero hnone).2]
        exact hheld
      · obtain ⟨s1, entries1, hloop, hheld1, hlength1, hsame, hevents, hfilter, hcount⟩ :=
          @cleanCertsLoop_turn P env s _ hheld hlength hnone
        have hkept := hsame.isKept hheld hheld1
        have hn1 : orphans s1 entries1 ≤ carriedOut env n s1.events := by
          rw [orphans_congr hkept, hevents]
          rw [carriedOut] at hn
          omega
        obtain ⟨s', hreturns, hsame', hheld'⟩ := ih hheld1 hlength1 hn1
        refine ⟨s', (hloop _).trans hreturns, hsame.trans hsame', ?_⟩
        have hleft : entries1.filter (·.isKept s1) = entries.filter (·.isKept s) := by
          simp only [hkept]
          exact hfilter
        rw [← hleft]
        exact hheld'

theorem carriedOut_of_returns {fuel : Nat}
    (hheld : HoldsCertDb s (certDbBytes entries))
    (hlength : (certDbBytes entries).length < 2 ^ 32)
    (h : cleanCertsLoop P env fuel s = some result) :
    ∃ n, orphans s entries ≤ carriedOut env n s.events := by
  induction fuel generalizing s entries with
  | zero => cases h
  | succ fuel ih =>
      by_cases hnone : orphans s entries = 0
      · exact ⟨0, Nat.le_of_eq hnone⟩
      · obtain ⟨s1, entries1, hloop, hheld1, hlength1, hsame, hevents, -, hcount⟩ :=
          @cleanCertsLoop_turn P env s _ hheld hlength hnone
        rw [hloop] at h
        obtain ⟨n, hn⟩ := ih hheld1 hlength1 h
        refine ⟨n + 1, ?_⟩
        rw [orphans_congr (hsame.isKept hheld hheld1), hevents] at hn
        rw [carriedOut]
        omega

theorem cleanCertsLoop_mono {fuel : Nat}
    (h : cleanCertsLoop P env fuel s = some result) (more : Nat) :
    cleanCertsLoop P env (fuel + more) s = some result := by
  induction fuel generalizing s with
  | zero => cases h
  | succ fuel ih =>
      have hsucc : fuel + 1 + more = fuel + more + 1 := by
        omega
      rw [hsucc]
      simp only [cleanCertsLoop] at h ⊢
      split at h
      case h_1 hfind => simpa only [hfind] using h
      case h_2 certdb _ =>
          split_ifs at h ⊢ with hzero
          · exact h
          · split at h
            case h_1 _ => cases h
            case h_2 hscan => simpa only [hscan] using h
            case h_3 name guid _ =>
                split at h
                case h_1 _ => cases h
                case h_2 status s1 _ => exact ih h

end Attempts

section Unique

variable {s : AuthState} {data data' : Bytes} {entries entries' : List CertEntry}

theorem HoldsCertDb.unique (h : HoldsCertDb s data) (h' : HoldsCertDb s data') : data = data' := by
  obtain ⟨certdb, hrecords, -, rfl⟩ := h
  obtain ⟨certdb', hrecords', -, rfl⟩ := h'
  rw [hrecords] at hrecords'
  cases hrecords'
  rfl

theorem length_certNodes_le (h : entries.Sublist entries') :
    (certNodes entries).length ≤ (certNodes entries').length := by
  induction h with
  | slnil => exact le_refl _
  | cons e _ ih =>
      rw [certNodes_cons, length_append]
      omega
  | cons_cons e _ ih =>
      rw [certNodes_cons, certNodes_cons, length_append, length_append]
      omega

theorem named_of_certDbBytes_eq (h : certDbBytes entries = certDbBytes entries')
    (hlength : (certDbBytes entries).length < 2 ^ 32) {e : CertEntry} (he : e ∈ entries) :
    ∃ e' ∈ entries', e'.name = e.name ∧ e'.guid = e.guid := by
  have hany : entries.any (·.isNamed e.name e.guid) = true :=
    any_eq_true.mpr ⟨e, he, CertEntry.isNamed_iff.mpr ⟨rfl, rfl⟩⟩
  obtain ⟨before, found, behind, -, -, hentry⟩ := @findEntry_split e.name e.guid 4 entries hany
  have hsearch := findCertsFromDb_entries e.name e.guid hlength
  rw [h] at hlength
  rw [h, findCertsFromDb_entries e.name e.guid hlength, hentry] at hsearch
  by_cases hany' : entries'.any (·.isNamed e.name e.guid) = true
  · obtain ⟨e', he', hnamed⟩ := any_eq_true.mp hany'
    exact ⟨e', he', CertEntry.isNamed_iff.mp hnamed⟩
  · rw [(findEntry_eq_none e.name e.guid).mpr (Bool.eq_false_of_not_eq_true hany')] at hsearch
    cases hsearch

end Unique

section Clean

variable (P : Platform) (env : Environment) (s : AuthState) (entries : List CertEntry)

/-- The clean-up ends, and after `EFI_SUCCESS` exactly the entries are left whose variable
exists. -/
structure CleansCerts : Prop where
  terminates : ∃ fuel result, cleanCertsLoop P env fuel s = some result
  cleaned : ∀ fuel s', cleanCertsLoop P env fuel s = some (.success, s') →
    ∃ entries', HoldsCertDb s' (certDbBytes entries') ∧ entries'.Sublist entries ∧
      (∀ e ∈ entries', e.hasVariable s' = true) ∧
      (entries.filter (·.hasVariable s)).Sublist entries'

/-- The store carries out as many writes as there are orphans, and the variable of an entry
with the empty name exists. -/
structure CanCleanCerts : Prop where
  carriedOut : ∃ n, orphans s entries ≤ carriedOut env n s.events
  named : ∀ e ∈ entries, e.name.chars = [] → e.hasVariable s = true

end Clean

/-- The entry of `C`, which does not exist. -/
def orphanEntries : List CertEntry :=
  [⟨sampleName, efiGlobalVariableGuid, [1, 2, 3]⟩]

theorem holdsCertDb_orphan : HoldsCertDb insertedCertsState (certDbBytes orphanEntries) := by
  refine ⟨newVariable (plainRequest efiCertDbName efiCertDbGuid (certDbBytes orphanEntries)
    variableAttributeNvBsRtAt) none (certDbBytes orphanEntries), ?_, ?_, rfl⟩
  · decide
  · decide

theorem carriedOut_refusing (n : Nat) (events : List Event) :
    carriedOut refusingEnvironment n events = 0 := by
  induction n generalizing events with
  | zero => rfl
  | succ n ih =>
      rw [carriedOut, ih]
      rfl

end AuthVariableLib
end Udk
