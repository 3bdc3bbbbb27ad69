import Udk.AuthVariableLib.SetVariable
import Udk.Variable.Writes

/-!
# Records of a variable

All records of one name and vendor, in the order of the store, decide what
`FindVariable` reports for it.  An update concerns the records of its own variable
only, and the lemmas here say how.
-/

namespace Udk
namespace AuthVariableLib

open Variable List

section Lists

variable {α : Type*} {p q : α → Bool}

theorem filter_eraseP_of_disjoint
    (h : ∀ a, p a = true → q a = false) (l : List α) :
    (l.eraseP p).filter q = l.filter q := by
  induction l with
  | nil => rfl
  | cons a l ih =>
      by_cases hp : p a = true
      · simp [hp, h a hp]
      · by_cases hq : q a = true
        · simp [hp, hq, ih]
        · simp [hp, hq, ih]

theorem filter_eraseP_and
    (q r : α → Bool) (l : List α) :
    (l.eraseP (fun a => q a && r a)).filter q = (l.filter q).eraseP r := by
  induction l with
  | nil => rfl
  | cons a l ih =>
      by_cases hq : q a = true
      · by_cases hr : r a = true
        · simp [hq, hr]
        · simp [hq, hr, ih]
      · simp [hq, ih]

theorem filter_replaceF
    {f : α → Option α} (h : ∀ a b, f a = some b → q a = false ∧ q b = false) (l : List α) :
    (l.replaceF f).filter q = l.filter q := by
  induction l with
  | nil => rfl
  | cons a l ih =>
      rw [replaceF_cons]
      cases hf : f a with
      | none => simp [filter_cons, ih]
      | some b => simp [h a b hf]

theorem map_filter_replaceF
    {β : Type*} {f : α → Option α} {g : α → β}
    (h : ∀ a b, f a = some b → q b = q a ∧ g b = g a) (l : List α) :
    ((l.replaceF f).filter q).map g = (l.filter q).map g := by
  induction l with
  | nil => rfl
  | cons a l ih =>
      rw [replaceF_cons]
      cases hf : f a with
      | none =>
          rw [filter_cons, filter_cons]
          cases q a with
          | true => simp [ih]
          | false => simp [ih]
      | some b =>
          obtain ⟨hq, hg⟩ := h a b hf
          rw [filter_cons, filter_cons, hq]
          cases q a with
          | true => simp [hg]
          | false => simp

theorem filter_append_cons
    {skipped rest : List α} {a : α} (hskipped : ∀ b ∈ skipped, (!p b) = true) (ha : p a = true) :
    (skipped ++ a :: rest).filter p = a :: rest.filter p := by
  have hnil : skipped.filter p = [] := by
    rw [filter_eq_nil_iff]
    intro b hb
    simpa using hskipped b hb
  rw [filter_append, hnil, nil_append, filter_cons_of_pos ha]

end Lists

section Records

/-- The records of a variable. -/
def recordsOf (s : AuthState) (name : Char16Str) (guid : Guid) : List AuthVariable :=
  s.vars.filter (·.isNamed name guid)

/-- The record is found at this time. -/
def AuthVariable.isAccessible (v : AuthVariable) (atRuntime : Bool) : Bool :=
  !atRuntime || hasAttribute v.attributes efiVariableRuntimeAccess

variable {s : AuthState} {v : AuthVariable} {name : Char16Str} {guid : Guid}

@[simp] theorem isNamed_iff :
    v.isNamed name guid = true ↔ v.variableName = name ∧ v.vendorGuid = guid := by
  simp [AuthVariable.isNamed]

theorem isNamed_disjoint
    {name' : Char16Str} {guid' : Guid}
    (hne : ¬(name' = name ∧ guid' = guid)) (v : AuthVariable)
    (h : v.isNamed name guid = true) :
    v.isNamed name' guid' = false := by
  rw [isNamed_iff] at h
  obtain ⟨rfl, rfl⟩ := h
  by_contra hcontra
  rw [Bool.not_eq_false, isNamed_iff] at hcontra
  exact hne ⟨hcontra.1.symm, hcontra.2.symm⟩

theorem isFound_eq
    (atRuntime : Bool) :
    v.isFound name guid false atRuntime = (v.isNamed name guid && v.isAccessible atRuntime) := by
  simp [AuthVariable.isFound, AuthVariable.isAccessible]

@[simp] theorem isAccessible_false :
    v.isAccessible false = true := by
  simp [AuthVariable.isAccessible]

theorem findVariable_eq :
    findVariable s name guid false =
      (recordsOf s name guid).find? (·.isAccessible s.atRuntime) := by
  rw [findVariable, recordsOf, find?_filter]
  congr 1
  funext v
  rw [isFound_eq, Bool.decide_and, Bool.decide_eq_true, Bool.decide_eq_true]

theorem findVariable_ignore :
    findVariable s name guid true = (recordsOf s name guid).head? := by
  rw [findVariable, recordsOf, head?_filter]
  congr 1
  funext v
  simp [AuthVariable.isFound]

theorem mem_recordsOf :
    v ∈ recordsOf s name guid ↔ v ∈ s.vars ∧ v.variableName = name ∧ v.vendorGuid = guid := by
  rw [recordsOf, mem_filter, isNamed_iff]

theorem findVariable_mem
    (h : findVariable s name guid false = some v) :
    v ∈ recordsOf s name guid := by
  rw [findVariable_eq] at h
  exact mem_of_find?_eq_some h

theorem findVariable_accessible
    (h : findVariable s name guid false = some v) :
    v.isAccessible s.atRuntime = true := by
  rw [findVariable_eq] at h
  simpa using find?_some h

end Records

theorem recordsOf_setFirstByte
    {s : AuthState} {name name' : Char16Str} {guid guid' : Guid} (byte : UInt8)
    (hne : ¬(name' = name ∧ guid' = guid)) :
    recordsOf (setFirstByte s name guid byte) name' guid' = recordsOf s name' guid' := by
  refine filter_replaceF (fun v v' hv => ?_) s.vars
  rw [Option.ite_none_right_eq_some, isFound_eq, Bool.and_eq_true] at hv
  obtain ⟨⟨hnamed, -⟩, heq⟩ := hv
  cases heq
  have hnot : v.isNamed name' guid' = false := isNamed_disjoint hne v hnamed
  exact ⟨hnot, hnot⟩

theorem map_recordsOf_setFirstByte
    {β : Type*} (f : AuthVariable → β) (hf : ∀ v data, f { v with data := data } = f v)
    (s : AuthState) (name name' : Char16Str) (guid guid' : Guid) (byte : UInt8) :
    (recordsOf (setFirstByte s name guid byte) name' guid').map f =
      (recordsOf s name' guid').map f := by
  refine map_filter_replaceF (fun v v' hv => ?_) s.vars
  rw [Option.ite_none_right_eq_some] at hv
  obtain ⟨-, heq⟩ := hv
  cases heq
  exact ⟨rfl, hf _ _⟩

section Update

variable {name : Char16Str} {guid : Guid}

variable (P : Platform) (env : Environment) (s : AuthState) (req : UpdateRequest)

section Decision

variable {P : Platform} {atRuntime : Bool} {req : UpdateRequest} {old v : AuthVariable}

theorem updateExisting_keep_success
    (h : updateExisting P atRuntime req old = .keep .success) :
    req.isDelete = false ∧ old.data = req.data ∧ req.isAppend = false ∧
      req.timeStamp = none := by
  unfold updateExisting at h
  split_ifs at h with h1 h2 h3 h4 h5 h6
  · simp at h
  · simp at h
  · simp only [Bool.and_eq_true, beq_iff_eq, Bool.not_eq_true', Option.isNone_iff_eq_none] at h4
    exact ⟨by simpa using h3, h4.1.1, h4.1.2, h4.2⟩
  · simp at h

theorem updateExisting_remove
    (h : updateExisting P atRuntime req old = .remove) :
    req.isDelete = true := by
  unfold updateExisting at h
  split_ifs at h with h1 h2 h3 h4 h5 h6
  exact h3

theorem updateExisting_install
    (h : updateExisting P atRuntime req old = .install v) :
    req.isDelete = false ∧
      v = newVariable req (some old) (if req.isAppend then old.data ++ req.data else req.data) := by
  unfold updateExisting at h
  split_ifs at h with h1 h2 h3 h4 h5 h6
  · rw [if_pos h5]
    exact ⟨by simpa using h3, by simpa using h.symm⟩
  · rw [if_neg h5]
    exact ⟨by simpa using h3, by simpa using h.symm⟩

theorem updateAbsent_keep_success
    (h : updateAbsent atRuntime req = .keep .success) :
    req.data.isEmpty = true ∧ req.isAppend = true := by
  unfold updateAbsent at h
  split_ifs at h with h1 h2 h3
  · simpa using h1
  · simp at h
  · simp at h

theorem updateAbsent_ne_remove :
    updateAbsent atRuntime req ≠ .remove := by
  unfold updateAbsent
  split_ifs <;> simp

theorem updateAbsent_install
    (h : updateAbsent atRuntime req = .install v) :
    req.data.isEmpty = false ∧ v = newVariable req none req.data := by
  unfold updateAbsent at h
  split_ifs at h with h1 h2 h3
  simp only [Bool.or_eq_true, not_or, Bool.not_eq_true] at h2
  exact ⟨h2.1, by simpa using h.symm⟩

end Decision

theorem updateDecision_install
    {P : Platform} {s : AuthState} {req : UpdateRequest} {v : AuthVariable}
    (h : updateDecision P s req = .install v) :
    ∃ data, v = newVariable req (findVariable s req.variableName req.vendorGuid false) data := by
  unfold updateDecision at h
  split at h
  case h_1 old hold =>
      rw [hold]
      exact ⟨_, (updateExisting_install h).2⟩
  case h_2 hold =>
      rw [hold]
      exact ⟨_, (updateAbsent_install h).2⟩

theorem store_vars
    (name : Char16Str) (guid : Guid) (vars : List AuthVariable) :
    ((store env s name guid vars).2.vars = s.vars ∧
        (store env s name guid vars).1.isError = true) ∨
      (store env s name guid vars).2.vars = vars := by
  unfold store
  cases env.storeOutcome s.events with
  | done | late error => exact Or.inr rfl
  | refused error => exact Or.inl ⟨rfl, error.isError⟩

theorem store_frame
    (name : Char16Str) (guid : Guid) (vars : List AuthVariable) :
    ∃ vars' events', (store env s name guid vars).2 = { s with vars := vars', events := events' } := by
  unfold store
  cases env.storeOutcome s.events with
  | done | late error => exact ⟨_, _, rfl⟩
  | refused error => exact ⟨s.vars, _, rfl⟩

theorem store_done
    {env : Environment} (henv : ∀ events, env.storeOutcome events = .done)
    (name : Char16Str) (guid : Guid) (vars : List AuthVariable) :
    (store env s name guid vars).1 = .success ∧ (store env s name guid vars).2.vars = vars := by
  unfold store
  rw [henv]
  exact ⟨rfl, rfl⟩

theorem update_frame :
    ∃ vars' events', (variableExLibUpdateVariable P env s req).2 =
      { s with vars := vars', events := events' } := by
  unfold variableExLibUpdateVariable
  split
  · exact ⟨s.vars, s.events, rfl⟩
  · exact store_frame env s _ _ _
  · exact store_frame env s _ _ _

@[simp] theorem update_atRuntime :
    (variableExLibUpdateVariable P env s req).2.atRuntime = s.atRuntime := by
  obtain ⟨_, _, h⟩ := update_frame P env s req
  rw [h]

@[simp] theorem update_mPlatformMode :
    (variableExLibUpdateVariable P env s req).2.mPlatformMode = s.mPlatformMode := by
  obtain ⟨_, _, h⟩ := update_frame P env s req
  rw [h]

@[simp] theorem update_mPubKeyStore :
    (variableExLibUpdateVariable P env s req).2.mPubKeyStore = s.mPubKeyStore := by
  obtain ⟨_, _, h⟩ := update_frame P env s req
  rw [h]

theorem update_vars :
    let s' := (variableExLibUpdateVariable P env s req).2
    (s'.vars = s.vars ∧ ((variableExLibUpdateVariable P env s req).1.isError = false →
        updateDecision P s req = .keep .success)) ∨
      (updateDecision P s req = .remove ∧ s'.vars = withoutFound s req) ∨
      (∃ v, updateDecision P s req = .install v ∧ s'.vars = withoutFound s req ++ [v]) := by
  unfold variableExLibUpdateVariable
  split
  case h_1 status hdecision =>
      refine Or.inl ⟨rfl, fun hsuccess => ?_⟩
      have hstatus : status = .success := isError_eq_false.mp hsuccess
      rw [hdecision, hstatus]
  case h_2 hdecision =>
      rcases store_vars env s req.variableName req.vendorGuid (withoutFound s req) with
        ⟨h, herror⟩ | h
      · exact Or.inl ⟨h, fun hsuccess => absurd herror (Bool.eq_false_iff.mp hsuccess)⟩
      · exact Or.inr (Or.inl ⟨hdecision, h⟩)
  case h_3 v hdecision =>
      rcases store_vars env s req.variableName req.vendorGuid (withoutFound s req ++ [v]) with
        ⟨h, herror⟩ | h
      · exact Or.inl ⟨h, fun hsuccess => absurd herror (Bool.eq_false_iff.mp hsuccess)⟩
      · exact Or.inr (Or.inr ⟨v, hdecision, h⟩)

theorem recordsOf_withoutFound :
    (withoutFound s req).filter (·.isNamed req.variableName req.vendorGuid) =
      (recordsOf s req.variableName req.vendorGuid).eraseP (·.isAccessible s.atRuntime) := by
  have hfound : (fun v : AuthVariable =>
        v.isFound req.variableName req.vendorGuid false s.atRuntime) =
      fun v => v.isNamed req.variableName req.vendorGuid && v.isAccessible s.atRuntime := by
    funext v
    exact isFound_eq s.atRuntime
  rw [withoutFound, recordsOf, hfound, filter_eraseP_and]

theorem recordsOf_update
    (hname : req.variableName = name) (hguid : req.vendorGuid = guid) :
    let records := recordsOf s name guid
    let records' := recordsOf (variableExLibUpdateVariable P env s req).2 name guid
    (records' = records ∧ ((variableExLibUpdateVariable P env s req).1.isError = false →
        updateDecision P s req = .keep .success)) ∨
      (updateDecision P s req = .remove ∧
        records' = records.eraseP (·.isAccessible s.atRuntime)) ∨
      ∃ v, updateDecision P s req = .install v ∧
        records' = records.eraseP (·.isAccessible s.atRuntime) ++ [v] := by
  subst hname hguid
  dsimp only
  rw [← recordsOf_withoutFound s req]
  rcases update_vars P env s req with ⟨h, hkeep⟩ | ⟨hremove, h⟩ | ⟨v, hv, h⟩
  · exact Or.inl ⟨by rw [recordsOf, h]; rfl, hkeep⟩
  · exact Or.inr (Or.inl ⟨hremove, by rw [recordsOf, h]⟩)
  · refine Or.inr (Or.inr ⟨v, hv, ?_⟩)
    obtain ⟨data, rfl⟩ := updateDecision_install hv
    rw [recordsOf, h, filter_append]
    simp [newVariable]

theorem recordsOf_withoutFound_of_ne
    (hne : ¬(name = req.variableName ∧ guid = req.vendorGuid)) :
    (withoutFound s req).filter (·.isNamed name guid) = recordsOf s name guid := by
  refine filter_eraseP_of_disjoint (fun v hv => ?_) s.vars
  rw [isFound_eq, Bool.and_eq_true] at hv
  exact isNamed_disjoint hne v hv.1

theorem recordsOf_update_of_ne
    (hne : ¬(name = req.variableName ∧ guid = req.vendorGuid)) :
    recordsOf (variableExLibUpdateVariable P env s req).2 name guid = recordsOf s name guid := by
  unfold recordsOf
  rcases update_vars P env s req with ⟨h, -⟩ | ⟨-, h⟩ | ⟨v, hv, h⟩
  · rw [h]
  · rw [h, recordsOf_withoutFound_of_ne s req hne]
    rfl
  · obtain ⟨data, rfl⟩ := updateDecision_install hv
    rw [h, filter_append, recordsOf_withoutFound_of_ne s req hne]
    have hnot : (newVariable req (findVariable s req.variableName req.vendorGuid false)
        data).isNamed name guid = false :=
      isNamed_disjoint hne _ (by simp [newVariable])
    simp [hnot, recordsOf]

theorem recordsOf_update_found
    {old : AuthVariable}
    (hrecords : recordsOf s req.variableName req.vendorGuid = [old])
    (hold : findVariable s req.variableName req.vendorGuid false = some old) :
    let r := variableExLibUpdateVariable P env s req
    (recordsOf r.2 req.variableName req.vendorGuid = [old] ∧ (r.1.isError = false →
        req.isDelete = false ∧ old.data = req.data ∧ req.isAppend = false ∧
          req.timeStamp = none)) ∨
      (req.isDelete = true ∧ recordsOf r.2 req.variableName req.vendorGuid = []) ∨
      (req.isDelete = false ∧ recordsOf r.2 req.variableName req.vendorGuid =
        [newVariable req (some old) (if req.isAppend then old.data ++ req.data else req.data)]) := by
  have herase : [old].eraseP (·.isAccessible s.atRuntime) = [] :=
    eraseP_cons_of_pos (findVariable_accessible hold)
  have hdecision : updateDecision P s req = updateExisting P s.atRuntime req old := by
    unfold updateDecision
    rw [hold]
  have hupdate := recordsOf_update P env s req rfl rfl
  dsimp only at hupdate
  rw [hrecords, herase, hdecision] at hupdate
  rcases hupdate with ⟨h, hkeep⟩ | ⟨hremove, h⟩ | ⟨v, hinstall, h⟩
  · exact Or.inl ⟨h, fun hsuccess => updateExisting_keep_success (hkeep hsuccess)⟩
  · exact Or.inr (Or.inl ⟨updateExisting_remove hremove, h⟩)
  · obtain ⟨hdelete, rfl⟩ := updateExisting_install hinstall
    exact Or.inr (Or.inr ⟨hdelete, h⟩)

theorem recordsOf_update_absent
    (hrecords : recordsOf s req.variableName req.vendorGuid = []) :
    let r := variableExLibUpdateVariable P env s req
    (recordsOf r.2 req.variableName req.vendorGuid = [] ∧ (r.1.isError = false →
        req.data.isEmpty = true ∧ req.isAppend = true)) ∨
      (req.data.isEmpty = false ∧ recordsOf r.2 req.variableName req.vendorGuid =
        [newVariable req none req.data]) := by
  have hdecision : updateDecision P s req = updateAbsent s.atRuntime req := by
    have hnone : findVariable s req.variableName req.vendorGuid false = none := by
      rw [findVariable_eq, hrecords]
      rfl
    unfold updateDecision
    rw [hnone]
  have hupdate := recordsOf_update P env s req rfl rfl
  dsimp only at hupdate
  rw [hrecords, hdecision] at hupdate
  rcases hupdate with ⟨h, hkeep⟩ | ⟨hremove, -⟩ | ⟨v, hinstall, h⟩
  · exact Or.inl ⟨h, fun hsuccess => updateAbsent_keep_success (hkeep hsuccess)⟩
  · exact absurd hremove updateAbsent_ne_remove
  · obtain ⟨hdata, rfl⟩ := updateAbsent_install hinstall
    exact Or.inr ⟨hdata, h⟩

theorem update_error_kept
    {P : Platform} {env : Environment} {s : AuthState} {req : UpdateRequest}
    (hlate : ∀ error, env.storeOutcome s.events ≠ .late error)
    (h : (variableExLibUpdateVariable P env s req).1.isError = true) :
    (variableExLibUpdateVariable P env s req).2.vars = s.vars := by
  have hstore : ∀ name guid vars, (store env s name guid vars).1.isError = true →
      (store env s name guid vars).2.vars = s.vars := by
    intro name guid vars herror
    unfold store at herror ⊢
    cases houtcome : env.storeOutcome s.events with
    | done =>
        rw [houtcome] at herror
        exact absurd herror Bool.false_ne_true
    | refused error => rfl
    | late error => exact absurd houtcome (hlate error)
  unfold variableExLibUpdateVariable at h ⊢
  split at h
  case h_1 status _ => rfl
  case h_2 _ | h_3 v _ => exact hstore _ _ _ h

end Update

end AuthVariableLib
end Udk
