import Udk.AuthVariableLib.Requests

/-!
# Replay of counter-based requests

`ProcessVariable` compares the count of a request with the count in the record.
`UpdateVariable` returns early when the data does not change, and then the record
keeps its count although the request was accepted.  Without such requests the record
holds the largest accepted count.
-/

namespace Udk
namespace AuthVariableLib

open Variable List

section Invariant

/-- The record holds a count that reaches these, or no request on it passes. -/
def Reached (counts : List UInt64) (v : AuthVariable) : Prop :=
  v.pubKeyIndex = 0 ∨ ∀ c ∈ counts, c ≤ v.monotonicCount

/-- The first record of a variable reaches the counts, and is the only one while it is
found. -/
structure HeadReached (counts : List UInt64) (s : AuthState) (name : Char16Str) (guid : Guid) :
    Prop where
  reached : ∀ v rest, recordsOf s name guid = v :: rest → v.isCounterBased = true →
    Reached counts v
  alone : ∀ v rest, recordsOf s name guid = v :: rest → v.isAccessible s.atRuntime = true →
    rest = []

variable {P : Platform} {env : Environment} {s s' : AuthState} {counts : List UInt64}
variable {name : Char16Str} {guid : Guid}

theorem HeadReached.congr
    (hrecords : recordsOf s' name guid = recordsOf s name guid)
    (hruntime : s'.atRuntime = s.atRuntime) (h : HeadReached counts s name guid) :
    HeadReached counts s' name guid := by
  constructor
  · rw [hrecords]
    exact h.reached
  · rw [hrecords, hruntime]
    exact h.alone

/-- An update with a count that reaches these, or with key index 0, keeps the invariant. -/
theorem HeadReached.update
    (req : UpdateRequest)
    (hreq : req.variableName = name → req.vendorGuid = guid →
      hasAttribute req.attributes efiVariableAuthenticatedWriteAccess = true →
      req.keyIndex = 0 ∨ ∀ c ∈ counts, c ≤ req.monotonicCount)
    (h : HeadReached counts s name guid) :
    HeadReached counts (variableExLibUpdateVariable P env s req).2 name guid := by
  by_cases hfocus : name = req.variableName ∧ guid = req.vendorGuid
  case neg =>
      exact h.congr (recordsOf_update_of_ne P env s req hfocus) (update_atRuntime P env s req)
  case pos =>
      obtain ⟨hname, hguid⟩ := hfocus
      have hnew : ∀ old data, (newVariable req old data).isCounterBased = true →
          Reached counts (newVariable req old data) := by
        intro old data hcounter
        refine hreq hname.symm hguid.symm ?_
        rw [AuthVariable.isCounterBased, newVariable, hasAttribute, UInt32.and_assoc] at hcounter
        exact hcounter
      by_cases hfront : ∃ v rest, recordsOf s name guid = v :: rest ∧
          v.isAccessible s.atRuntime = false
      case pos =>
          -- A record that is not found stays in front.
          obtain ⟨v, rest, hrecords, hacc⟩ := hfront
          have hhead : ∃ rest',
              recordsOf (variableExLibUpdateVariable P env s req).2 name guid = v :: rest' := by
            have herase : (v :: rest).eraseP (·.isAccessible s.atRuntime) =
                v :: rest.eraseP (·.isAccessible s.atRuntime) :=
              eraseP_cons_of_neg (by simp [hacc])
            rcases recordsOf_update P env s req hname.symm hguid.symm with
              ⟨h', -⟩ | ⟨-, h'⟩ | ⟨w, -, h'⟩
            · exact ⟨rest, h'.trans hrecords⟩
            · exact ⟨_, h'.trans (by rw [hrecords, herase])⟩
            · exact ⟨_, h'.trans (by rw [hrecords, herase]; rfl)⟩
          obtain ⟨rest', hrest'⟩ := hhead
          constructor
          · intro v' rest'' hcons hcounter
            rw [hrest'] at hcons
            cases hcons
            exact h.reached v rest hrecords hcounter
          · intro v' rest'' hcons hacc'
            rw [hrest'] at hcons
            cases hcons
            rw [update_atRuntime, hacc] at hacc'
            exact absurd hacc' (by decide)
      case neg =>
          have hlone : (recordsOf s name guid).eraseP (·.isAccessible s.atRuntime) = [] ∧
              ∀ v rest, recordsOf s name guid = v :: rest → rest = [] := by
            cases hrecords : recordsOf s name guid with
            | nil => exact ⟨rfl, fun v rest hcons => by cases hcons⟩
            | cons v rest =>
                have hacc : v.isAccessible s.atRuntime = true := by
                  by_contra hacc
                  exact hfront ⟨v, rest, hrecords, Bool.eq_false_iff.mpr hacc⟩
                obtain rfl := h.alone v rest hrecords hacc
                exact ⟨eraseP_cons_of_pos hacc, fun v rest hcons => by cases hcons; rfl⟩
          have hrecords' : ∀ v rest,
              recordsOf (variableExLibUpdateVariable P env s req).2 name guid = v :: rest →
              rest = [] ∧ (v.isCounterBased = true → Reached counts v) := by
            intro v rest hcons
            rcases recordsOf_update P env s req hname.symm hguid.symm with
              ⟨h', -⟩ | ⟨-, h'⟩ | ⟨w, hw, h'⟩
            · rw [h'] at hcons
              exact ⟨hlone.2 v rest hcons, h.reached v rest hcons⟩
            · rw [h', hlone.1] at hcons
              cases hcons
            · rw [h', hlone.1] at hcons
              cases hcons
              obtain ⟨data, rfl⟩ := updateDecision_install hw
              exact ⟨rfl, hnew _ _⟩
          exact ⟨fun v rest hcons => (hrecords' v rest hcons).2,
            fun v rest hcons _ => (hrecords' v rest hcons).1⟩

theorem HeadReached.of_map
    (hrecords : (recordsOf s' name guid).map
        (fun v => (v.attributes, v.pubKeyIndex, v.monotonicCount)) =
      (recordsOf s name guid).map (fun v => (v.attributes, v.pubKeyIndex, v.monotonicCount)))
    (hruntime : s'.atRuntime = s.atRuntime) (h : HeadReached counts s name guid) :
    HeadReached counts s' name guid := by
  have hcons : ∀ v' rest', recordsOf s' name guid = v' :: rest' →
      ∃ v rest, recordsOf s name guid = v :: rest ∧ v.attributes = v'.attributes ∧
        v.pubKeyIndex = v'.pubKeyIndex ∧ v.monotonicCount = v'.monotonicCount ∧
        (rest = [] → rest' = []) := by
    intro v' rest' hcons
    rw [hcons, map_cons, eq_comm, map_eq_cons_iff] at hrecords
    obtain ⟨v, rest, hrest, hv, hmap⟩ := hrecords
    simp only [Prod.mk.injEq] at hv
    refine ⟨v, rest, hrest, hv.1, hv.2.1, hv.2.2, fun hnil => ?_⟩
    rw [hnil, map_nil, eq_comm, map_eq_nil_iff] at hmap
    exact hmap
  constructor
  · intro v' rest' hcons' hcounter
    obtain ⟨v, rest, hrest, hattributes, hindex, hcount, -⟩ := hcons v' rest' hcons'
    have hreached : Reached counts v := h.reached v rest hrest (by
      rw [AuthVariable.isCounterBased, hattributes]
      exact hcounter)
    rw [Reached, hindex, hcount] at hreached
    exact hreached
  · intro v' rest' hcons' hacc
    obtain ⟨v, rest, hrest, hattributes, -, -, hnil⟩ := hcons v' rest' hcons'
    refine hnil (h.alone v rest hrest ?_)
    rw [AuthVariable.isAccessible, hattributes, ← hruntime]
    exact hacc

/-- Everything but a counter-based update of this variable that carries a key index. -/
def withoutCount (name : Char16Str) (guid : Guid) : Permits where
  update := fun req => req.variableName = name → req.vendorGuid = guid →
    hasAttribute req.attributes efiVariableAuthenticatedWriteAccess = true → req.keyIndex = 0
  keys := True
  mode := True

theorem HeadReached.moves
    (hmoves : Moves P env (withoutCount name guid) s s') (h : HeadReached counts s name guid) :
    HeadReached counts s' name guid := by
  refine hmoves.keeps (I := fun s => HeadReached counts s name guid) (fun a b hab ha => ?_) h
  cases hab with
  | update req hreq =>
      exact ha.update req (fun hname hguid hcounter => Or.inl (hreq hname hguid hcounter))
  | ask query | vendor state | lang platformLangCodes langCodes
  | keyStore hkeys entries => exact HeadReached.congr (s := a) rfl rfl ha
  | mode hmode mode =>
      exact ha.of_map (map_recordsOf_setFirstByte _ (fun _ _ => rfl) a _ _ _ _ _) rfl

end Invariant

section Frame

variable (P : Platform) (env : Environment) (s : AuthState)
variable (name : Char16Str) (guid : Guid) (req : SetRequest)

theorem withoutCount_plain
    {other : Char16Str} {otherGuid : Guid} {data : Bytes} {attributes : UInt32}
    (h : hasAttribute attributes efiVariableAuthenticatedWriteAccess = false) :
    (withoutCount name guid).update (plainRequest other otherGuid data attributes) := by
  intro _ _ hcounter
  unfold plainRequest at hcounter
  rw [h] at hcounter
  exact absurd hcounter (by decide)

theorem allowsInternal_withoutCount :
    AllowsInternal (withoutCount name guid) where
  certDb := fun _ => withoutCount_plain name guid (by decide)
  vendorKeysNv := fun _ => withoutCount_plain name guid (by decide)
  vendorKeys := fun _ => withoutCount_plain name guid (by decide)

theorem allowsMode_withoutCount :
    AllowsMode (withoutCount name guid) where
  mode := trivial
  secureBoot := fun _ => withoutCount_plain name guid (by decide)
  secureBootEnable := fun _ => withoutCount_plain name guid (by decide)

theorem allowsLang_withoutCount
    (other : Char16Str) :
    AllowsLang (withoutCount name guid) other :=
  fun _ _ _ _ => withoutCount_plain name guid (by decide)

theorem allowsKeys_withoutCount :
    AllowsKeys (withoutCount name guid) where
  keys := trivial
  keyDb := fun _ _ _ _ => rfl

theorem variableServiceSetVariable_withoutCount
    (hcall : req.isCounterCall name guid = false) :
    MovesTo P env (withoutCount name guid) s (variableServiceSetVariable P env s req) := by
  have hother : ∀ {attributes : UInt32}, (attributes = req.attributes ∨ attributes = 0) →
      req.variableName = name → req.vendorGuid = guid →
      ¬hasAttribute attributes efiVariableAuthenticatedWriteAccess = true := by
    rintro attributes (rfl | rfl) hname hguid hcounter
    · simp [SetRequest.isCounterCall, SetRequest.isCounterBased, hname, hguid, hcounter] at hcall
    · exact absurd hcounter (by decide)
  refine variableServiceSetVariable_moves P env s req (allowsLang_withoutCount name guid _)
    (allowsInternal_withoutCount name guid) ?_ (fun _ s org => ?_)
    (fun _ => allowsMode_withoutCount name guid)
  · intro data attributes time hattributes hname hguid hcounter
    exact absurd hcounter (hother hattributes hname hguid)
  · refine processCounterBased_moves P env s req.variableName req.vendorGuid req.data req.attributes
      (allowsKeys_withoutCount name guid) (fun data keyIndex count hname hguid hcounter => ?_) org
    exact absurd hcounter (hother (Or.inl rfl) hname hguid)

end Frame

section Call

variable {P : Platform} {env : Environment} {s s' : AuthState} {counts : List UInt64}
variable {name : Char16Str} {guid : Guid} {data : Bytes} {attributes : UInt32}
variable {status : EfiStatus} {org : Option AuthVariable}

/-- How the counter-based part ends: with an error, or with an update that carries a count
above the one of the record. -/
theorem processCounterBased_cases
    (horg : org = none → recordsOf s name guid = [])
    (h : processCounterBased P env s name guid data attributes org = some (status, s')) :
    ∃ auth, readAuthentication data = some auth ∧
      ((status.isError = true ∧ Moves P env (withoutCount name guid) s s') ∨
        (org.all (fun org => passesKeyAndCount s org auth) = true ∧
          ∃ keyIndex s1, recordsOf s1 name guid = recordsOf s name guid ∧
            s1.atRuntime = s.atRuntime ∧
            (status, s') = variableExLibUpdateVariable P env s1
              ⟨name, guid, auth.payload, attributes, keyIndex, auth.monotonicCount, none⟩)) := by
  obtain ⟨auth, hauth, hcases⟩ := processCounterBased_eq_some h
  refine ⟨auth, hauth, ?_⟩
  rcases hcases with ⟨rfl, rfl⟩ | ⟨hpasses, verified, s1, hs1, hcases⟩
  · exact Or.inl ⟨rfl, .refl⟩
  · have hverify : ∀ p, Moves P env p s s1 := by
      intro p
      have hmoves : Moves P env p s (verifyCounterBasedPayload env s auth).2 :=
        verifyCounterBasedPayload_moves P env s auth
      rw [hs1] at hmoves
      exact hmoves
    rcases hcases with ⟨herror, rfl⟩ | ⟨-, keyIndex, s2, hkey, hcases⟩
    · exact Or.inl ⟨herror, hverify _⟩
    · have hmoves : Moves P env (withoutCount name guid) s s2 :=
        (hverify _).trans
          (keyIndexFor_moves P env s1 (allowsKeys_withoutCount name guid) org auth _ _ hkey)
      have hrecords : recordsOf s1 name guid = recordsOf s name guid :=
        (hverify ⟨fun _ => False, False, False⟩).recordsOf_eq (fun _ hreq => False.elim hreq)
          (Or.inl not_false)
      have hrecords2 : recordsOf s2 name guid = recordsOf s1 name guid :=
        keyIndexFor_records (fun hnone => hrecords.trans (horg hnone)) hkey
      rcases hcases with ⟨-, rfl, rfl⟩ | ⟨index, rfl, hupdate⟩
      · exact Or.inl ⟨rfl, hmoves⟩
      · exact Or.inr ⟨hpasses, index, s2, hrecords2.trans hrecords, hmoves.atRuntime_eq, hupdate⟩

end Call

section Run

/-- The variable exists and is counter-based. -/
def IsCounterVariable (s : AuthState) (name : Char16Str) (guid : Guid) : Prop :=
  (findVariable s name guid true).any (·.isCounterBased) = true

instance (s : AuthState) (name : Char16Str) (guid : Guid) :
    Decidable (IsCounterVariable s name guid) :=
  inferInstanceAs (Decidable (_ = true))

/-- A step in the life of a counter-based variable, which it creates or leaves in place. -/
def LifeStep (P : Platform) (name : Char16Str) (guid : Guid) (s : AuthState) (e : ServiceEvent)
    (s' : AuthState) : Prop :=
  ServiceStep P s e s' ∧ IsCounterVariable s' name guid

/-- The count of a counter-based request for this variable that succeeds. -/
def acceptedCount (name : Char16Str) (guid : Guid) : ServiceEvent → Option UInt64
  | .setVariable _ req status =>
      if req.isCounterCall name guid && status == .success then
        (readAuthentication req.data).map VariableAuthentication.monotonicCount
      else none
  | .exitBootServices => none

/-- The accepted counts of a run, in order. -/
def acceptedCounts (name : Char16Str) (guid : Guid) (trace : List (AuthState × ServiceEvent)) :
    List UInt64 :=
  trace.filterMap (fun x => acceptedCount name guid x.2)

/-- A counter-based request with a count above that of the record changes the data, or
appends. -/
def ChangesData (name : Char16Str) (guid : Guid) (s : AuthState) : ServiceEvent → Prop
  | .setVariable _ req _ =>
      req.isCounterCall name guid = true → ∀ auth old,
        readAuthentication req.data = some auth → findVariable s name guid true = some old →
        old.monotonicCount < auth.monotonicCount →
        auth.payload ≠ old.data ∨ hasAttribute req.attributes efiVariableAppendWrite = true
  | .exitBootServices => True

/-- The record reaches the counts accepted so far, and is there if there are any. -/
structure CountsInv (counts : List UInt64) (s : AuthState) (name : Char16Str) (guid : Guid) :
    Prop where
  head : HeadReached counts s name guid
  empty : recordsOf s name guid = [] → counts = []
  ordinary : counts ≠ [] → isKeyVariable name guid = false

variable {P : Platform} {env : Environment} {s s' : AuthState} {counts : List UInt64}
variable {name : Char16Str} {guid : Guid} {req : SetRequest} {auth : VariableAuthentication}

theorem IsCounterVariable.exists_cons
    (h : IsCounterVariable s name guid) :
    ∃ v rest, recordsOf s name guid = v :: rest ∧ v.isCounterBased = true := by
  unfold IsCounterVariable at h
  rw [findVariable_ignore] at h
  cases hrecords : recordsOf s name guid with
  | nil =>
      rw [hrecords] at h
      cases h
  | cons v rest =>
      rw [hrecords] at h
      exact ⟨v, rest, rfl, h⟩

/-- The last update of an accepted request: the new record has its count. -/
theorem HeadReached.accept
    {req : UpdateRequest}
    (hname : req.variableName = name) (hguid : req.vendorGuid = guid)
    (hrecords : recordsOf s name guid = [] ∨
      ∃ old, recordsOf s name guid = [old] ∧ old.isAccessible s.atRuntime = true ∧
        (req.data ≠ old.data ∨ req.isAppend = true))
    (hcounts : ∀ c ∈ counts, c ≤ req.monotonicCount)
    (hsuccess : (variableExLibUpdateVariable P env s req).1.isError = false)
    (hlife : IsCounterVariable (variableExLibUpdateVariable P env s req).2 name guid) :
    HeadReached (counts ++ [req.monotonicCount]) (variableExLibUpdateVariable P env s req).2
      name guid := by
  subst hname hguid
  obtain ⟨v, rest, hcons, -⟩ := hlife.exists_cons
  have hnew : ∃ old data, recordsOf (variableExLibUpdateVariable P env s req).2 req.variableName
      req.vendorGuid = [newVariable req old data] := by
    rcases hrecords with habsent | ⟨old, hold, hacc, hchanges⟩
    · rcases recordsOf_update_absent P env s req habsent with ⟨hnil, -⟩ | ⟨-, h⟩
      · exact absurd (hcons.symm.trans hnil) (cons_ne_nil _ _)
      · exact ⟨_, _, h⟩
    · have hfound : findVariable s req.variableName req.vendorGuid false = some old := by
        rw [findVariable_eq, hold]
        simp [hacc]
      rcases recordsOf_update_found P env s req hold hfound with
        ⟨-, hkeep⟩ | ⟨-, hnil⟩ | ⟨-, h⟩
      · -- The early return of `UpdateVariable` does not see a change.
        obtain ⟨-, hdata, happend, -⟩ := hkeep hsuccess
        rw [happend] at hchanges
        exact absurd hdata.symm (hchanges.resolve_right Bool.false_ne_true)
      · exact absurd (hcons.symm.trans hnil) (cons_ne_nil _ _)
      · exact ⟨_, _, h⟩
  obtain ⟨old, data, hnew⟩ := hnew
  constructor
  · intro v' rest' hcons' _
    rw [hnew] at hcons'
    cases hcons'
    right
    intro c hc
    rcases mem_append.mp hc with hc | hc
    · exact hcounts c hc
    · rw [mem_singleton.mp hc]
      exact UInt64.le_refl _
  · intro v' rest' hcons' _
    rw [hnew] at hcons'
    cases hcons'
    rfl

theorem counterCall_found
    (hinv : HeadReached counts s req.variableName req.vendorGuid)
    (hcheck : checkExisting s req = .success) (hcounter : req.isCounterBased = true) :
    recordsOf s req.variableName req.vendorGuid = [] ∨
      ∃ old, recordsOf s req.variableName req.vendorGuid = [old] ∧
        old.isAccessible s.atRuntime = true ∧ old.isCounterBased = true := by
  cases hrecords : recordsOf s req.variableName req.vendorGuid with
  | nil => exact Or.inl rfl
  | cons old rest =>
      obtain ⟨hacc, hbased⟩ := counterCall_head hcheck hcounter hrecords
      rw [hinv.alone old rest hrecords hacc]
      exact Or.inr ⟨old, rfl, hacc, hbased⟩

theorem lt_of_passes
    {old : AuthVariable}
    (hreached : Reached counts old) (hpasses : passesKeyAndCount s old auth = true) :
    ∀ c ∈ counts, c < auth.monotonicCount := by
  simp only [passesKeyAndCount, Bool.and_eq_true, bne_iff_ne, ne_eq, decide_eq_true_eq] at hpasses
  obtain ⟨⟨hindex, -⟩, hlt⟩ := hpasses
  intro c hc
  rcases hreached with h | h
  · exact absurd h hindex
  · exact UInt64.lt_of_le_of_lt (h c hc) hlt

/-- A counter-based request for the variable: an accepted count is above the earlier ones. -/
theorem counterCall_step
    {status : EfiStatus}
    (hinv : CountsInv counts s req.variableName req.vendorGuid)
    (hcounter : req.isCounterBased = true)
    (h : variableServiceSetVariable P env s req = some (status, s'))
    (hlife : IsCounterVariable s' req.variableName req.vendorGuid)
    (hchanges : ∀ auth old, readAuthentication req.data = some auth →
      findVariable s req.variableName req.vendorGuid true = some old →
      old.monotonicCount < auth.monotonicCount →
      auth.payload ≠ old.data ∨ hasAttribute req.attributes efiVariableAppendWrite = true) :
    (status.isError = true ∧ HeadReached counts s' req.variableName req.vendorGuid) ∨
      (status = .success ∧ isKeyVariable req.variableName req.vendorGuid = false ∧
        ∃ auth, readAuthentication req.data = some auth ∧
          (∀ c ∈ counts, c < auth.monotonicCount) ∧
          HeadReached (counts ++ [auth.monotonicCount]) s' req.variableName req.vendorGuid) := by
  have hhook : HeadReached counts (langHook P env s req).2 req.variableName req.vendorGuid :=
    hinv.head.moves (langHook_moves P env s req (allowsLang_withoutCount _ _ _))
  rcases variableServiceSetVariable_cases h with ⟨herror, rfl | rfl⟩ | ⟨hcheck, -, hprocess⟩
  · exact Or.inl ⟨herror, hinv.head⟩
  · exact Or.inl ⟨herror, hhook⟩
  · obtain ⟨htime, auth, hauth⟩ := checkRequest_counter hcheck hcounter
    have hexisting : checkExisting s req = .success := (checkRequest_success hcheck).2.2
    have hlone := counterCall_found hinv.head hexisting hcounter
    obtain ⟨hrecords, hruntime⟩ :=
      @langHook_records P env s req.vendorGuid req
    revert hprocess hhook hrecords hruntime
    generalize (langHook P env s req).2 = s1
    intro hhook hprocess hrecords hruntime
    cases hkey : isKeyVariable req.variableName req.vendorGuid with
    | true =>
        rw [process_keyVariable hkey htime] at hprocess
        cases hprocess
        exact Or.inl ⟨rfl, hhook⟩
    | false =>
        rw [process_ordinary hkey] at hprocess
        rcases processVariable_counter_cases hcounter htime hprocess with
          ⟨rfl, rfl⟩ | ⟨-, hdelete⟩ | hcount
        · exact Or.inl ⟨rfl, hhook⟩
        · obtain ⟨hstatus, hs'⟩ := Prod.ext_iff.mp hdelete
          dsimp only at hstatus hs'
          subst hstatus hs'
          cases herror : (variableExLibUpdateVariable P env s1
              (plainRequest req.variableName req.vendorGuid [] 0)).1.isError with
          | true =>
              refine Or.inl ⟨rfl, hhook.update _ (fun _ _ h => ?_)⟩
              simp [plainRequest, hasAttribute] at h
          | false =>
              -- The variable would be gone.
              obtain ⟨v, rest, hcons, -⟩ := hlife.exists_cons
              rw [recordsOf_delete herror ?_] at hcons
              · cases hcons
              · rw [hrecords, hruntime]
                rcases hlone with hold | ⟨old, hold, hacc, -⟩
                · exact Or.inl hold
                · exact Or.inr ⟨old, hold, hacc⟩
        · rw [counterCall_org hexisting hcounter hrecords hruntime] at hcount
          obtain ⟨auth', hauth', hcases⟩ := processCounterBased_cases
            (fun hnone => hrecords.trans (head?_eq_none_iff.mp hnone)) hcount
          rw [hauth, Option.some.injEq] at hauth'
          subst hauth'
          rcases hcases with ⟨herror, hmoves⟩ | ⟨hpasses, keyIndex, s2, hrecords2, hruntime2, hupdate⟩
          · exact Or.inl ⟨herror, hhook.moves hmoves⟩
          · obtain ⟨hstatus, hs'⟩ := Prod.ext_iff.mp hupdate
            dsimp only at hstatus hs'
            subst hstatus hs'
            have hlt : ∀ c ∈ counts, c < auth.monotonicCount := by
              rcases hlone with hold | ⟨old, hold, -, hbased⟩
              · rw [hinv.empty hold]
                exact fun c hc => absurd hc not_mem_nil
              · rw [hold, head?_cons, Option.all_some] at hpasses
                exact lt_of_passes (hinv.head.reached old [] hold hbased) hpasses
            have hle : ∀ c ∈ counts, c ≤ auth.monotonicCount :=
              fun c hc => UInt64.le_of_lt (hlt c hc)
            cases herror : (variableExLibUpdateVariable P env s2 ⟨req.variableName,
                req.vendorGuid, auth.payload, req.attributes, keyIndex, auth.monotonicCount,
                none⟩).1.isError with
            | true =>
                refine Or.inl ⟨rfl, ?_⟩
                exact (hhook.congr hrecords2 hruntime2).update _ (fun _ _ _ => Or.inr hle)
            | false =>
                refine Or.inr ⟨isError_eq_false.mp herror, rfl, auth, hauth, hlt, ?_⟩
                refine HeadReached.accept rfl rfl ?_ hle herror hlife
                rw [hrecords2, hrecords, hruntime2, hruntime]
                rcases hlone with hold | ⟨old, hold, hacc, -⟩
                · exact Or.inl hold
                · rw [hold, head?_cons, Option.all_some] at hpasses
                  refine Or.inr ⟨old, hold, hacc, hchanges auth old hauth ?_ ?_⟩
                  · rw [findVariable_ignore, hold]
                    rfl
                  · simp only [passesKeyAndCount, Bool.and_eq_true, decide_eq_true_eq] at hpasses
                    exact hpasses.2

/-- One step: an accepted count is above the earlier ones. -/
theorem counts_step
    {e : ServiceEvent}
    (hinv : CountsInv counts s name guid) (hstep : LifeStep P name guid s e s')
    (hchanges : ChangesData name guid s e) :
    (∀ c ∈ counts, ∀ d ∈ (acceptedCount name guid e).toList, c < d) ∧
      CountsInv (counts ++ (acceptedCount name guid e).toList) s' name guid := by
  obtain ⟨hstep, hlife⟩ := hstep
  have hnonempty : recordsOf s' name guid = [] → False := by
    obtain ⟨v, rest, hcons, -⟩ := hlife.exists_cons
    rw [hcons]
    exact cons_ne_nil v rest
  have hkeep : acceptedCount name guid e = none → HeadReached counts s' name guid →
      (∀ c ∈ counts, ∀ d ∈ (acceptedCount name guid e).toList, c < d) ∧
        CountsInv (counts ++ (acceptedCount name guid e).toList) s' name guid := by
    intro hnone hhead
    rw [hnone, Option.toList_none, append_nil]
    exact ⟨fun c _ d hd => absurd hd not_mem_nil, hhead, fun h => (hnonempty h).elim,
      hinv.ordinary⟩
  cases hstep with
  | setVariable h =>
      rename_i env req status
      cases hcall : req.isCounterCall name guid with
      | false =>
          refine hkeep (by simp [acceptedCount, hcall]) ?_
          exact hinv.head.moves
            (variableServiceSetVariable_withoutCount P env s name guid req hcall _ _ h)
      | true =>
          have hchanges' := hchanges hcall
          simp only [SetRequest.isCounterCall, Bool.and_eq_true, beq_iff_eq] at hcall
          obtain ⟨⟨rfl, rfl⟩, hcounter⟩ := hcall
          rcases counterCall_step hinv hcounter h hlife hchanges' with
            ⟨herror, hhead⟩ | ⟨rfl, hkey, auth, hauth, hlt, hhead⟩
          · refine hkeep ?_ hhead
            have hstatus : (status == .success) = false := by
              rw [beq_eq_false_iff_ne]
              rintro rfl
              exact absurd herror (by decide)
            simp [acceptedCount, hstatus]
          · have haccepted : acceptedCount req.variableName req.vendorGuid
                (.setVariable env req .success) = some auth.monotonicCount := by
              simp [acceptedCount, SetRequest.isCounterCall, hcounter, hauth]
            rw [haccepted, Option.toList_some]
            refine ⟨fun c hc d hd => ?_, hhead, fun h => (hnonempty h).elim, fun _ => hkey⟩
            rw [mem_singleton.mp hd]
            exact hlt c hc
  | exitBootServices =>
      refine hkeep rfl ⟨hinv.head.reached, fun v rest hcons hacc => ?_⟩
      refine hinv.head.alone v rest hcons ?_
      have hruntime : hasAttribute v.attributes efiVariableRuntimeAccess = true := by
        simpa [AuthVariable.isAccessible] using hacc
      simp [AuthVariable.isAccessible, hruntime]

theorem counts_run
    {trace : List (AuthState × ServiceEvent)}
    (hrun : Run (LifeStep P name guid) s trace s')
    (hchanges : ∀ x ∈ trace, ChangesData name guid x.1 x.2)
    (hinv : CountsInv counts s name guid) :
    (∀ c ∈ counts, ∀ d ∈ acceptedCounts name guid trace, c < d) ∧
      (acceptedCounts name guid trace).Pairwise (· < ·) ∧
      CountsInv (counts ++ acceptedCounts name guid trace) s' name guid := by
  induction hrun generalizing counts with
  | nil s =>
      refine ⟨fun c _ d hd => absurd hd not_mem_nil, List.Pairwise.nil, ?_⟩
      rw [acceptedCounts, filterMap_nil, append_nil]
      exact hinv
  | cons hstep hrest ih =>
      rename_i s s1 s2 e trace
      obtain ⟨hlt, hinv1⟩ := counts_step hinv hstep (hchanges _ mem_cons_self)
      obtain ⟨hlt', hpairwise, hinv2⟩ :=
        ih (fun x hx => hchanges x (mem_cons_of_mem _ hx)) hinv1
      have hcounts : acceptedCounts name guid ((s, e) :: trace) =
          (acceptedCount name guid e).toList ++ acceptedCounts name guid trace := by
        rw [acceptedCounts, filterMap_cons]
        cases acceptedCount name guid e <;> rfl
      rw [hcounts]
      refine ⟨fun c hc d hd => ?_, ?_, ?_⟩
      · rcases mem_append.mp hd with hd | hd
        · exact hlt c hc d hd
        · exact hlt' c (mem_append_left _ hc) d hd
      · rw [pairwise_append]
        refine ⟨?_, hpairwise, fun c hc d hd => hlt' c (mem_append_right _ hc) d hd⟩
        cases acceptedCount name guid e <;> simp
      · rw [← append_assoc]
        exact hinv2

/-- A request with a count that was reached is rejected. -/
theorem counterCall_replay
    (hinv : CountsInv counts s req.variableName req.vendorGuid)
    (hcounter : req.isCounterBased = true)
    (hauth : readAuthentication req.data = some auth)
    (hreached : ∃ c ∈ counts, auth.monotonicCount ≤ c)
    (hdelete : ∀ old, findVariable s req.variableName req.vendorGuid true = some old →
      (isDeleteAuthVariable req.data req.attributes old.attributes &&
        env.userPhysicalPresent) = false) :
    ∃ status s', variableServiceSetVariable P env s req = some (status, s') ∧
      status.isError = true ∧
      (checkRequest P env s req = .success → (langHook P env s req).1 = .success →
        status = .securityViolation) := by
  unfold variableServiceSetVariable
  by_cases hcheck : (checkRequest P env s req).isError = true
  · rw [if_pos hcheck]
    refine ⟨_, _, rfl, hcheck, fun h => ?_⟩
    rw [h] at hcheck
    exact absurd hcheck (by decide)
  · rw [if_neg hcheck]
    rw [Bool.not_eq_true, isError_eq_false] at hcheck
    unfold unlessError
    dsimp only
    by_cases hhook : (langHook P env s req).1.isError = true
    · rw [if_pos hhook]
      refine ⟨_, _, rfl, hhook, fun _ h => ?_⟩
      rw [h] at hhook
      exact absurd hhook (by decide)
    · rw [if_neg hhook]
      obtain ⟨c, hc, hle⟩ := hreached
      have hkey : isKeyVariable req.variableName req.vendorGuid = false :=
        hinv.ordinary (ne_nil_of_mem hc)
      obtain ⟨v, hold, hacc, hbased⟩ :=
        (counterCall_found hinv.head (checkRequest_success hcheck).2.2 hcounter).resolve_left
          fun hold => ne_nil_of_mem hc (hinv.empty hold)
      obtain ⟨htime, -⟩ := checkRequest_counter hcheck hcounter
      obtain ⟨hrecords, hruntime⟩ := @langHook_records P env s req.vendorGuid req
      have hfound : variableExLibFindVariable (langHook P env s req).2 req.variableName
          req.vendorGuid = some v := by
        rw [variableExLibFindVariable, findVariable_eq, hrecords, hruntime, hold]
        simp [hacc]
      have hpasses : passesKeyAndCount (langHook P env s req).2 v auth = false := by
        by_contra hpasses
        rw [Bool.not_eq_false] at hpasses
        exact UInt64.not_le.mpr
          (lt_of_passes (hinv.head.reached v [] hold hbased) hpasses c hc) hle
      refine ⟨.securityViolation, (langHook P env s req).2, ?_, rfl, fun _ _ => rfl⟩
      rw [process_ordinary hkey]
      refine processVariable_counter_rejects hcounter htime (hdelete v ?_) hfound hbased hauth
        hpasses
      rw [findVariable_ignore, hold]
      rfl

end Run

section Sample

/-- Then it has been set to other data with count 2. -/
def changedState : AuthState :=
  returned (setCounter createdState 2 20)

theorem setCounter_change :
    setCounter createdState 2 20 = some (.success, changedState) := by
  decide +kernel

theorem changesData_pair
    {name : Char16Str} {guid : Guid} {s s' : AuthState} {e e' : ServiceEvent}
    (h : ChangesData name guid s e) (h' : ChangesData name guid s' e') :
    ∀ x ∈ [(s, e), (s', e')], ChangesData name guid x.1 x.2 := by
  simp [h, h']

/-- The steps of the two requests. -/
def sampleTrace : List (AuthState × ServiceEvent) :=
  [(initializedState, .setVariable acceptingEnvironment (counterRequest 1 10) .success),
    (createdState, .setVariable acceptingEnvironment (counterRequest 2 20) .success)]

/-- The same data with count 2, twice. -/
def repeatedState : AuthState :=
  returned (setCounter createdState 2 10)

end Sample

end AuthVariableLib
end Udk
