import Udk.Variable.Writes

/-!
# What an update is going to do

All decisions of `UpdateVariable` up to the first store write depend on the state it
starts from.  `plan` makes them, `execute` acts on them, and together they are the
body of `UpdateVariable`.
-/

namespace Udk
namespace Variable

/-- The decision of an update. -/
inductive Plan where
  | stop (status : EfiStatus) (exit : Exit)
  /-- Delete the variable at `currPtr`. -/
  | delete (track : PointerTrack) (currPtr : Nat)
  /-- Install a record with `data`; the record at `mark` is set in transition first. -/
  | install (track : PointerTrack) (mark : Option Nat) (data : Bytes)

section Plan

variable (P : Platform) (d : Driver) (req : UpdateRequest)

def planExisting (track : PointerTrack) (currPtr : Nat) : Plan :=
  let old := trackedRecord d track currPtr
  if d.atRuntime && track.isVolatile then .stop .writeProtected .done
  else if d.atRuntime && !hasAttribute (attributes old) efiVariableNonVolatile then
    .stop .invalidParameter .done
  else if d.atRuntime && !hasAttribute (attributes old) efiVariableRuntimeAccess then
    .stop .invalidParameter .done
  else if req.isDelete then .delete track currPtr
  else if isUnchanged P req old then .stop .success .done
  else if isLive old then
    match mergedData P req old with
    | none => .stop .invalidParameter .done
    | some data => .install track (some currPtr) data
  else .install track none req.data

def planAbsent (track : PointerTrack) : Plan :=
  if req.data.isEmpty && req.isAppend then .stop .success .done
  else if req.data.isEmpty ||
      !hasAttribute req.attributes
        (efiVariableRuntimeAccess ||| efiVariableBootserviceAccess) then
    .stop .notFound .done
  else if d.atRuntime && (!hasAttribute req.attributes efiVariableRuntimeAccess ||
      !hasAttribute req.attributes efiVariableNonVolatile) then
    .stop .invalidParameter .done
  else .install track none req.data

/-- The plan of `UpdateVariable`. -/
def plan (cacheVariable : PointerTrack) : Plan :=
  if !d.fvbInstance && (hasAttribute req.attributes efiVariableNonVolatile ||
      hasAttribute req.attributes variableAttributeAtAw) then
    .stop .notAvailableYet .done
  else
    match redirectHob P d req cacheVariable with
    | none => .stop .success .flush
    | some track =>
        match track.currPtr with
        | none => planAbsent d req track
        | some currPtr => planExisting P d req track currPtr

/-- Install the new record once the old one has been set in transition. -/
def executeInstall (track : PointerTrack) (mark : Option Nat) (data : Bytes) : Outcome :=
  match mark with
  | none => installVariable P d req track data
  | some currPtr =>
      let (status, d) := writeState P d track.isVolatile currPtr varInDeletedTransition
      if status.isError then ⟨status, .done, d⟩
      else installVariable P d req track data

def execute : Plan → Outcome
  | .stop status exit => ⟨status, exit, d⟩
  | .delete track currPtr =>
      let (status, d) := deleteRecords P d track currPtr
      ⟨status, if status.isError || track.isVolatile then .done else .flush, d⟩
  | .install track mark data => executeInstall P d req track mark data

theorem execute_planExisting (track : PointerTrack) (currPtr : Nat) :
    execute P d req (planExisting P d req track currPtr) =
      updateExisting P d req track currPtr := by
  unfold planExisting updateExisting
  dsimp only
  by_cases h1 : (d.atRuntime && track.isVolatile) = true
  · rw [if_pos h1, if_pos h1]
    rfl
  rw [if_neg h1, if_neg h1]
  by_cases h2 : (d.atRuntime && !hasAttribute (attributes (trackedRecord d track currPtr))
      efiVariableNonVolatile) = true
  · rw [if_pos h2, if_pos h2]
    rfl
  rw [if_neg h2, if_neg h2]
  by_cases h3 : (d.atRuntime && !hasAttribute (attributes (trackedRecord d track currPtr))
      efiVariableRuntimeAccess) = true
  · rw [if_pos h3, if_pos h3]
    rfl
  rw [if_neg h3, if_neg h3]
  by_cases h4 : req.isDelete = true
  · rw [if_pos h4, if_pos h4]
    rfl
  rw [if_neg h4, if_neg h4]
  by_cases h5 : isUnchanged P req (trackedRecord d track currPtr) = true
  · rw [if_pos h5, if_pos h5]
    rfl
  rw [if_neg h5, if_neg h5]
  by_cases h6 : isLive (trackedRecord d track currPtr) = true
  · rw [if_pos h6, if_pos h6]
    cases mergedData P req (trackedRecord d track currPtr) <;> rfl
  · rw [if_neg h6, if_neg h6]
    rfl

theorem execute_planAbsent (track : PointerTrack) :
    execute P d req (planAbsent d req track) = updateAbsent P d req track := by
  unfold planAbsent updateAbsent
  split_ifs <;> rfl

theorem updateVariableBody_eq (cacheVariable : PointerTrack) :
    updateVariableBody P d req cacheVariable =
      execute P d req (plan P d req cacheVariable) := by
  unfold updateVariableBody plan
  split_ifs with h1
  · rfl
  · cases redirectHob P d req cacheVariable with
    | none => rfl
    | some track =>
        cases hcurr : track.currPtr with
        | none =>
            simp only [hcurr]
            rw [execute_planAbsent]
        | some currPtr =>
            simp only [hcurr]
            rw [execute_planExisting]

/-- What an installing plan says about the request and the record it replaces. -/
theorem plan_install {cacheVariable track : PointerTrack} {mark : Option Nat} {data : Bytes}
    (h : plan P d req cacheVariable = .install track mark data) :
    redirectHob P d req cacheVariable = some track ∧
      (d.fvbInstance = true ∨ hasAttribute req.attributes efiVariableNonVolatile = false) ∧
      ((track.currPtr = none ∧ mark = none ∧ data = req.data ∧ req.data ≠ [] ∧
          hasAttribute req.attributes
            (efiVariableRuntimeAccess ||| efiVariableBootserviceAccess) = true) ∨
        ∃ currPtr, track.currPtr = some currPtr ∧ req.isDelete = false ∧
          isUnchanged P req (trackedRecord d track currPtr) = false ∧
          ((isLive (trackedRecord d track currPtr) = true ∧ mark = some currPtr ∧
              mergedData P req (trackedRecord d track currPtr) = some data) ∨
            (isLive (trackedRecord d track currPtr) = false ∧ mark = none ∧
              data = req.data))) := by
  unfold plan at h
  split_ifs at h with h1
  have hfvb : d.fvbInstance = true ∨
      hasAttribute req.attributes efiVariableNonVolatile = false := by
    simp only [Bool.and_eq_true, Bool.not_eq_true', Bool.or_eq_true, not_and, not_or] at h1
    cases hf : d.fvbInstance with
    | true => exact Or.inl rfl
    | false => exact Or.inr (by simpa using (h1 hf).1)
  cases hred : redirectHob P d req cacheVariable with
  | none =>
      rw [hred] at h
      cases h
  | some t =>
      rw [hred] at h
      simp only at h
      cases hcurr : t.currPtr with
      | none =>
          rw [hcurr] at h
          simp only [planAbsent] at h
          split_ifs at h with h2 h3 h4
          cases h
          simp only [Bool.or_eq_true, Bool.not_eq_true', not_or, Bool.not_eq_false] at h3
          refine ⟨rfl, hfvb, Or.inl ⟨hcurr, rfl, rfl, ?_, h3.2⟩⟩
          simpa using h3.1
      | some currPtr =>
          rw [hcurr] at h
          simp only [planExisting] at h
          split_ifs at h with h2 h3 h4 h5 h6 h7
          · cases hm : mergedData P req (trackedRecord d t currPtr) with
            | none =>
                rw [hm] at h
                cases h
            | some x =>
                rw [hm] at h
                cases h
                exact ⟨rfl, hfvb, Or.inr ⟨currPtr, hcurr, by simpa using h5, by simpa using h6,
                  Or.inl ⟨h7, rfl, hm⟩⟩⟩
          · cases h
            exact ⟨rfl, hfvb, Or.inr ⟨currPtr, hcurr, by simpa using h5, by simpa using h6,
              Or.inr ⟨by simpa using h7, rfl, rfl⟩⟩⟩

theorem plan_install_mark {cacheVariable track : PointerTrack} {mark : Option Nat} {data : Bytes}
    (hplan : plan P d req cacheVariable = .install track mark data) :
    ∀ p, mark = some p → track.currPtr = some p := by
  obtain ⟨-, -, hcases⟩ := plan_install P d req hplan
  intro p hp
  rcases hcases with ⟨-, hnone, -⟩ | ⟨q, hcurr, -, -, ⟨-, hsome, -⟩ | ⟨-, hnone, -⟩⟩
  · rw [hnone] at hp
    cases hp
  · rw [hcurr, ← hp, hsome]
  · rw [hnone] at hp
    cases hp

theorem plan_delete {cacheVariable track : PointerTrack} {currPtr : Nat}
    (h : plan P d req cacheVariable = .delete track currPtr) :
    redirectHob P d req cacheVariable = some track ∧ track.currPtr = some currPtr ∧
      req.isDelete = true := by
  unfold plan at h
  split_ifs at h with h1
  cases hred : redirectHob P d req cacheVariable with
  | none =>
      rw [hred] at h
      cases h
  | some t =>
      rw [hred] at h
      simp only at h
      cases hcurr : t.currPtr with
      | none =>
          rw [hcurr] at h
          simp only [planAbsent] at h
          split_ifs at h
      | some p =>
          rw [hcurr] at h
          simp only [planExisting] at h
          split_ifs at h with h2 h3 h4 h5 h6 h7
          · cases h
            exact ⟨rfl, hcurr, h5⟩
          · cases hm : mergedData P req (trackedRecord d t p) with
            | none | some x =>
                rw [hm] at h
                cases h

/-- An in-place record write of the update ends before the end of the volume. -/
def VolumeRoom (cacheVariable : PointerTrack) : Prop :=
  ∀ track mark data old, plan P d req cacheVariable = .install track mark data →
    hasAttribute req.attributes efiVariableNonVolatile = true →
    overQuota P d req (buildVariable P.authFormat req old data) = false →
    P.headerLength + d.nonVolatileLastVariableOffset +
      (buildVariable P.authFormat req old data).length < P.fvLength

end Plan

end Variable
end Udk
