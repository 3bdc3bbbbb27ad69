import Udk.Dispatcher.DependencyAgreement
import Udk.Walk

/-!
# Memory accesses of the DXE dependency evaluator

The bytes of the dependency expression and the entries of the evaluation stack that
`CorePreProcessDepex` and `CoreIsSchedulable` touch, turn by turn beside `depexStep`, with the
positions of the stack pointer and the `ASSERT`.  Which instructions an evaluation comes to depends
on the opcodes and on the number of entries on the stack only.
-/

namespace Udk
namespace Dispatcher

open Variable List

/-- What the evaluator touches. -/
inductive Access where
  /-- Bytes of `Depex` that are read or written. -/
  | depex (offset width : Nat)
  /-- Entries of a stack allocation of this size that are read or written. -/
  | stack (index width size : Nat)
  /-- `mDepexEvaluationStackPointer`, from the start of an allocation of this size. -/
  | pointer (index size : Nat)
  /-- `ASSERT (FALSE)`. -/
  | assertion
deriving DecidableEq

/-- The access stays inside its object; an assertion is never fine. -/
def Access.Inside (depexSize : Nat) : Access → Prop
  | depex offset width => offset + width ≤ depexSize
  | stack index width size => index + width ≤ size
  | pointer index size => index ≤ size
  | assertion => False

section Accesses

/-- Accesses of `CorePreProcessDepex`: the opcode and, when the entry is before or after another
one, the GUID behind it. -/
def preProcessAccesses (entry : EfiCoreDriverEntry) : List Access :=
  match corePreProcessDepex entry with
  | none => [.depex 0 1]
  | some entry => if entry.before || entry.after then [.depex 0 1, .depex 1 16] else [.depex 0 1]

variable (env : DepexEnvironment) (st : DepexState)

/-- Accesses of `GrowDepexStack` and `PushBool`. -/
def pushAccesses : List Access :=
  if st.stack.length = st.stackSize then
    match growDepexStack env st with
    | none => []
    | some size =>
        [.stack 0 st.stackSize st.stackSize, .stack 0 st.stackSize size,
          .pointer st.stack.length size, .stack st.stack.length 1 size,
          .pointer (st.stack.length + 1) size]
  else [.stack st.stack.length 1 st.stackSize, .pointer (st.stack.length + 1) st.stackSize]

/-- Accesses of `PopBool`. -/
def popAccesses : List Access :=
  match st.stack with
  | [] => []
  | _ :: rest => [.pointer rest.length st.stackSize, .stack rest.length 1 st.stackSize]

/-- Accesses of `AND` and `OR`. -/
def binaryAccesses : List Access :=
  popAccesses st ++
    match popBool st with
    | none => []
    | some (_, st) =>
        popAccesses st ++
          match popBool st with
          | none => []
          | some (_, st) => pushAccesses env st

/-- Accesses of one turn of the loop of `CoreIsSchedulable`. -/
def turnAccesses : List Access :=
  .pointer st.stack.length st.stackSize ::
    if st.depex.length ≤ st.iterator then []
    else
      .depex st.iterator 1 ::
        match Opcode.read (st.depex.getD st.iterator 0) with
        | some .before | some .after => [.assertion]
        | some .sor => []
        | some .push =>
            .depex (st.iterator + 1) 16 ::
              if env.installed (driverGuid st) then .depex st.iterator 1 :: pushAccesses env st
              else pushAccesses env st
        | some .and | some .or => binaryAccesses env st
        | some .not =>
            popAccesses st ++
              match popBool st with
              | none => []
              | some (_, st) => pushAccesses env st
        | some .true | some .false => pushAccesses env st
        | some .end => popAccesses st
        | some .replaceTrue => .depex (st.iterator + 1) 16 :: pushAccesses env st
        | none => []

/-- The state behind a turn that goes on. -/
def nextState : Option DepexState :=
  match depexStep env st with
  | .next st => some st
  | .result _ _ => none

end Accesses

/-- Accesses of the loop of `CoreIsSchedulable`. -/
def depexAccesses (env : DepexEnvironment) (st : DepexState) : List Access :=
  turnAccesses env st ++
    match _hstep : depexStep env st with
    | .result _ _ => []
    | .next st => depexAccesses env st
termination_by st.depex.length - st.iterator
decreasing_by
  have hnext := depexStep_next _hstep
  omega

/-- Accesses of `CoreIsSchedulable`. -/
def schedulableAccesses (env : DepexEnvironment) (entry : EfiCoreDriverEntry) (stackSize : Nat) :
    List Access :=
  if entry.after || entry.before then []
  else
    match entry.depex with
    | none => []
    | some depex => depexAccesses env ⟨depex, 0, [], stackSize⟩

section Instructions

/-- The instruction at an offset; one that has been marked is still a push. -/
def operation (depex : Bytes) (offset : Nat) : Option Opcode :=
  match Opcode.read (depex.getD offset 0) with
  | some .push => some .replaceTrue
  | op => op

/-- From an instruction and the number of entries on the stack to the next ones, as long as the
expression goes on and every operator has its operands. -/
def nextInstruction (depex : Bytes) (place : Nat × Nat) : Option (Nat × Nat) :=
  let (offset, entries) := place
  if depex.length ≤ offset then none
  else
    match operation depex offset with
    | some .before | some .after | some .sor => if offset ≠ 0 then none else some (1, entries)
    | some .push | some .replaceTrue => some (offset + 17, entries + 1)
    | some .and | some .or => if entries < 2 then none else some (offset + 1, entries - 1)
    | some .not => if entries < 1 then none else some (offset + 1, entries)
    | some .true | some .false => some (offset + 1, entries + 1)
    | some .end | none => none

/-- An instruction that starts inside the expression lies inside it, and is not a late `BEFORE` or
`AFTER`. -/
structure Wellformed (depex : Bytes) (offset : Nat) : Prop where
  operand : offset < depex.length → operation depex offset = some .replaceTrue →
    offset + 17 ≤ depex.length
  notBefore : offset < depex.length → operation depex offset ≠ some .before
  notAfter : offset < depex.length → operation depex offset ≠ some .after

/-- Expressions that differ in the marks of their pushes only. -/
structure SameInstructions (depex depex' : Bytes) : Prop where
  length : depex.length = depex'.length
  operation : ∀ offset, operation depex offset = operation depex' offset

variable {depex depex' depex'' : Bytes} {offset : Nat}

theorem SameInstructions.refl (depex : Bytes) : SameInstructions depex depex :=
  ⟨rfl, fun _ => rfl⟩

theorem SameInstructions.trans
    (h : SameInstructions depex depex') (h' : SameInstructions depex' depex'') :
    SameInstructions depex depex'' :=
  ⟨h.length.trans h'.length, fun offset => (h.operation offset).trans (h'.operation offset)⟩

theorem SameInstructions.nextInstruction
    (h : SameInstructions depex depex') (place : Nat × Nat) :
    nextInstruction depex place = nextInstruction depex' place := by
  rw [Dispatcher.nextInstruction, Dispatcher.nextInstruction, h.length, h.operation]

theorem SameInstructions.wellformed
    (h : SameInstructions depex depex') :
    Wellformed depex offset ↔ Wellformed depex' offset := by
  have hlength := h.length
  have hoperation := h.operation offset
  constructor
  case mp =>
    intro hwell
    constructor
    · rw [← hlength, ← hoperation]
      exact hwell.operand
    · rw [← hlength, ← hoperation]
      exact hwell.notBefore
    · rw [← hlength, ← hoperation]
      exact hwell.notAfter
  case mpr =>
    intro hwell
    constructor
    · rw [hlength, hoperation]
      exact hwell.operand
    · rw [hlength, hoperation]
      exact hwell.notBefore
    · rw [hlength, hoperation]
      exact hwell.notAfter

theorem Wellformed.of_plain
    {op : Option Opcode}
    (h : Dispatcher.operation depex offset = op)
    (hoperand : op ≠ some .replaceTrue) (hbefore : op ≠ some .before) (hafter : op ≠ some .after) :
    Wellformed depex offset := by
  subst h
  exact ⟨fun _ h => absurd h hoperand, fun _ => hbefore, fun _ => hafter⟩

theorem wellformed_operand
    (hlt : offset < depex.length) (h : operation depex offset = some .replaceTrue) :
    Wellformed depex offset ↔ offset + 1 + 16 ≤ depex.length := by
  constructor
  case mp => exact fun hwell => hwell.operand hlt h
  case mpr =>
    intro hle
    refine ⟨fun _ _ => hle, fun _ => ?_, fun _ => ?_⟩
    · rw [h]
      decide
    · rw [h]
      decide

theorem sameInstructions_mark
    (hpush : Opcode.read (depex.getD offset 0) = some .push) :
    SameInstructions (depex.set offset Opcode.replaceTrue.byte) depex := by
  refine ⟨length_set, fun place => ?_⟩
  by_cases hplace : place = offset
  · subst hplace
    have hlt : place < depex.length := by
      by_contra hnot
      rw [getD_eq_getElem?_getD, getElem?_eq_none (by omega), Option.getD_none] at hpush
      cases hpush
    have hmarked : (depex.set place Opcode.replaceTrue.byte).getD place 0 =
        Opcode.replaceTrue.byte := by
      rw [getD_eq_getElem?_getD, getElem?_set_self hlt, Option.getD_some]
    rw [operation, operation, hmarked, hpush, Opcode.read_byte]
  · have hsame : (depex.set offset Opcode.replaceTrue.byte).getD place 0 = depex.getD place 0 := by
      rw [getD_eq_getElem?_getD, getElem?_set_ne (Ne.symm hplace),
        getD_eq_getElem?_getD]
    rw [operation, operation, hsame]

end Instructions

section Turns

variable {env : DepexEnvironment} {st st' : DepexState} {depexSize : Nat}
  {value : Bool} {width : Nat} {f : Bool → Bool → Bool}

theorem growDepexStack_eq
    {size : Nat}
    (h : growDepexStack env st = some size) :
    size = depexStackSizeIncrement + st.stackSize := by
  unfold growDepexStack at h
  dsimp only at h
  split at h
  case isTrue => exact (Option.some_inj.mp h).symm
  case isFalse => cases h

theorem pushTurn_pushed
    (hstack : st.stack.length ≤ st.stackSize)
    (h : pushTurn env st value width = .next st') :
    st'.stack.length = st.stack.length + 1 ∧ st'.stack.length ≤ st'.stackSize := by
  unfold pushTurn pushBool at h
  split at h
  case h_1 => cases h
  case h_2 st1 hpush =>
    cases h
    split at hpush
    case isTrue hfull =>
      obtain ⟨size, hsize, rfl⟩ := Option.map_eq_some_iff.mp hpush
      have hgrown := growDepexStack_eq hsize
      rw [depexStackSizeIncrement] at hgrown
      refine ⟨rfl, ?_⟩
      show st.stack.length + 1 ≤ size
      omega
    case isFalse hroom =>
      obtain rfl := Option.some_inj.mp hpush
      exact ⟨rfl, Nat.lt_of_le_of_ne hstack hroom⟩

theorem pushTurn_granted
    (hall : ∀ size, env.allocatePool size = true) :
    ∃ st', pushTurn env st value width = .next st' := by
  rcases pushTurn_cases env st value width with ⟨size, hnext⟩ | ⟨-, size, hsize⟩
  · exact ⟨_, hnext⟩
  · rw [hall size] at hsize
    cases hsize

theorem pushAccesses_inside
    (hstack : st.stack.length ≤ st.stackSize) :
    ∀ access ∈ pushAccesses env st, access.Inside depexSize := by
  unfold pushAccesses
  split
  case isTrue hfull =>
    split
    case h_1 => exact fun access h => absurd h not_mem_nil
    case h_2 size hsize =>
      have hgrown := growDepexStack_eq hsize
      rw [depexStackSizeIncrement] at hgrown
      simp only [mem_cons, not_mem_nil, or_false, forall_eq_or_imp, forall_eq,
        Access.Inside]
      omega
  case isFalse hroom =>
    simp only [mem_cons, not_mem_nil, or_false, forall_eq_or_imp, forall_eq,
      Access.Inside]
    omega

theorem popAccesses_inside
    (hstack : st.stack.length ≤ st.stackSize) :
    ∀ access ∈ popAccesses st, access.Inside depexSize := by
  unfold popAccesses
  split
  case h_1 => exact fun access h => absurd h not_mem_nil
  case h_2 value rest heq =>
    rw [heq, length_cons] at hstack
    simp only [mem_cons, not_mem_nil, or_false, forall_eq_or_imp, forall_eq,
      Access.Inside]
    omega

theorem popBool_popped
    (h : popBool st = some (value, st')) :
    st.stack.length = st'.stack.length + 1 ∧ st'.stackSize = st.stackSize := by
  unfold popBool at h
  split at h
  case h_1 => cases h
  case h_2 top rest heq =>
    cases h
    rw [heq]
    exact ⟨rfl, rfl⟩

theorem popBool_none
    (h : popBool st = none) :
    st.stack.length = 0 := by
  unfold popBool at h
  split at h
  case h_1 heq => rw [heq, length_nil]
  case h_2 => cases h

section

variable (hstack : st.stack.length ≤ st.stackSize)
include hstack

theorem pop_push_inside :
    ∀ access ∈ (match popBool st with
      | none => []
      | some (_, st) => pushAccesses env st), access.Inside depexSize := by
  split
  case h_1 => exact fun access h => absurd h not_mem_nil
  case h_2 value st1 hpop =>
    obtain ⟨hlength, hsize⟩ := popBool_popped hpop
    exact pushAccesses_inside (by omega)

theorem binaryAccesses_inside :
    ∀ access ∈ binaryAccesses env st, access.Inside depexSize := by
  unfold binaryAccesses
  refine forall_mem_append.mpr ⟨popAccesses_inside hstack, ?_⟩
  split
  case h_1 => exact fun access h => absurd h not_mem_nil
  case h_2 value st1 hpop =>
    obtain ⟨hlength, hsize⟩ := popBool_popped hpop
    exact forall_mem_append.mpr
      ⟨popAccesses_inside (by omega), pop_push_inside (by omega)⟩

/-- A turn touches only its objects exactly when its instruction is well formed. -/
theorem turnAccesses_inside_iff :
    (∀ access ∈ turnAccesses env st, access.Inside st.depex.length) ↔
      Wellformed st.depex st.iterator := by
  have hpush := @pushAccesses_inside env st st.depex.length hstack
  have hpop := @popAccesses_inside st st.depex.length hstack
  have hpoppush := @pop_push_inside env st st.depex.length hstack
  have hbinary := @binaryAccesses_inside env st st.depex.length hstack
  have hpointer : (Access.pointer st.stack.length st.stackSize).Inside st.depex.length := hstack
  unfold turnAccesses
  rw [forall_mem_cons]
  by_cases hend : st.depex.length ≤ st.iterator
  · rw [if_pos hend]
    refine iff_of_true ⟨hpointer, fun _ h => absurd h not_mem_nil⟩ ?_
    exact ⟨fun h => absurd h (by omega), fun h => absurd h (by omega), fun h => absurd h (by omega)⟩
  · have hlt : st.iterator < st.depex.length := Nat.lt_of_not_le hend
    have hopcode : (Access.depex st.iterator 1).Inside st.depex.length := hlt
    rw [if_neg hend, forall_mem_cons]
    have hplain : ∀ {op} {accesses : List Access}, operation st.depex st.iterator = op →
        op ≠ some .replaceTrue ∧ op ≠ some .before ∧ op ≠ some .after →
        (∀ access ∈ accesses, access.Inside st.depex.length) →
        ((Access.pointer st.stack.length st.stackSize).Inside st.depex.length ∧
          (Access.depex st.iterator 1).Inside st.depex.length ∧
          (∀ access ∈ accesses, access.Inside st.depex.length) ↔
            Wellformed st.depex st.iterator) :=
      fun hoperation hop hinside => iff_of_true ⟨hpointer, hopcode, hinside⟩
        (.of_plain hoperation hop.1 hop.2.1 hop.2.2)
    cases hop : Opcode.read (st.depex.getD st.iterator 0) with
    | none =>
        have hoperation : operation st.depex st.iterator = none := by rw [operation, hop]
        exact hplain hoperation (by decide) fun _ h => absurd h not_mem_nil
    | some op =>
        have hoperation : operation st.depex st.iterator =
            match some op with
            | some .push => some .replaceTrue
            | op => op := by rw [operation, hop]
        cases op with
        | before =>
            exact iff_of_false (fun h => h.2.2 _ mem_cons_self)
              fun h => h.notBefore hlt hoperation
        | after =>
            exact iff_of_false (fun h => h.2.2 _ mem_cons_self)
              fun h => h.notAfter hlt hoperation
        | push =>
            rw [wellformed_operand hlt hoperation, forall_mem_cons]
            have hrest : ∀ access ∈ (if env.installed (driverGuid st) then
                Access.depex st.iterator 1 :: pushAccesses env st else pushAccesses env st),
                access.Inside st.depex.length := by
              split
              case isTrue => exact forall_mem_cons.mpr ⟨hopcode, hpush⟩
              case isFalse => exact hpush
            exact ⟨fun h => h.2.2.1, fun h => ⟨hpointer, hopcode, h, hrest⟩⟩
        | replaceTrue =>
            rw [wellformed_operand hlt hoperation, forall_mem_cons]
            exact ⟨fun h => h.2.2.1, fun h => ⟨hpointer, hopcode, h, hpush⟩⟩
        | and | or => exact hplain hoperation (by decide) hbinary
        | not => exact hplain hoperation (by decide) (forall_mem_append.mpr ⟨hpop, hpoppush⟩)
        | true | false => exact hplain hoperation (by decide) hpush
        | «end» => exact hplain hoperation (by decide) hpop
        | sor => exact hplain hoperation (by decide) fun _ h => absurd h not_mem_nil

theorem binaryTurn_popped
    {f : Bool → Bool → Bool}
    (h : binaryTurn env st f = .next st') :
    2 ≤ st.stack.length ∧ st'.stack.length = st.stack.length - 1 ∧
      st'.stack.length ≤ st'.stackSize := by
  unfold binaryTurn at h
  split at h
  case h_1 => cases h
  case h_2 operator st1 hpop =>
    split at h
    case h_1 => cases h
    case h_2 operator2 st2 hpop' =>
      obtain ⟨hlength, hsize⟩ := popBool_popped hpop
      obtain ⟨hlength', hsize'⟩ := popBool_popped hpop'
      obtain ⟨hpushed, hfits⟩ := pushTurn_pushed (by omega) h
      exact ⟨by omega, by omega, hfits⟩

end

theorem binaryTurn_granted
    (hall : ∀ size, env.allocatePool size = true)
    (hentries : 2 ≤ st.stack.length) :
    ∃ st', binaryTurn env st f = .next st' := by
  unfold binaryTurn
  split
  case h_1 hpop =>
    have hempty := popBool_none hpop
    omega
  case h_2 operator st1 hpop =>
    have hlength := (popBool_popped hpop).1
    split
    case h_1 hpop' =>
      have hempty := popBool_none hpop'
      omega
    case h_2 operator2 st2 _ => exact pushTurn_granted hall

/-- What a turn that goes on does to the instructions, the stack and the place. -/
structure Moved (st st' : DepexState) : Prop where
  fits : st'.stack.length ≤ st'.stackSize
  same : SameInstructions st'.depex st.depex
  place : nextInstruction st.depex (st.iterator, st.stack.length) =
    some (st'.iterator, st'.stack.length)

theorem moved_push
    {st1 : DepexState} {width entries : Nat}
    (hturn : pushTurn env st1 value width = .next st')
    (hsame : SameInstructions st1.depex st.depex)
    (hiterator : st1.iterator = st.iterator)
    (hstack : st1.stack.length ≤ st1.stackSize)
    (hentries : st1.stack.length = entries)
    (hplace : nextInstruction st.depex (st.iterator, st.stack.length) =
      some (st.iterator + width, entries + 1)) :
    Moved st st' := by
  obtain ⟨hdepex, hnext⟩ := pushTurn_next hturn
  obtain ⟨hpushed, hfits⟩ := pushTurn_pushed hstack hturn
  refine ⟨hfits, ?_, ?_⟩
  · rw [hdepex]
    exact hsame
  · rw [hplace, hnext, hiterator, hpushed, hentries]

theorem moved_of_next
    (hstack : st.stack.length ≤ st.stackSize)
    (h : depexStep env st = .next st') :
    Moved st st' := by
  have hlt := (depexStep_next h).2.2
  unfold depexStep at h
  rw [if_neg (Nat.not_le.mpr hlt)] at h
  have hplace : ∀ {op : Option Opcode} {place : Option (Nat × Nat)},
      operation st.depex st.iterator = op →
      (match op with
        | some .before | some .after | some .sor =>
            if st.iterator ≠ 0 then none else some (1, st.stack.length)
        | some .push | some .replaceTrue => some (st.iterator + 17, st.stack.length + 1)
        | some .and | some .or =>
            if st.stack.length < 2 then none
            else some (st.iterator + 1, st.stack.length - 1)
        | some .not =>
            if st.stack.length < 1 then none else some (st.iterator + 1, st.stack.length)
        | some .true | some .false => some (st.iterator + 1, st.stack.length + 1)
        | some .end | none => none) = place →
      nextInstruction st.depex (st.iterator, st.stack.length) = place := by
    intro op place hop hvalue
    simp only [nextInstruction]
    rw [if_neg (Nat.not_le.mpr hlt), hop]
    exact hvalue
  -- an opcode that may only stand first
  have hstart : nextInstruction st.depex (st.iterator, st.stack.length) =
        (if st.iterator ≠ 0 then none else some (1, st.stack.length)) →
      (if st.iterator ≠ 0 then Turn.result false st
        else .next { st with iterator := st.iterator + 1 }) = .next st' → Moved st st' := by
    intro hnext hturn
    split at hturn
    case isTrue => cases hturn
    case isFalse hfirst =>
      cases hturn
      rw [if_neg hfirst] at hnext
      refine ⟨hstack, .refl _, hnext.trans ?_⟩
      simp only [not_not.mp hfirst]
  cases hop : Opcode.read (st.depex.getD st.iterator 0) with
  | none =>
      rw [hop] at h
      cases h
  | some op =>
      rw [hop] at h
      have hoperation : operation st.depex st.iterator =
          match some op with
          | some .push => some .replaceTrue
          | op => op := by rw [operation, hop]
      cases op with
      | before | after | sor => exact hstart (hplace hoperation rfl) h
      | push =>
          dsimp only at h
          split at h
          case isTrue =>
            exact moved_push h (sameInstructions_mark hop) rfl hstack rfl (hplace hoperation rfl)
          case isFalse => exact moved_push h (.refl _) rfl hstack rfl (hplace hoperation rfl)
      | and | or =>
          obtain ⟨hdepex, hnext⟩ := binaryTurn_next h
          obtain ⟨htwo, hlength, hfits⟩ := binaryTurn_popped hstack h
          refine ⟨hfits, by rw [hdepex]; exact .refl _, hplace hoperation ?_⟩
          rw [hnext, hlength]
          exact if_neg (by omega)
      | not =>
          dsimp only at h
          split at h
          case h_1 => cases h
          case h_2 operator st1 hpop =>
            obtain ⟨hdepex, hiterator⟩ := popBool_eq hpop
            obtain ⟨hlength, hsize⟩ := popBool_popped hpop
            refine moved_push h (by rw [hdepex]; exact .refl _) hiterator (by omega) rfl
              (hplace hoperation ?_)
            rw [hlength]
            exact if_neg (by omega)
      | true | false
      | replaceTrue => exact moved_push h (.refl _) rfl hstack rfl (hplace hoperation rfl)
      | «end» =>
          dsimp only at h
          split at h
          case h_1 => cases h
          case h_2 => cases h

theorem pushTurn_result
    {result value : Bool}
    (h : pushTurn env st value width = .result result st') :
    st'.depex = st.depex := by
  unfold pushTurn at h
  split at h
  case h_1 =>
    cases h
    rfl
  case h_2 => cases h

theorem binaryTurn_result
    {result : Bool}
    (h : binaryTurn env st f = .result result st') :
    st'.depex = st.depex := by
  unfold binaryTurn at h
  split at h
  case h_1 =>
    cases h
    rfl
  case h_2 operator st1 hpop =>
    have hdepex := (popBool_eq hpop).1
    split at h
    case h_1 =>
      cases h
      exact hdepex
    case h_2 operator2 st2 hpop' =>
      rw [pushTurn_result h, (popBool_eq hpop').1, hdepex]

/-- The last turn leaves the instructions as they are. -/
theorem sameInstructions_of_result
    {result : Bool}
    (h : depexStep env st = .result result st') :
    SameInstructions st'.depex st.depex := by
  have hsame : ∀ {depex : Bytes}, depex = st.depex → SameInstructions depex st.depex := by
    rintro depex rfl
    exact .refl _
  unfold depexStep at h
  split at h
  case isTrue =>
    cases h
    exact .refl _
  case isFalse hmore =>
    have hstart : (if st.iterator ≠ 0 then Turn.result false st
        else .next { st with iterator := st.iterator + 1 }) = .result result st' →
        SameInstructions st'.depex st.depex := by
      intro hturn
      split at hturn
      case isTrue =>
        cases hturn
        exact .refl _
      case isFalse => cases hturn
    cases hop : Opcode.read (st.depex.getD st.iterator 0) with
    | none =>
        rw [hop] at h
        cases h
        exact .refl _
    | some op =>
        rw [hop] at h
        cases op with
        | before | after | sor => exact hstart h
        | push =>
            dsimp only at h
            split at h
            case isTrue =>
              rw [pushTurn_result h]
              exact sameInstructions_mark hop
            case isFalse => exact hsame (pushTurn_result h)
        | and | or => exact hsame (binaryTurn_result h)
        | not =>
            dsimp only at h
            split at h
            case h_1 =>
              cases h
              exact .refl _
            case h_2 operator st1 hpop =>
              exact hsame ((pushTurn_result h).trans (popBool_eq hpop).1)
        | true | false | replaceTrue => exact hsame (pushTurn_result h)
        | «end» =>
            dsimp only at h
            split at h
            case h_1 =>
              cases h
              exact .refl _
            case h_2 operator st1 hpop =>
              cases h
              exact hsame (popBool_eq hpop).1

/-- With pool at hand an evaluation goes on as long as the instructions do. -/
theorem depexStep_granted
    {place : Nat × Nat}
    (hall : ∀ size, env.allocatePool size = true)
    (h : nextInstruction st.depex (st.iterator, st.stack.length) = some place) :
    ∃ st', depexStep env st = .next st' := by
  simp only [nextInstruction] at h
  split at h
  case isTrue => cases h
  case isFalse hmore =>
    unfold depexStep
    rw [if_neg hmore]
    unfold operation at h
    have hstart : (if st.iterator ≠ 0 then none else some (1, st.stack.length)) = some place →
        ∃ st', (if st.iterator ≠ 0 then Turn.result false st
          else .next { st with iterator := st.iterator + 1 }) = .next st' := by
      intro hnext
      split at hnext
      case isTrue => cases hnext
      case isFalse hfirst => exact ⟨_, if_neg hfirst⟩
    have hbinary : ∀ f, (if st.stack.length < 2 then none
        else some (st.iterator + 1, st.stack.length - 1)) = some place →
        ∃ st', binaryTurn env st f = .next st' := by
      intro f hnext
      split at hnext
      case isTrue => cases hnext
      case isFalse htwo => exact binaryTurn_granted hall (Nat.le_of_not_lt htwo)
    cases hop : Opcode.read (st.depex.getD st.iterator 0) with
    | none =>
        rw [hop] at h
        cases h
    | some op =>
        rw [hop] at h
        cases op with
        | before | after | sor => exact hstart h
        | push =>
            dsimp only
            split
            case isTrue | isFalse => exact pushTurn_granted hall
        | and | or => exact hbinary _ h
        | not =>
            dsimp only at h ⊢
            split at h
            case isTrue => cases h
            case isFalse hone =>
              split
              case h_1 hpop => exact absurd (popBool_none hpop) (by omega)
              case h_2 => exact pushTurn_granted hall
        | true | false | replaceTrue => exact pushTurn_granted hall
        | «end» => cases h

end Turns

section Evaluations

variable {env : DepexEnvironment} {st st' : DepexState}

theorem nextState_eq_some :
    nextState env st = some st' ↔ depexStep env st = .next st' := by
  unfold nextState
  cases depexStep env st with
  | next st1 => simp only [Option.some.injEq, Turn.next.injEq]
  | result value st1 => simp only [reduceCtorEq]

/-- The accesses of an evaluation are those of the turns it comes to. -/
theorem mem_depexAccesses
    {access : Access} :
    access ∈ depexAccesses env st ↔
      ∃ st', WalksTo (nextState env) st st' ∧ access ∈ turnAccesses env st' := by
  induction st using depexAccesses.induct env with
  | case1 st ih =>
      rw [depexAccesses, mem_append]
      cases hstep : depexStep env st with
      | result value st1 =>
          have hlast : nextState env st = none := by rw [nextState, hstep]
          constructor
          case mp =>
            rintro (hmem | hmem)
            · exact ⟨st, Relation.ReflTransGen.refl, hmem⟩
            · exact absurd hmem not_mem_nil
          case mpr =>
            rintro ⟨st', hto, hmem⟩
            rcases Relation.ReflTransGen.cases_head hto with rfl | ⟨st2, hnext, -⟩
            · exact Or.inl hmem
            · rw [hlast] at hnext
              cases hnext
      | next st1 =>
          have hnext : nextState env st = some st1 := nextState_eq_some.mpr hstep
          constructor
          case mp =>
            rintro (hmem | hmem)
            · exact ⟨st, Relation.ReflTransGen.refl, hmem⟩
            · obtain ⟨st', hto, hmem⟩ := (ih st1 hstep).mp hmem
              exact ⟨st', Relation.ReflTransGen.head hnext hto, hmem⟩
          case mpr =>
            rintro ⟨st', hto, hmem⟩
            rcases Relation.ReflTransGen.cases_head hto with rfl | ⟨st2, hnext', hto⟩
            · exact Or.inl hmem
            · rw [hnext] at hnext'
              obtain rfl := Option.some_inj.mp hnext'
              exact Or.inr ((ih st1 hstep).mpr ⟨st', hto, hmem⟩)

theorem follows_instructions
    (hstack : st.stack.length ≤ st.stackSize)
    (hto : WalksTo (nextState env) st st') :
    st'.stack.length ≤ st'.stackSize ∧ SameInstructions st'.depex st.depex ∧
      WalksTo (nextInstruction st.depex) (st.iterator, st.stack.length)
        (st'.iterator, st'.stack.length) := by
  induction hto with
  | refl => exact ⟨hstack, .refl _, Relation.ReflTransGen.refl⟩
  | tail _ hnext ih =>
      obtain ⟨hfits, hsame, hwalk⟩ := ih
      have hmoved := moved_of_next hfits (nextState_eq_some.mp hnext)
      refine ⟨hmoved.fits, hmoved.same.trans hsame, Relation.ReflTransGen.tail hwalk ?_⟩
      rw [← hsame.nextInstruction]
      exact hmoved.place

theorem reaches_instruction
    {place : Nat × Nat}
    (hall : ∀ size, env.allocatePool size = true)
    (hstack : st.stack.length ≤ st.stackSize)
    (hto : WalksTo (nextInstruction st.depex) (st.iterator, st.stack.length) place) :
    ∃ st', WalksTo (nextState env) st st' ∧ (st'.iterator, st'.stack.length) = place := by
  induction hto with
  | refl => exact ⟨st, Relation.ReflTransGen.refl, rfl⟩
  | tail _ hnext ih =>
      obtain ⟨st1, hwalk, rfl⟩ := ih
      obtain ⟨hfits, hsame, -⟩ := follows_instructions hstack hwalk
      rw [← hsame.nextInstruction] at hnext
      obtain ⟨st2, hstep⟩ := depexStep_granted hall hnext
      refine ⟨st2, Relation.ReflTransGen.tail hwalk (nextState_eq_some.mpr hstep), ?_⟩
      exact Option.some_inj.mp ((moved_of_next hfits hstep).place.symm.trans hnext)

theorem depexAccesses_inside
    (hstack : st.stack.length ≤ st.stackSize)
    (hwell : ∀ place, WalksTo (nextInstruction st.depex) (st.iterator, st.stack.length) place →
      Wellformed st.depex place.1) :
    ∀ access ∈ depexAccesses env st, access.Inside st.depex.length := by
  intro access hmem
  obtain ⟨st', hto, hmem⟩ := mem_depexAccesses.mp hmem
  obtain ⟨hfits, hsame, hwalk⟩ := follows_instructions hstack hto
  rw [← hsame.length]
  exact (turnAccesses_inside_iff hfits).mpr (hsame.wellformed.mpr (hwell _ hwalk)) access hmem

theorem wellformed_of_accesses
    (hall : ∀ size, env.allocatePool size = true)
    (hstack : st.stack.length ≤ st.stackSize)
    (hinside : ∀ access ∈ depexAccesses env st, access.Inside st.depex.length) :
    ∀ place, WalksTo (nextInstruction st.depex) (st.iterator, st.stack.length) place →
      Wellformed st.depex place.1 := by
  intro place hplace
  obtain ⟨st', hto, rfl⟩ := reaches_instruction hall hstack hplace
  obtain ⟨hfits, hsame, -⟩ := follows_instructions hstack hto
  refine hsame.wellformed.mp ((@turnAccesses_inside_iff env st' hfits).mp fun access hmem => ?_)
  rw [hsame.length]
  exact hinside access (mem_depexAccesses.mpr ⟨st', hto, hmem⟩)

theorem depexLoop_sameInstructions
    (hstack : st.stack.length ≤ st.stackSize) :
    SameInstructions (depexLoop env st).2.depex st.depex := by
  induction st using depexLoop.induct env with
  | case1 st value st1 hstep =>
      rw [depexLoop_result hstep]
      exact sameInstructions_of_result hstep
  | case2 st st1 hstep ih =>
      have hmoved := moved_of_next hstack hstep
      rw [depexLoop_next hstep]
      exact (ih hmoved.fits).trans hmoved.same

end Evaluations

section Safety

/-- `EFI_DEP_BEFORE` or `EFI_DEP_AFTER`. -/
def isBeforeOrAfter (opcode : UInt8) : Bool :=
  opcode == Opcode.before.byte || opcode == Opcode.after.byte

/-- An entry with this expression as it has been read from its file. -/
def withDepex (entry : EfiCoreDriverEntry) (depex : Bytes) : EfiCoreDriverEntry :=
  { entry with depex := some depex, before := false, after := false }

/-- `CorePreProcessDepex` and then, after any number of earlier ones, every evaluation of an entry
with this expression touches only its objects, whatever protocols and pool there are. -/
def DepexSafe (depex : Bytes) : Prop :=
  ∀ entry : EfiCoreDriverEntry,
    (∀ access ∈ preProcessAccesses (withDepex entry depex), access.Inside depex.length) ∧
    ∃ processed, corePreProcessDepex (withDepex entry depex) = some processed ∧
      ∀ (history : List (DepexEnvironment × Nat)) (env : DepexEnvironment) (stackSize : Nat),
        ∀ access ∈ schedulableAccesses env (afterEvaluations history processed) stackSize,
          access.Inside depex.length

/-- An expression that starts with `BEFORE` or `AFTER` has room for a GUID; in another one every
instruction that an evaluation comes to is well formed. -/
def OperandsInside (depex : Bytes) : Prop :=
  if isBeforeOrAfter (depex.getD 0 0) then 17 ≤ depex.length
  else ∀ place, WalksTo (nextInstruction depex) (0, 0) place → Wellformed depex place.1

/-- An entry that waits for another driver is never evaluated, any other one keeps its
instructions. -/
structure Evaluable (depex : Bytes) (waits : Bool) (entry : EfiCoreDriverEntry) : Prop where
  flags : (entry.after || entry.before) = waits
  depex : waits = false → ∃ marked, entry.depex = some marked ∧ SameInstructions marked depex

variable {entry : EfiCoreDriverEntry} {env : DepexEnvironment} {stackSize : Nat}
variable {depex operand : Bytes} {opcode : UInt8} {waits : Bool}

theorem corePreProcessDepex_withDepex
    (entry : EfiCoreDriverEntry) (opcode : UInt8) (operand : Bytes) :
    ∃ processed, corePreProcessDepex (withDepex entry (opcode :: operand)) = some processed ∧
      (processed.after || processed.before) = isBeforeOrAfter opcode ∧
      processed.depex = some (opcode :: operand) := by
  unfold corePreProcessDepex withDepex isBeforeOrAfter
  dsimp only
  cases hbefore : opcode == Opcode.before.byte with
  | true => exact ⟨_, rfl, rfl, rfl⟩
  | false =>
      cases hafter : opcode == Opcode.after.byte with
      | true | false => exact ⟨_, rfl, rfl, rfl⟩

theorem Evaluable.coreIsSchedulable
    (h : Evaluable depex waits entry) :
    Evaluable depex waits (coreIsSchedulable env entry stackSize).2.1 := by
  unfold Dispatcher.coreIsSchedulable
  split
  case isTrue => exact h
  case isFalse hnot =>
    have hwaits : waits = false := by
      rw [← h.flags]
      exact Bool.eq_false_iff.mpr hnot
    obtain ⟨marked, hmarked, hsame⟩ := h.depex hwaits
    rw [hmarked]
    refine ⟨h.flags, fun _ => ⟨_, rfl, ?_⟩⟩
    exact (depexLoop_sameInstructions (Nat.zero_le _)).trans hsame

theorem Evaluable.afterEvaluations
    (history : List (DepexEnvironment × Nat))
    (h : Evaluable depex waits entry) :
    Evaluable depex waits (afterEvaluations history entry) := by
  unfold Dispatcher.afterEvaluations
  induction history generalizing entry with
  | nil => exact h
  | cons evaluation _ ih => exact ih h.coreIsSchedulable

/-- The evaluator touches only its objects exactly for the expressions whose operands are there. -/
theorem depexSafe_iff
    (opcode : UInt8) (operand : Bytes) :
    DepexSafe (opcode :: operand) ↔ OperandsInside (opcode :: operand) := by
  have hpre : ∀ entry, preProcessAccesses (withDepex entry (opcode :: operand)) =
      if isBeforeOrAfter opcode then [.depex 0 1, .depex 1 16] else [.depex 0 1] := by
    intro entry
    obtain ⟨processed, hprocessed, hflags, -⟩ := corePreProcessDepex_withDepex entry opcode operand
    rw [preProcessAccesses, hprocessed, ← hflags, Bool.or_comm processed.after]
  have hfirst : (Access.depex 0 1).Inside (opcode :: operand).length :=
    Nat.succ_le_succ (Nat.zero_le _)
  unfold OperandsInside
  rw [getD_cons_zero]
  cases hwaits : isBeforeOrAfter opcode with
  | true =>
      rw [if_pos rfl]
      constructor
      case mp =>
        intro hsafe
        have hinside := (hsafe sampleEntry).1
        rw [hpre, hwaits] at hinside
        have hguid := hinside (.depex 1 16) (mem_cons_of_mem _ mem_cons_self)
        simp only [Access.Inside] at hguid
        omega
      case mpr =>
        intro hlength entry
        obtain ⟨processed, hprocessed, hflags, hdepex⟩ :=
          corePreProcessDepex_withDepex entry opcode operand
        rw [hwaits] at hflags
        refine ⟨?_, processed, hprocessed, fun history env stackSize => ?_⟩
        · rw [hpre, hwaits]
          refine forall_mem_cons.mpr ⟨hfirst, ?_⟩
          rw [forall_mem_singleton]
          simp only [Access.Inside]
          omega
        · have hnever : Evaluable (opcode :: operand) true processed :=
            ⟨hflags, fun h => Bool.noConfusion h⟩
          rw [schedulableAccesses, (hnever.afterEvaluations history).flags, if_pos rfl]
          exact fun _ h => absurd h not_mem_nil
  | false =>
      rw [if_neg Bool.false_ne_true]
      constructor
      case mp =>
        intro hsafe
        obtain ⟨-, processed, hprocessed, hevery⟩ := hsafe sampleEntry
        obtain ⟨processed', hprocessed', hflags, hdepex⟩ :=
          corePreProcessDepex_withDepex sampleEntry opcode operand
        obtain rfl := Option.some_inj.mp (hprocessed'.symm.trans hprocessed)
        -- an evaluation for which there is always pool
        have hone := hevery [] ⟨fun _ => false, fun _ => true, true⟩ 0
        rw [hwaits] at hflags
        rw [schedulableAccesses, Dispatcher.afterEvaluations, foldl_nil, hflags,
          hdepex] at hone
        exact wellformed_of_accesses (fun _ => rfl) (Nat.zero_le _) hone
      case mpr =>
        intro hwell entry
        obtain ⟨processed, hprocessed, hflags, hdepex⟩ :=
          corePreProcessDepex_withDepex entry opcode operand
        rw [hwaits] at hflags
        refine ⟨?_, processed, hprocessed, fun history env stackSize => ?_⟩
        · rw [hpre, hwaits]
          exact forall_mem_singleton.mpr hfirst
        · have hlater : Evaluable (opcode :: operand) false
              (Dispatcher.afterEvaluations history processed) :=
            Evaluable.afterEvaluations history ⟨hflags, fun _ => ⟨_, hdepex, .refl _⟩⟩
          obtain ⟨marked, hmarked, hsame⟩ := hlater.depex rfl
          rw [schedulableAccesses, hlater.flags, if_neg Bool.false_ne_true, hmarked,
            ← hsame.length]
          refine depexAccesses_inside (Nat.zero_le _) fun place hplace => ?_
          have hnext : nextInstruction marked = nextInstruction (opcode :: operand) :=
            funext hsame.nextInstruction
          simp only [length_nil, hnext] at hplace
          exact hsame.wellformed.mpr (hwell place hplace)

/-- A `PUSH` without its GUID. -/
theorem depexSafe_pushAlone :
    ¬ DepexSafe [Opcode.push.byte] := by
  intro hsafe
  obtain ⟨-, processed, hprocessed, hevery⟩ := hsafe sampleEntry
  obtain rfl := Option.some_inj.mp hprocessed
  have hread := hevery [] ⟨fun _ => false, fun _ => true, true⟩ 0 (.depex 1 16)
    (mem_depexAccesses.mpr ⟨_, Relation.ReflTransGen.refl, by decide⟩)
  have hend : 1 + 16 ≤ 1 := hread
  omega

end Safety

end Dispatcher
end Udk
