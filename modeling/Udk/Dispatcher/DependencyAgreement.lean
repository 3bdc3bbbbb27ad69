import Udk.Dispatcher.Dependency
import Udk.Dispatcher.PeiDependency

/-!
# The dependency evaluators agree with the grammar

A well-formed expression is the postfix code of a formula over GUIDs, ended by `END`.
Both evaluators compute the value of the formula.  `CoreIsSchedulable` rewrites the
expression while it evaluates: the marks say which `PUSH` opcodes have been replaced.
-/

namespace Udk
namespace Dispatcher

open Variable Postfix List

/-- Bytes of the instruction for a token. -/
def tokenWidth {α : Type*} : Token α → Nat
  | .operand _ => 17
  | _ => 1

/-- Bytes of the code of some tokens. -/
def codeWidth {α : Type*} (ts : List (Token α)) : Nat :=
  (ts.map tokenWidth).sum

/-- The operands with the offsets of their instructions, from an offset on. -/
def located : Nat → Formula Guid → Formula (Nat × Guid)
  | offset, .operand g => .operand (offset, g)
  | _, .tru => .tru
  | _, .fls => .fls
  | offset, .not e => .not (located offset e)
  | offset, .and e f => .and (located offset e) (located (offset + codeWidth e.tokens) f)
  | offset, .or e f => .or (located offset e) (located (offset + codeWidth e.tokens) f)

/-- The instruction for a token; a `PUSH` at a marked offset has been replaced. -/
def instruction (marks : Nat → Bool) : Token (Nat × Guid) → Bytes
  | .operand (offset, g) =>
      (if marks offset then Opcode.replaceTrue else Opcode.push).byte :: g.bytes
  | .tru => [Opcode.true.byte]
  | .fls => [Opcode.false.byte]
  | .not => [Opcode.not.byte]
  | .and => [Opcode.and.byte]
  | .or => [Opcode.or.byte]

/-- The code of some tokens. -/
def code (marks : Nat → Bool) (ts : List (Token (Nat × Guid))) : Bytes :=
  ts.flatMap (instruction marks)

/-- The dependency expression of a formula. -/
def dependencyExpression (e : Formula Guid) : Bytes :=
  code (fun _ => false) (located 0 e).tokens ++ [Opcode.end.byte]

section Layout

/-- The operands stand at their offsets when the code starts at an offset. -/
def Placed : Nat → List (Token (Nat × Guid)) → Prop
  | _, [] => True
  | offset, t :: ts =>
      (∀ p g, t = .operand (p, g) → p = offset) ∧ Placed (offset + tokenWidth t) ts

variable {marks marks' : Nat → Bool} {offset : Nat} {t : Token (Nat × Guid)}
variable {ts ts' : List (Token (Nat × Guid))}

@[simp] theorem codeWidth_cons
    {α : Type*} (t : Token α) (ts : List (Token α)) :
    codeWidth (t :: ts) = tokenWidth t + codeWidth ts := rfl

@[simp] theorem codeWidth_append
    {α : Type*} (ts ts' : List (Token α)) :
    codeWidth (ts ++ ts') = codeWidth ts + codeWidth ts' := by
  simp [codeWidth]

theorem placed_append :
    Placed offset (ts ++ ts') ↔ Placed offset ts ∧ Placed (offset + codeWidth ts) ts' := by
  induction ts generalizing offset with
  | nil => simp [Placed, codeWidth]
  | cons t ts ih =>
      simp only [cons_append, Placed, ih, codeWidth_cons, and_assoc, Nat.add_assoc]

@[simp] theorem codeWidth_located
    (offset : Nat) (e : Formula Guid) :
    codeWidth (located offset e).tokens = codeWidth e.tokens := by
  induction e generalizing offset with
  | operand g => rfl
  | tru => rfl
  | fls => rfl
  | not e ih =>
      simp only [located, Formula.tokens, codeWidth_append, ih]
      rfl
  | and e f ihe ihf | or e f ihe ihf =>
      simp only [located, Formula.tokens, codeWidth_append, ihe, ihf]
      rfl

theorem placed_located
    (offset : Nat) (e : Formula Guid) :
    Placed offset (located offset e).tokens := by
  induction e generalizing offset with
  | operand g =>
      refine ⟨fun p g' h => ?_, trivial⟩
      cases h
      rfl
  | tru | fls => exact ⟨by simp, trivial⟩
  | not e ih =>
      rw [located, Formula.tokens, placed_append]
      exact ⟨ih offset, by simp, trivial⟩
  | and e f ihe ihf | or e f ihe ihf =>
      rw [located, Formula.tokens, placed_append, placed_append, codeWidth_located]
      exact ⟨⟨ihe offset, ihf _⟩, by simp, trivial⟩

theorem Placed.bounds
    {p : Nat} {g : Guid} (h : Placed offset ts) (hmem : .operand (p, g) ∈ ts) :
    offset ≤ p ∧ p < offset + codeWidth ts := by
  induction ts generalizing offset with
  | nil => cases hmem
  | cons t ts ih =>
      rw [codeWidth_cons]
      rcases mem_cons.mp hmem with rfl | hmem
      · rw [h.1 p g rfl]
        simp only [tokenWidth]
        omega
      · have hrest := ih h.2 hmem
        omega

@[simp] theorem instruction_length
    (marks : Nat → Bool) (t : Token (Nat × Guid)) :
    (instruction marks t).length = tokenWidth t := by
  cases t with
  | operand a => simp [instruction, tokenWidth, a.2.length_eq]
  | _ => rfl

@[simp] theorem code_length
    (marks : Nat → Bool) (ts : List (Token (Nat × Guid))) :
    (code marks ts).length = codeWidth ts := by
  induction ts with
  | nil => rfl
  | cons t ts ih =>
      rw [code, flatMap_cons, length_append, instruction_length, codeWidth_cons, ← ih]
      rfl

theorem code_append
    (marks : Nat → Bool) (ts ts' : List (Token (Nat × Guid))) :
    code marks (ts ++ ts') = code marks ts ++ code marks ts' := by
  simp [code]

theorem code_cons
    (marks : Nat → Bool) (t : Token (Nat × Guid)) (ts : List (Token (Nat × Guid))) :
    code marks (t :: ts) = instruction marks t ++ code marks ts := rfl

theorem code_congr
    (h : ∀ p g, .operand (p, g) ∈ ts → marks p = marks' p) :
    code marks ts = code marks' ts := by
  induction ts with
  | nil => rfl
  | cons t ts ih =>
      have hrest : code marks ts = code marks' ts :=
        ih (fun p g hmem => h p g (mem_cons_of_mem _ hmem))
      have hhead : instruction marks t = instruction marks' t := by
        cases t with
        | operand a => simp only [instruction, h a.1 a.2 mem_cons_self]
        | _ => rfl
      rw [code_cons, code_cons, hhead, hrest]

end Layout

section DxeEvaluation

variable (env : DepexEnvironment) (marks : Nat → Bool)

/-- The value of an operand during an evaluation. -/
def operandValue (a : Nat × Guid) : Bool :=
  marks a.1 || env.installed a.2

/-- The marks after the instruction for a token. -/
def markToken : Token (Nat × Guid) → Nat → Bool
  | .operand a => Function.update marks a.1 (operandValue env marks a)
  | _ => marks

/-- The loop gets to an offset. -/
def Reaches (st : DepexState) (p : Nat) : Prop :=
  ∃ st', Relation.ReflTransGen (fun a b => depexStep env a = .next b) st st' ∧ st'.iterator = p

variable {env marks} {st : DepexState} {t : Token (Nat × Guid)}
variable {done todo : List (Token (Nat × Guid))} {tail : Bytes} {stack' : List Bool}

theorem reaches_of_next
    {st' : DepexState} {p : Nat} (h : depexStep env st = .next st') (hp : st.iterator ≠ p) :
    Reaches env st p ↔ Reaches env st' p := by
  constructor
  · rintro ⟨st'', hsteps, hiterator⟩
    rcases Relation.ReflTransGen.cases_head hsteps with rfl | ⟨st1, hstep, hsteps⟩
    · exact absurd hiterator hp
    · rw [h] at hstep
      cases hstep
      exact ⟨st'', hsteps, hiterator⟩
  · rintro ⟨st'', hsteps, hiterator⟩
    exact ⟨st'', hsteps.head h, hiterator⟩

theorem not_reaches_of_result
    {st' : DepexState} {value : Bool} {p : Nat} (h : depexStep env st = .result value st')
    (hp : st.iterator ≠ p) :
    ¬Reaches env st p := by
  rintro ⟨st'', hsteps, hiterator⟩
  rcases Relation.ReflTransGen.cases_head hsteps with rfl | ⟨st1, hstep, -⟩
  · exact hp hiterator
  · rw [h] at hstep
    cases hstep

theorem pushTurn_cases
    (env : DepexEnvironment) (st : DepexState) (value : Bool) (width : Nat) :
    (∃ size, pushTurn env st value width =
      .next { st with iterator := st.iterator + width, stack := value :: st.stack,
                      stackSize := size }) ∨
      (pushTurn env st value width = .result false st ∧ ∃ size, env.allocatePool size = false) := by
  unfold pushTurn pushBool growDepexStack
  by_cases hfull : st.stack.length = st.stackSize
  · rw [if_pos hfull]
    cases halloc : env.allocatePool (depexStackSizeIncrement + st.stackSize) with
    | true => exact Or.inl ⟨depexStackSizeIncrement + st.stackSize, by simp [halloc]⟩
    | false => exact Or.inr ⟨by simp [halloc], _, halloc⟩
  · rw [if_neg hfull]
    exact Or.inl ⟨st.stackSize, rfl⟩

theorem code_mark
    {p : Nat} {g : Guid} (hplaced : Placed 0 (done ++ .operand (p, g) :: todo)) :
    (code marks (done ++ .operand (p, g) :: todo)).set p Opcode.replaceTrue.byte =
      code (Function.update marks p true) (done ++ .operand (p, g) :: todo) := by
  obtain ⟨hdone, hp, htodo⟩ := placed_append.mp hplaced
  have hp' : p = codeWidth done := by
    rw [hp p g rfl]
    exact Nat.zero_add _
  have hfront : code (Function.update marks p true) done = code marks done := by
    refine code_congr (fun q g' hmem => Function.update_of_ne ?_ _ _)
    have hbounds := hdone.bounds hmem
    omega
  have hback : code (Function.update marks p true) todo = code marks todo := by
    refine code_congr (fun q g' hmem => Function.update_of_ne ?_ _ _)
    have hbounds := htodo.bounds hmem
    simp only [tokenWidth] at hbounds
    omega
  rw [code_append, code_cons, code_append, code_cons, hfront, hback, set_append_right _ _
    (by rw [code_length, hp'])]
  simp [instruction, hp']

/-- A state in front of the instruction for the first token to do. -/
structure InFront (marks : Nat → Bool) (done todo : List (Token (Nat × Guid))) (tail : Bytes)
    (st : DepexState) : Prop where
  depex : st.depex = code marks (done ++ todo) ++ tail
  iterator : st.iterator = codeWidth done

theorem InFront.byte
    {opcode : UInt8} {rest : Bytes} (h : InFront marks done todo tail st)
    (hrest : code marks todo ++ tail = opcode :: rest) :
    st.iterator < st.depex.length ∧ st.depex.getD st.iterator 0 = opcode ∧
      st.depex.drop (st.iterator + 1) = rest := by
  have hdepex : st.depex = code marks done ++ (opcode :: rest) := by
    rw [h.depex, code_append, append_assoc, hrest]
  have hiterator : st.iterator = (code marks done).length := by
    rw [h.iterator, code_length]
  refine ⟨?_, ?_, ?_⟩
  · rw [hdepex, hiterator, length_append, length_cons]
    omega
  · rw [hdepex, hiterator, getD_eq_getElem?_getD,
      getElem?_append_right (Nat.le_refl _), Nat.sub_self]
    rfl
  · rw [hdepex, hiterator, ← drop_drop, drop_left]
    rfl

theorem InFront.opcode
    {opcode : UInt8} {operand : Bytes} (h : InFront marks done (t :: todo) tail st)
    (ht : instruction marks t = opcode :: operand) :
    st.iterator < st.depex.length ∧ st.depex.getD st.iterator 0 = opcode ∧
      st.depex.drop (st.iterator + 1) = operand ++ (code marks todo ++ tail) :=
  h.byte (by rw [code_cons, ht, append_assoc, cons_append])

/-- One instruction: it marks its operand, and replaces its operands on the stack unless the
stack cannot grow. -/
theorem depexStep_token
    (hfront : InFront marks done (t :: todo) tail st)
    (hplaced : Placed 0 (done ++ t :: todo))
    (happly : t.apply (operandValue env marks) st.stack = some stack') :
    ∃ st', st'.depex = code (markToken env marks t) (done ++ t :: todo) ++ tail ∧
      ((depexStep env st = .next st' ∧ st'.iterator = codeWidth (done ++ [t]) ∧
          st'.stack = stack') ∨
        (depexStep env st = .result false st' ∧ ∃ size, env.allocatePool size = false)) := by
  have hwidth : st.iterator + tokenWidth t = codeWidth (done ++ [t]) := by
    rw [hfront.iterator, codeWidth_append, codeWidth_cons]
    rfl
  -- Every instruction ends with a push on a state whose stack has lost the operands.
  have hpush : ∀ st1 value width, st1.depex = code (markToken env marks t) (done ++ t :: todo) ++ tail →
      st1.iterator = st.iterator → width = tokenWidth t → value :: st1.stack = stack' →
      depexStep env st = pushTurn env st1 value width →
      ∃ st', st'.depex = code (markToken env marks t) (done ++ t :: todo) ++ tail ∧
        ((depexStep env st = .next st' ∧ st'.iterator = codeWidth (done ++ [t]) ∧
            st'.stack = stack') ∨
          (depexStep env st = .result false st' ∧ ∃ size, env.allocatePool size = false)) := by
    intro st1 value width hdepex hiterator hw hstack hstep
    rw [hstep]
    rcases pushTurn_cases env st1 value width with ⟨size, hnext⟩ | ⟨hresult, halloc⟩
    · refine ⟨{ st1 with iterator := st1.iterator + width, stack := value :: st1.stack,
                         stackSize := size }, hdepex, Or.inl ⟨hnext, ?_, hstack⟩⟩
      rw [← hwidth, ← hiterator, ← hw]
    · exact ⟨st1, hdepex, Or.inr ⟨hresult, halloc⟩⟩
  cases t with
  | operand a =>
      obtain ⟨p, g⟩ := a
      obtain ⟨hlt, hopcode, hdrop⟩ := hfront.opcode rfl
      have hguid : driverGuid st = g := by
        rw [driverGuid, hdrop, Guid.read_append]
      have hp : p = st.iterator := by
        have hp := (placed_append.mp hplaced).2.1 p g rfl
        rw [hfront.iterator, hp, Nat.zero_add]
      cases happly
      cases hmark : marks p with
      | true =>
          rw [hmark, if_pos rfl] at hopcode
          refine hpush st true 17 ?_ rfl rfl ?_ ?_
          · rw [hfront.depex, markToken, operandValue, hmark, Bool.true_or, ← hmark,
              Function.update_eq_self]
          · rw [operandValue, hmark, Bool.true_or]
          · simp only [depexStep, if_neg (Nat.not_le_of_lt hlt), hopcode, Opcode.read_byte]
      | false =>
          rw [hmark, if_neg Bool.false_ne_true] at hopcode
          cases hinstalled : env.installed g with
          | true =>
              refine hpush { st with depex := st.depex.set st.iterator Opcode.replaceTrue.byte } true
                17 ?_ rfl rfl ?_ ?_
              · have hset := @code_mark marks done todo p g hplaced
                have hlt' : p < (code marks (done ++ .operand (p, g) :: todo)).length := by
                  rw [code_length, codeWidth_append, codeWidth_cons, hp, hfront.iterator]
                  simp only [tokenWidth]
                  omega
                rw [hfront.depex, ← hp, set_append_left _ _ hlt', hset, markToken,
                  operandValue, hinstalled, Bool.or_true]
              · rw [operandValue, hinstalled, Bool.or_true]
              · simp only [depexStep, if_neg (Nat.not_le_of_lt hlt), hopcode, Opcode.read_byte,
                  hguid, hinstalled, if_true]
          | false =>
              refine hpush st false 17 ?_ rfl rfl ?_ ?_
              · rw [hfront.depex, markToken, operandValue, hinstalled, Bool.or_false,
                  Function.update_eq_self]
              · rw [operandValue, hmark, hinstalled, Bool.false_or]
              · simp only [depexStep, if_neg (Nat.not_le_of_lt hlt), hopcode, Opcode.read_byte,
                  hguid, hinstalled, Bool.false_eq_true, if_false]
  | tru =>
      obtain ⟨hlt, hopcode, -⟩ := hfront.opcode rfl
      cases happly
      refine hpush st true 1 hfront.depex rfl rfl rfl ?_
      simp only [depexStep, if_neg (Nat.not_le_of_lt hlt), hopcode, Opcode.read_byte]
  | fls =>
      obtain ⟨hlt, hopcode, -⟩ := hfront.opcode rfl
      cases happly
      refine hpush st false 1 hfront.depex rfl rfl rfl ?_
      simp only [depexStep, if_neg (Nat.not_le_of_lt hlt), hopcode, Opcode.read_byte]
  | not =>
      obtain ⟨hlt, hopcode, -⟩ := hfront.opcode rfl
      obtain ⟨b, stack, hstack, rfl⟩ := apply_not happly
      refine hpush { st with stack } (!b) 1 hfront.depex rfl rfl rfl ?_
      simp only [depexStep, if_neg (Nat.not_le_of_lt hlt), hopcode, Opcode.read_byte, popBool,
        hstack]
  | and =>
      obtain ⟨hlt, hopcode, -⟩ := hfront.opcode rfl
      obtain ⟨b, c, stack, hstack, rfl⟩ := apply_and happly
      refine hpush { st with stack } (b && c) 1 hfront.depex rfl rfl rfl ?_
      simp only [depexStep, if_neg (Nat.not_le_of_lt hlt), hopcode, Opcode.read_byte, binaryTurn,
        popBool, hstack]
  | or =>
      obtain ⟨hlt, hopcode, -⟩ := hfront.opcode rfl
      obtain ⟨b, c, stack, hstack, rfl⟩ := apply_or happly
      refine hpush { st with stack } (b || c) 1 hfront.depex rfl rfl rfl ?_
      simp only [depexStep, if_neg (Nat.not_le_of_lt hlt), hopcode, Opcode.read_byte, binaryTurn,
        popBool, hstack]

/-- The end of the loop: the marks have grown by the installed operands that the loop got to,
and the value is the one the tokens leave, unless the stack could not grow. -/
theorem depexLoop_tokens
    {value : Bool} {trailing : Bytes}
    (hfront : InFront marks done todo (Opcode.end.byte :: trailing) st)
    (hplaced : Placed 0 (done ++ todo))
    (hrun : run (operandValue env marks) todo st.stack = some [value]) :
    ∃ marks', (depexLoop env st).2.depex =
        code marks' (done ++ todo) ++ Opcode.end.byte :: trailing ∧
      (∀ p < codeWidth done, marks' p = marks p) ∧
      (∀ p g, .operand (p, g) ∈ todo →
        (marks' p = true ↔ marks p = true ∨ (env.installed g = true ∧ Reaches env st p))) ∧
      ((∀ size, env.allocatePool size = true) → (depexLoop env st).1 = value) := by
  induction todo generalizing done marks st with
  | nil =>
      rw [run_nil, Option.some.injEq] at hrun
      obtain ⟨hlt, hopcode, -⟩ := hfront.byte rfl
      have hstep : depexStep env st = .result value { st with stack := [] } := by
        simp only [depexStep, if_neg (Nat.not_le_of_lt hlt), hopcode, Opcode.read_byte, popBool,
          hrun]
      rw [depexLoop_result hstep]
      exact ⟨marks, hfront.depex, fun _ _ => rfl, fun _ _ hmem => absurd hmem not_mem_nil,
        fun _ => rfl⟩
  | cons t todo ih =>
      obtain ⟨stack', happly, hrun⟩ := Option.bind_eq_some_iff.mp hrun
      obtain ⟨_, ht, htodo⟩ := placed_append.mp hplaced
      rw [Nat.zero_add] at ht htodo
      -- The mark of this token is not among the others.
      have hmarks : ∀ p, p ≠ codeWidth done → markToken env marks t p = marks p := by
        intro p hp
        cases t with
        | operand a => exact Function.update_of_ne (by rw [ht a.1 a.2 rfl]; exact hp) _ _
        | _ => rfl
      have hbelow : ∀ p g, .operand (p, g) ∈ todo → codeWidth done < p := by
        intro p g hmem
        have hbounds := htodo.bounds hmem
        cases t <;> simp only [tokenWidth] at hbounds <;> omega
      have hself : ∀ p g, t = .operand (p, g) →
          (markToken env marks t p = true ↔
            marks p = true ∨ (env.installed g = true ∧ Reaches env st p)) := by
        rintro p g rfl
        have hreaches : Reaches env st p :=
          ⟨st, .refl, by rw [hfront.iterator, ht p g rfl]⟩
        simp [markToken, operandValue, hreaches]
      obtain ⟨st', hdepex, ⟨hstep, hiterator, hstack⟩ | ⟨hstep, halloc⟩⟩ :=
        depexStep_token hfront hplaced happly
      · have happend : done ++ t :: todo = (done ++ [t]) ++ todo := by simp
        have hfront' : InFront (markToken env marks t) (done ++ [t]) todo
            (Opcode.end.byte :: trailing) st' :=
          ⟨by rw [hdepex, happend], hiterator⟩
        have hrun' : run (operandValue env (markToken env marks t)) todo st'.stack =
            some [value] := by
          rw [hstack, ← hrun]
          exact run_congr (fun a hmem => by
            rw [operandValue, operandValue, hmarks a.1 (Nat.ne_of_gt (hbelow a.1 a.2 hmem))])
            stack'
        obtain ⟨marks', hcode, hfixed, hreached, hvalue⟩ :=
          ih hfront' (by rw [← happend]; exact hplaced) hrun'
        rw [depexLoop_next hstep, happend]
        refine ⟨marks', hcode, fun p hp => ?_, fun p g hmem => ?_, hvalue⟩
        · rw [hfixed p (by rw [codeWidth_append]; omega), hmarks p (Nat.ne_of_lt hp)]
        · rcases mem_cons.mp hmem with heq | hmem
          · have hp : p = codeWidth done := ht p g heq.symm
            rw [hfixed p (by
              rw [codeWidth_append, codeWidth_cons, hp, ← heq]
              simp only [tokenWidth]
              omega)]
            exact hself p g heq.symm
          · have hlt := hbelow p g hmem
            rw [hreached p g hmem, hmarks p (Nat.ne_of_gt hlt),
              reaches_of_next hstep (by rw [hfront.iterator]; omega)]
      · rw [depexLoop_result hstep]
        refine ⟨markToken env marks t, hdepex, fun p hp => hmarks p (Nat.ne_of_lt hp),
          fun p g hmem => ?_, fun hall => ?_⟩
        · rcases mem_cons.mp hmem with heq | hmem
          · exact hself p g heq.symm
          · have hlt := hbelow p g hmem
            have hnot : ¬Reaches env st p :=
              not_reaches_of_result hstep (by rw [hfront.iterator]; omega)
            rw [hmarks p (Nat.ne_of_gt hlt)]
            simp [hnot]
        · obtain ⟨size, hsize⟩ := halloc
          rw [hall size] at hsize
          cases hsize

end DxeEvaluation

section History

/-- An entry after a sequence of evaluations, each with the size of the stack it finds. -/
def afterEvaluations (history : List (DepexEnvironment × Nat)) (entry : EfiCoreDriverEntry) :
    EfiCoreDriverEntry :=
  history.foldl (fun entry evaluation =>
    (coreIsSchedulable evaluation.1 entry evaluation.2).2.1) entry

/-- Where the loop of `CoreIsSchedulable` starts. -/
def initialState (entry : EfiCoreDriverEntry) (stackSize : Nat) : DepexState :=
  ⟨entry.depex.getD [], 0, [], stackSize⟩

/-- One of the evaluations got to the `PUSH` at this offset when its GUID was installed. -/
def SeenInstalled (history : List (DepexEnvironment × Nat)) (entry : EfiCoreDriverEntry)
    (a : Nat × Guid) : Prop :=
  ∃ earlier evaluation later, history = earlier ++ evaluation :: later ∧
    evaluation.1.installed a.2 = true ∧
    Reaches evaluation.1 (initialState (afterEvaluations earlier entry) evaluation.2) a.1

/-- The entry has the code of these tokens, with these marks, and neither `Before` nor
`After`. -/
structure HasCode (marks : Nat → Bool) (ts : List (Token (Nat × Guid))) (trailing : Bytes)
    (entry : EfiCoreDriverEntry) : Prop where
  depex : entry.depex = some (code marks ts ++ Opcode.end.byte :: trailing)
  before : entry.before = false
  after : entry.after = false

variable {env : DepexEnvironment} {entry : EfiCoreDriverEntry} {stackSize : Nat}
variable {marks : Nat → Bool} {e : Formula Guid} {trailing : Bytes}

theorem coreIsSchedulable_code
    (h : HasCode marks (located 0 e).tokens trailing entry) :
    (∃ marks', HasCode marks' (located 0 e).tokens trailing
        (coreIsSchedulable env entry stackSize).2.1 ∧
      ∀ p g, .operand (p, g) ∈ (located 0 e).tokens →
        (marks' p = true ↔ marks p = true ∨
          (env.installed g = true ∧ Reaches env (initialState entry stackSize) p))) ∧
      ((∀ size, env.allocatePool size = true) →
        (coreIsSchedulable env entry stackSize).1 =
          (located 0 e).value (operandValue env marks)) := by
  have hinitial : initialState entry stackSize =
      ⟨code marks (located 0 e).tokens ++ Opcode.end.byte :: trailing, 0, [], stackSize⟩ := by
    rw [initialState, h.depex]
    rfl
  have hfront : InFront marks [] (located 0 e).tokens (Opcode.end.byte :: trailing)
      (initialState entry stackSize) := by
    rw [hinitial]
    exact ⟨rfl, rfl⟩
  have hrun := run_tokens (operandValue env marks) (located 0 e) []
  have hstack : (initialState entry stackSize).stack = [] := rfl
  rw [← hstack] at hrun
  obtain ⟨marks', hcode, -, hreached, hvalue⟩ :=
    depexLoop_tokens hfront (placed_located 0 e) hrun
  have hresult : coreIsSchedulable env entry stackSize =
      ((depexLoop env (initialState entry stackSize)).1,
        { entry with depex := some (depexLoop env (initialState entry stackSize)).2.depex },
        (depexLoop env (initialState entry stackSize)).2.stackSize) := by
    rw [hinitial, coreIsSchedulable, h.before, h.after, h.depex]
    rfl
  rw [hresult]
  exact ⟨⟨marks', ⟨congrArg some hcode, h.before, h.after⟩, hreached⟩, hvalue⟩

/-- After a sequence of evaluations the replaced `PUSH` opcodes are those that one of the
evaluations got to when the GUID was installed. -/
theorem afterEvaluations_code
    (history : List (DepexEnvironment × Nat))
    (h : HasCode (fun _ => false) (located 0 e).tokens trailing entry) :
    ∃ marks, HasCode marks (located 0 e).tokens trailing (afterEvaluations history entry) ∧
      ∀ p g, .operand (p, g) ∈ (located 0 e).tokens →
        (marks p = true ↔ SeenInstalled history entry (p, g)) := by
  induction history using List.reverseRecOn with
  | nil =>
      refine ⟨fun _ => false, h, fun p g _ => ?_⟩
      simp [SeenInstalled]
  | append_singleton history evaluation ih =>
      obtain ⟨marks, hcode, hseen⟩ := ih
      obtain ⟨⟨marks', hcode', hreached⟩, -⟩ :=
        @coreIsSchedulable_code evaluation.1 _ evaluation.2 marks e trailing hcode
      have hafter : afterEvaluations (history ++ [evaluation]) entry =
          (coreIsSchedulable evaluation.1 (afterEvaluations history entry) evaluation.2).2.1 := by
        rw [afterEvaluations, foldl_append]
        rfl
      refine ⟨marks', by rw [hafter]; exact hcode', fun p g hmem => ?_⟩
      rw [hreached p g hmem, hseen p g hmem]
      constructor
      · rintro (⟨earlier, evaluation', later, rfl, hinstalled, hreaches⟩ | ⟨hinstalled, hreaches⟩)
        · exact ⟨earlier, evaluation', later ++ [evaluation], by simp, hinstalled, hreaches⟩
        · exact ⟨history, evaluation, [], rfl, hinstalled, hreaches⟩
      · rintro ⟨earlier, evaluation', later, heq, hinstalled, hreaches⟩
        rcases eq_nil_or_concat later with rfl | ⟨later, last, rfl⟩
        · obtain ⟨rfl, hlast⟩ := append_inj' heq rfl
          cases hlast
          exact Or.inr ⟨hinstalled, hreaches⟩
        · rw [concat_eq_append, ← cons_append, ← append_assoc] at heq
          obtain ⟨rfl, -⟩ := append_inj' heq rfl
          exact Or.inl ⟨earlier, evaluation', later, rfl, hinstalled, hreaches⟩

end History

section PeiEvaluation

variable {isLocated : Guid → Bool} {mem mem' : Bytes} {stack stack' : List EvalStackEntry}

theorem peiLoop_next
    (h : peiStep isLocated mem stack = .next mem' stack') :
    peiLoop isLocated mem stack = peiLoop isLocated mem' stack' := by
  rw [peiLoop]
  split
  · rename_i hstep
    rw [h] at hstep
    cases hstep
  · rename_i hstep
    rw [h] at hstep
    cases hstep
    rfl

theorem peiLoop_result
    {value : Option Bool} (h : peiStep isLocated mem stack = .result value) :
    peiLoop isLocated mem stack = value := by
  rw [peiLoop]
  split
  · rename_i hstep
    rw [h] at hstep
    cases hstep
    rfl
  · rename_i hstep
    rw [h] at hstep
    cases hstep

theorem peiBinary_entries
    (decides : Bool) (popped other : EvalStackEntry) :
    ∃ entry, peiBinary isLocated mem (popped :: other :: stack) decides = .next mem (entry :: stack) ∧
      isPpiInstalled isLocated entry =
        if isPpiInstalled isLocated popped = decides then decides
        else isPpiInstalled isLocated other := by
  by_cases h : isPpiInstalled isLocated popped = decides
  · exact ⟨.result decides, by simp [peiBinary, h], by rw [if_pos h]; rfl⟩
  · exact ⟨other, by simp [peiBinary, h], by simp [h]⟩

/-- The code of a formula pushes an entry with its value. -/
theorem peiLoop_formula
    (offset : Nat) (e : Formula Guid) (rest : Bytes) (stack : List EvalStackEntry)
    (hdepth : stack.length + e.depth ≤ maxGrammarSize) :
    ∃ entry, isPpiInstalled isLocated entry = e.value isLocated ∧
      peiLoop isLocated (code (fun _ => false) (located offset e).tokens ++ rest) stack =
        peiLoop isLocated rest (entry :: stack) := by
  have hroom : ¬maxGrammarSize ≤ stack.length := by
    have hpos := e.depth_pos
    omega
  induction e generalizing offset rest stack with
  | operand g =>
      refine ⟨.operator g, rfl, peiLoop_next ?_⟩
      have hmem : code (fun _ => false) (located offset (.operand g)).tokens ++ rest =
          Opcode.push.byte :: (g.bytes ++ rest) := by
        simp [code, located, Formula.tokens, instruction]
      have hlength : ¬(g.bytes ++ rest).length < 16 := by
        rw [length_append, g.length_eq]
        omega
      have hdrop : (g.bytes ++ rest).drop 16 = rest := drop_left' g.length_eq
      rw [hmem]
      simp only [peiStep, Opcode.read_byte, if_neg hlength, hdrop, peiPush, if_neg hroom,
        Guid.read_append]
  | tru =>
      refine ⟨.result true, rfl, peiLoop_next ?_⟩
      simp [code, located, Formula.tokens, instruction, peiStep, peiPush, hroom]
  | fls =>
      refine ⟨.result false, rfl, peiLoop_next ?_⟩
      simp [code, located, Formula.tokens, instruction, peiStep, peiPush, hroom]
  | not e ih =>
      obtain ⟨entry, hvalue, hloop⟩ :=
        ih offset (Opcode.not.byte :: rest) stack hdepth hroom
      refine ⟨.result (!isPpiInstalled isLocated entry), ?_, ?_⟩
      · rw [isPpiInstalled, hvalue]
        rfl
      · rw [located, Formula.tokens, code_append, append_assoc]
        refine hloop.trans (peiLoop_next ?_)
        simp only [peiStep, Opcode.read_byte]
  | and e f ihe ihf =>
      rw [Formula.depth] at hdepth
      have hpos := f.depth_pos
      obtain ⟨other, hother, hloope⟩ := ihe offset
        (code (fun _ => false) (located (offset + codeWidth e.tokens) f).tokens ++
          Opcode.and.byte :: rest) stack (by omega) hroom
      obtain ⟨popped, hpopped, hloopf⟩ := ihf (offset + codeWidth e.tokens)
        (Opcode.and.byte :: rest) (other :: stack) (by rw [length_cons]; omega)
        (by rw [length_cons]; omega)
      obtain ⟨entry, hbinary, hvalue⟩ :=
        @peiBinary_entries isLocated rest stack false popped other
      refine ⟨entry, ?_, ?_⟩
      · rw [hvalue, hpopped, hother, Formula.value]
        cases f.value isLocated <;> simp
      · rw [located, Formula.tokens, code_append, code_append, append_assoc,
          append_assoc]
        refine hloope.trans (hloopf.trans (peiLoop_next ?_))
        simp only [peiStep, Opcode.read_byte, hbinary]
  | or e f ihe ihf =>
      rw [Formula.depth] at hdepth
      have hpos := f.depth_pos
      obtain ⟨other, hother, hloope⟩ := ihe offset
        (code (fun _ => false) (located (offset + codeWidth e.tokens) f).tokens ++
          Opcode.or.byte :: rest) stack (by omega) hroom
      obtain ⟨popped, hpopped, hloopf⟩ := ihf (offset + codeWidth e.tokens)
        (Opcode.or.byte :: rest) (other :: stack) (by rw [length_cons]; omega)
        (by rw [length_cons]; omega)
      obtain ⟨entry, hbinary, hvalue⟩ :=
        @peiBinary_entries isLocated rest stack true popped other
      refine ⟨entry, ?_, ?_⟩
      · rw [hvalue, hpopped, hother, Formula.value]
        cases f.value isLocated <;> simp
      · rw [located, Formula.tokens, code_append, code_append, append_assoc,
          append_assoc]
        refine hloope.trans (hloopf.trans (peiLoop_next ?_))
        simp only [peiStep, Opcode.read_byte, hbinary]

theorem peimDispatchReadiness_formula
    (e : Formula Guid) (trailing : Bytes) (hdepth : e.depth ≤ maxGrammarSize) :
    peimDispatchReadiness isLocated (dependencyExpression e ++ trailing) =
      some (e.value isLocated) := by
  obtain ⟨entry, hvalue, hloop⟩ := @peiLoop_formula isLocated 0 e (Opcode.end.byte :: trailing) []
    (by rw [length_nil]; omega)
  rw [peimDispatchReadiness, dependencyExpression, append_assoc, singleton_append, hloop,
    ← hvalue]
  refine peiLoop_result ?_
  simp only [peiStep, Opcode.read_byte]

end PeiEvaluation

section Agreement

theorem holds_located
    (P : Guid → Prop) (offset : Nat) (e : Formula Guid) :
    (located offset e).Holds (fun a => P a.2) ↔ e.Holds P := by
  induction e generalizing offset with
  | operand g => rfl
  | tru => rfl
  | fls => rfl
  | not e ih => exact not_congr (ih offset)
  | and e f ihe ihf => exact and_congr (ihe offset) (ihf _)
  | or e f ihe ihf => exact or_congr (ihe offset) (ihf _)

/-- The entry with the expression of a formula. -/
def withExpression (entry : EfiCoreDriverEntry) (e : Formula Guid) (trailing : Bytes) :
    EfiCoreDriverEntry :=
  { entry with depex := some (dependencyExpression e ++ trailing), before := false, after := false }

/-- Both evaluators return the truth value of a well-formed expression, and after any
evaluations before, a `PUSH` counts as true when its GUID is installed, or was in an
evaluation that got to it. -/
theorem dependencyEvaluators_agree
    (entry : EfiCoreDriverEntry) (e : Formula Guid) (trailing : Bytes) :
    (∀ env stackSize, (∀ size, env.allocatePool size = true) →
      (coreIsSchedulable env (withExpression entry e trailing) stackSize).1 =
        e.value env.installed) ∧
    (∀ isLocated, e.depth ≤ maxGrammarSize →
      peimDispatchReadiness isLocated (dependencyExpression e ++ trailing) =
        some (e.value isLocated)) ∧
    (∀ history env stackSize, (∀ size, env.allocatePool size = true) →
      ((coreIsSchedulable env (afterEvaluations history (withExpression entry e trailing))
          stackSize).1 = true ↔
        (located 0 e).Holds (fun a => env.installed a.2 = true ∨
          SeenInstalled history (withExpression entry e trailing) a))) := by
  have hcode : HasCode (fun _ => false) (located 0 e).tokens trailing
      (withExpression entry e trailing) := by
    refine ⟨?_, rfl, rfl⟩
    simp [withExpression, dependencyExpression]
  have hhistory : ∀ history env stackSize, (∀ size, env.allocatePool size = true) →
      ((coreIsSchedulable env (afterEvaluations history (withExpression entry e trailing))
          stackSize).1 = true ↔
        (located 0 e).Holds (fun a => env.installed a.2 = true ∨
          SeenInstalled history (withExpression entry e trailing) a)) := by
    intro history env stackSize halloc
    obtain ⟨marks, hafter, hseen⟩ := afterEvaluations_code history hcode
    obtain ⟨-, hvalue⟩ := @coreIsSchedulable_code env _ stackSize marks e trailing hafter
    rw [hvalue halloc, Formula.value_eq_true (fun a => Iff.rfl)]
    refine Formula.holds_congr (fun a hmem => ?_)
    rw [operandValue, Bool.or_eq_true, hseen a.1 a.2 hmem, or_comm]
  refine ⟨fun env stackSize halloc => ?_, fun isLocated hdepth => ?_, hhistory⟩
  · have hfirst := hhistory [] env stackSize halloc
    rw [Bool.eq_iff_iff, Formula.value_eq_true (fun a => Iff.rfl), ← holds_located _ 0]
    refine hfirst.trans (Formula.holds_congr (fun a _ => ?_))
    simp [SeenInstalled]
  · exact peimDispatchReadiness_formula e trailing hdepth

/-- A protocol is installed, and the expression asks for it and for nothing that is false. -/
theorem dependencyEvaluators_agree_sample :
    (coreIsSchedulable ⟨fun g => g == zeroGuid, fun _ => true, false⟩
        (withExpression sampleEntry (.and (.operand zeroGuid) (.not .fls)) []) 0).1 = true ∧
      peimDispatchReadiness (fun g => g == zeroGuid)
        (dependencyExpression (.and (.operand zeroGuid) (.not .fls)) ++ []) = some true := by
  obtain ⟨hdxe, hpei, -⟩ :=
    dependencyEvaluators_agree sampleEntry (.and (.operand zeroGuid) (.not .fls)) []
  exact ⟨hdxe ⟨fun g => g == zeroGuid, fun _ => true, false⟩ 0 (fun _ => rfl),
    hpei (fun g => g == zeroGuid) (by decide)⟩

end Agreement

end Dispatcher
end Udk
