import Udk.Dispatcher.Dependency
import Udk.Postfix

/-!
# The PEI dependency evaluator

`PeimDispatchReadiness` keeps the GUID of a `PUSH` on its stack and looks the PPI up
when the entry is popped.  The expression comes without a size: an evaluation that
reads behind the given memory is `none`.
-/

namespace Udk
namespace Dispatcher

open Variable

/-- `EVAL_STACK_ENTRY`: a GUID still to be looked up, or a result. -/
inductive EvalStackEntry where
  | operator (ppiGuid : Guid)
  | result (value : Bool)
deriving DecidableEq

/-- `MAX_GRAMMAR_SIZE`. -/
def maxGrammarSize : Nat := 64

/-- `IsPpiInstalled`. -/
def isPpiInstalled (located : Guid → Bool) : EvalStackEntry → Bool
  | .operator ppiGuid => located ppiGuid
  | .result value => value

/-- How a turn of the loop ends; the result is none when it reads behind the memory. -/
inductive PeiTurn where
  | next (mem : Bytes) (stack : List EvalStackEntry)
  | result (value : Option Bool)
deriving DecidableEq

section Evaluate

variable (located : Guid → Bool) (mem : Bytes) (stack : List EvalStackEntry)

/-- Push, unless the stack is full. -/
def peiPush (entry : EvalStackEntry) : PeiTurn :=
  if maxGrammarSize ≤ stack.length then .result (some false) else .next mem (entry :: stack)

/-- `AND` and `OR`: the popped entry decides, or the other one stays as it is. -/
def peiBinary (decides : Bool) : PeiTurn :=
  match stack with
  | popped :: other :: stack =>
      if isPpiInstalled located popped = decides then .next mem (.result decides :: stack)
      else .next mem (other :: stack)
  | _ => .result (some false)

/-- One turn of the loop of `PeimDispatchReadiness`, on the memory from `Iterator` on. -/
def peiStep : PeiTurn :=
  match mem with
  | [] => .result none
  | opcode :: mem =>
      match Opcode.read opcode with
      | some .push =>
          if mem.length < 16 then .result none
          else peiPush (mem.drop 16) stack (.operator (Guid.read mem))
      | some .and => peiBinary located mem stack false
      | some .or => peiBinary located mem stack true
      | some .end =>
          match stack with
          | [entry] => .result (some (isPpiInstalled located entry))
          | _ => .result (some false)
      | some .not =>
          match stack with
          | [] => .result (some false)
          | entry :: stack => .next mem (.result (!isPpiInstalled located entry) :: stack)
      | some .true => peiPush mem stack (.result true)
      | some .false => peiPush mem stack (.result false)
      | _ => .result (some false)

end Evaluate

section Progress

variable {located : Guid → Bool} {mem mem' : Bytes} {stack stack' : List EvalStackEntry}

theorem peiPush_next
    {entry : EvalStackEntry} (h : peiPush mem stack entry = .next mem' stack') :
    mem' = mem := by
  unfold peiPush at h
  split at h
  · cases h
  · cases h
    rfl

theorem peiBinary_next
    {decides : Bool} (h : peiBinary located mem stack decides = .next mem' stack') :
    mem' = mem := by
  unfold peiBinary at h
  split at h
  · split at h
    · cases h
      rfl
    · cases h
      rfl
  · cases h

theorem peiStep_next
    (h : peiStep located mem stack = .next mem' stack') :
    mem'.length < mem.length := by
  unfold peiStep at h
  split at h
  · cases h
  · rename_i opcode rest
    rw [List.length_cons]
    split at h
    · split at h
      · cases h
      · rw [peiPush_next h, List.length_drop]
        omega
    · rw [peiBinary_next h]
      exact Nat.lt_succ_self _
    · rw [peiBinary_next h]
      exact Nat.lt_succ_self _
    · split at h
      · cases h
      · cases h
    · split at h
      · cases h
      · cases h
        exact Nat.lt_succ_self _
    · rw [peiPush_next h]
      exact Nat.lt_succ_self _
    · rw [peiPush_next h]
      exact Nat.lt_succ_self _
    · cases h

end Progress

/-- The loop of `PeimDispatchReadiness`. -/
def peiLoop (located : Guid → Bool) (mem : Bytes) (stack : List EvalStackEntry) : Option Bool :=
  match _hstep : peiStep located mem stack with
  | .result value => value
  | .next mem stack => peiLoop located mem stack
termination_by mem.length
decreasing_by exact peiStep_next _hstep

/-- `PeimDispatchReadiness`. -/
def peimDispatchReadiness (located : Guid → Bool) (dependencyExpression : Bytes) : Option Bool :=
  peiLoop located dependencyExpression []

end Dispatcher
end Udk
