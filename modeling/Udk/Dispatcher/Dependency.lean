import Udk.Postfix
import Udk.Variable.Format

/-!
# The DXE dependency evaluator

`CoreIsSchedulable` walks the bytes of the dependency expression with a stack of
`BOOLEAN`s and overwrites a `PUSH` whose protocol is installed.  `depexStep` is one
turn of its loop.
-/

/-!
## Driver entries and dependency opcodes

`EFI_CORE_DRIVER_ENTRY` as far as the dispatcher and the dependency evaluator use it,
and the opcodes of dependency expressions.
-/

namespace Udk
namespace Dispatcher

open Variable

/-- `EFI_DEP_BEFORE` and the other opcodes. -/
inductive Opcode where
  | before
  | after
  | push
  | and
  | or
  | not
  | true
  | false
  | end
  | sor
  | replaceTrue
deriving DecidableEq

namespace Opcode

/-- The byte of an opcode. -/
def byte : Opcode → UInt8
  | before => 0x00
  | after => 0x01
  | push => 0x02
  | and => 0x03
  | or => 0x04
  | not => 0x05
  | true => 0x06
  | false => 0x07
  | .end => 0x08
  | sor => 0x09
  | replaceTrue => 0xff

def all : List Opcode :=
  [before, after, push, and, or, not, true, false, .end, sor, replaceTrue]

/-- The opcode of a byte. -/
def read (b : UInt8) : Option Opcode :=
  all.find? (fun op => op.byte == b)

@[simp] theorem read_byte
    (op : Opcode) :
    read op.byte = some op := by
  cases op <;> rfl

end Opcode

/-- Handle of a firmware volume or of an image. -/
abbrev EfiHandle := Nat

/-- `EFI_CORE_DRIVER_ENTRY`; `depex` has `DepexSize` bytes. -/
structure EfiCoreDriverEntry where
  fvHandle : EfiHandle
  fileName : Guid
  depex : Option Bytes
  before : Bool
  after : Bool
  beforeAfterGuid : Guid
  dependent : Bool
  unrequested : Bool
  scheduled : Bool
  untrusted : Bool
  initialized : Bool
  depexProtocolError : Bool
  imageHandle : Option EfiHandle
  isFvImage : Bool
deriving DecidableEq

/-- The GUID of zeros, as a new entry has it. -/
def zeroGuid : Guid :=
  ⟨List.replicate 16 0, rfl⟩

/-- A driver without a dependency expression. -/
def sampleEntry : EfiCoreDriverEntry where
  fvHandle := 1
  fileName := zeroGuid
  depex := none
  before := false
  after := false
  beforeAfterGuid := zeroGuid
  dependent := true
  unrequested := false
  scheduled := false
  untrusted := false
  initialized := false
  depexProtocolError := false
  imageHandle := none
  isFvImage := false

end Dispatcher
end Udk

namespace Udk
namespace Dispatcher

open Variable

/-- `CorePreProcessDepex`, none when there is no first opcode to read. -/
def corePreProcessDepex (entry : EfiCoreDriverEntry) : Option EfiCoreDriverEntry :=
  match entry.depex with
  | some (opcode :: operand) =>
      let isSor := opcode == Opcode.sor.byte
      let entry := { entry with
        unrequested := entry.unrequested || isSor
        dependent := entry.dependent || !isSor }
      let entry :=
        if opcode == Opcode.before.byte then { entry with before := true }
        else if opcode == Opcode.after.byte then { entry with after := true }
        else entry
      if entry.before || entry.after then some { entry with beforeAfterGuid := Guid.read operand }
      else some entry
  | _ => none

/-- What an evaluation asks. -/
structure DepexEnvironment where
  /-- `CoreLocateProtocol` finds an interface. -/
  installed : Guid → Bool
  /-- `AllocatePool` for a stack of this size succeeds. -/
  allocatePool : Nat → Bool
  /-- `CoreAllEfiServicesAvailable`. -/
  allEfiServicesAvailable : Bool

/-- The state of the loop of `CoreIsSchedulable`. -/
structure DepexState where
  depex : Bytes
  /-- Offset of `Iterator` in `Depex`. -/
  iterator : Nat
  /-- The entries below `mDepexEvaluationStackPointer`, the last one first. -/
  stack : List Bool
  /-- `mDepexEvaluationStackEnd - mDepexEvaluationStack`. -/
  stackSize : Nat
deriving DecidableEq

/-- `DEPEX_STACK_SIZE_INCREMENT`. -/
def depexStackSizeIncrement : Nat := 0x1000

/-- How a turn of the loop ends. -/
inductive Turn where
  | next (st : DepexState)
  | result (value : Bool) (st : DepexState)
deriving DecidableEq

section Evaluate

variable (env : DepexEnvironment) (st : DepexState)

/-- `GrowDepexStack`: the new size. -/
def growDepexStack : Option Nat :=
  let size := depexStackSizeIncrement + st.stackSize
  if env.allocatePool size then some size else none

/-- `PushBool`. -/
def pushBool (value : Bool) : Option DepexState :=
  if st.stack.length = st.stackSize then
    (growDepexStack env st).map
      (fun size => { st with stack := value :: st.stack, stackSize := size })
  else some { st with stack := value :: st.stack }

/-- `PopBool`. -/
def popBool : Option (Bool × DepexState) :=
  match st.stack with
  | [] => none
  | value :: stack => some (value, { st with stack })

/-- Push, and skip the instruction. -/
def pushTurn (value : Bool) (width : Nat) : Turn :=
  match pushBool env st value with
  | none => .result false st
  | some st => .next { st with iterator := st.iterator + width }

/-- Replace the two topmost entries. -/
def binaryTurn (f : Bool → Bool → Bool) : Turn :=
  match popBool st with
  | none => .result false st
  | some (operator, st) =>
      match popBool st with
      | none => .result false st
      | some (operator2, st) => pushTurn env st (f operator operator2) 1

/-- The GUID behind the opcode. -/
def driverGuid : Guid :=
  Guid.read (st.depex.drop (st.iterator + 1))

/-- One turn of the loop of `CoreIsSchedulable`. -/
def depexStep : Turn :=
  if st.depex.length ≤ st.iterator then .result false st
  else
    match Opcode.read (st.depex.getD st.iterator 0) with
    | some .before | some .after | some .sor =>
        if st.iterator ≠ 0 then .result false st
        else .next { st with iterator := st.iterator + 1 }
    | some .push =>
        if env.installed (driverGuid st) then
          pushTurn env
            { st with depex := st.depex.set st.iterator Opcode.replaceTrue.byte } true 17
        else pushTurn env st false 17
    | some .and => binaryTurn env st (· && ·)
    | some .or => binaryTurn env st (· || ·)
    | some .not =>
        match popBool st with
        | none => .result false st
        | some (operator, st) => pushTurn env st (!operator) 1
    | some .true => pushTurn env st true 1
    | some .false => pushTurn env st false 1
    | some .end =>
        match popBool st with
        | none => .result false st
        | some (operator, st) => .result operator st
    | some .replaceTrue => pushTurn env st true 17
    | none => .result false st

end Evaluate

section Progress

variable {env : DepexEnvironment} {st st' : DepexState}

theorem pushTurn_next
    {value : Bool} {width : Nat} (h : pushTurn env st value width = .next st') :
    st'.depex = st.depex ∧ st'.iterator = st.iterator + width := by
  unfold pushTurn pushBool at h
  split at h
  · cases h
  · rename_i st1 hpush
    cases h
    split at hpush
    · obtain ⟨size, -, rfl⟩ := Option.map_eq_some_iff.mp hpush
      exact ⟨rfl, rfl⟩
    · cases hpush
      exact ⟨rfl, rfl⟩

theorem popBool_eq
    {value : Bool} (h : popBool st = some (value, st')) :
    st'.depex = st.depex ∧ st'.iterator = st.iterator := by
  unfold popBool at h
  split at h
  · cases h
  · cases h
    exact ⟨rfl, rfl⟩

theorem binaryTurn_next
    {f : Bool → Bool → Bool} (h : binaryTurn env st f = .next st') :
    st'.depex = st.depex ∧ st'.iterator = st.iterator + 1 := by
  unfold binaryTurn at h
  split at h
  · cases h
  · rename_i hpop
    split at h
    · cases h
    · rename_i hpop'
      obtain ⟨hdepex, hiterator⟩ := pushTurn_next h
      rw [hdepex, hiterator, (popBool_eq hpop').1, (popBool_eq hpop').2, (popBool_eq hpop).1,
        (popBool_eq hpop).2]
      exact ⟨rfl, rfl⟩

/-- A turn that goes on moves the iterator inside the expression. -/
theorem depexStep_next
    (h : depexStep env st = .next st') :
    st'.depex.length = st.depex.length ∧ st.iterator < st'.iterator ∧
      st.iterator < st.depex.length := by
  unfold depexStep at h
  split at h
  case isTrue => cases h
  case isFalse hmore =>
      have hlt : st.iterator < st.depex.length := Nat.lt_of_not_le hmore
      have hpush : ∀ {st1 : DepexState} {value width},
          pushTurn env st1 value width = .next st' → 0 < width →
          st1.depex.length = st.depex.length → st1.iterator = st.iterator →
          st'.depex.length = st.depex.length ∧ st.iterator < st'.iterator ∧
            st.iterator < st.depex.length := by
        intro st1 value width hturn hwidth hlength hiterator
        obtain ⟨hdepex, hnext⟩ := pushTurn_next hturn
        rw [hdepex, hnext, hlength, hiterator]
        exact ⟨rfl, by omega, hlt⟩
      have hbinary : ∀ {f}, binaryTurn env st f = .next st' →
          st'.depex.length = st.depex.length ∧ st.iterator < st'.iterator ∧
            st.iterator < st.depex.length := by
        intro f hturn
        obtain ⟨hdepex, hnext⟩ := binaryTurn_next hturn
        rw [hdepex, hnext]
        exact ⟨rfl, by omega, hlt⟩
      split at h
      case h_1 | h_2 | h_3 =>
          split at h
          · cases h
          · cases h
            exact ⟨rfl, Nat.lt_succ_self _, hlt⟩
      case h_4 =>
          split at h
          · exact hpush h (by decide) (List.length_set ..) rfl
          · exact hpush h (by decide) rfl rfl
      case h_5 | h_6 => exact hbinary h
      case h_7 =>
          split at h
          · cases h
          · rename_i hpop
            obtain ⟨hdepex, hiterator⟩ := popBool_eq hpop
            exact hpush h (by decide) (by rw [hdepex]) hiterator
      case h_8 | h_9 | h_11 => exact hpush h (by decide) rfl rfl
      case h_10 =>
          split at h
          · cases h
          · cases h
      case h_12 => cases h

end Progress

/-- The loop of `CoreIsSchedulable`. -/
def depexLoop (env : DepexEnvironment) (st : DepexState) : Bool × DepexState :=
  match _hstep : depexStep env st with
  | .result value st => (value, st)
  | .next st => depexLoop env st
termination_by st.depex.length - st.iterator
decreasing_by
  have hnext := depexStep_next _hstep
  omega

section Loop

variable {env : DepexEnvironment} {st st' : DepexState}

theorem depexLoop_next
    (h : depexStep env st = .next st') :
    depexLoop env st = depexLoop env st' := by
  rw [depexLoop]
  split
  case h_1 hstep =>
    rw [h] at hstep
    cases hstep
  case h_2 hstep =>
    rw [h] at hstep
    cases hstep
    rfl

theorem depexLoop_result
    {value : Bool} (h : depexStep env st = .result value st') :
    depexLoop env st = (value, st') := by
  rw [depexLoop]
  split
  case h_1 hstep =>
    rw [h] at hstep
    cases hstep
    rfl
  case h_2 hstep =>
    rw [h] at hstep
    cases hstep

end Loop

/-- `CoreIsSchedulable`, with the entry and the size of the stack behind it. -/
def coreIsSchedulable (env : DepexEnvironment) (entry : EfiCoreDriverEntry) (stackSize : Nat) :
    Bool × EfiCoreDriverEntry × Nat :=
  if entry.after || entry.before then (false, entry, stackSize)
  else
    match entry.depex with
    | none => (env.allEfiServicesAvailable, entry, stackSize)
    | some depex =>
        let (value, st) := depexLoop env ⟨depex, 0, [], stackSize⟩
        (value, { entry with depex := some st.depex }, st.stackSize)

end Dispatcher
end Udk
