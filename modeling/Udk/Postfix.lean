import Mathlib.Data.List.Basic
import Mathlib.Tactic

/-!
# Boolean formulas in postfix form

A formula over operands, its postfix tokens, and the machine that evaluates tokens on
a stack of truth values.  `run_tokens` says that the machine computes the value of the
formula; `depth` is the number of stack entries this takes.
-/

namespace Udk
namespace Postfix

open List

universe u v

inductive Formula (α : Type u) where
  | operand (a : α)
  | tru
  | fls
  | not (e : Formula α)
  | and (e f : Formula α)
  | or (e f : Formula α)
deriving DecidableEq

inductive Token (α : Type u) where
  | operand (a : α)
  | tru
  | fls
  | not
  | and
  | or
deriving DecidableEq

variable {α : Type u} {β : Type v}

namespace Formula

/-- The truth value for given values of the operands. -/
def value (holds : α → Bool) : Formula α → Bool
  | operand a => holds a
  | tru => true
  | fls => false
  | not e => !e.value holds
  | and e f => e.value holds && f.value holds
  | or e f => e.value holds || f.value holds

/-- The formula holds when its operands are propositions. -/
def Holds (P : α → Prop) : Formula α → Prop
  | operand a => P a
  | tru => True
  | fls => False
  | not e => ¬e.Holds P
  | and e f => e.Holds P ∧ f.Holds P
  | or e f => e.Holds P ∨ f.Holds P

/-- The postfix tokens. -/
def tokens : Formula α → List (Token α)
  | operand a => [.operand a]
  | tru => [.tru]
  | fls => [.fls]
  | not e => e.tokens ++ [.not]
  | and e f => e.tokens ++ f.tokens ++ [.and]
  | or e f => e.tokens ++ f.tokens ++ [.or]

/-- Stack entries that an evaluation needs. -/
def depth : Formula α → Nat
  | operand _ => 1
  | tru => 1
  | fls => 1
  | not e => e.depth
  | and e f => max e.depth (f.depth + 1)
  | or e f => max e.depth (f.depth + 1)

theorem value_eq_true
    {holds : α → Bool} {P : α → Prop} (h : ∀ a, holds a = true ↔ P a) (e : Formula α) :
    e.value holds = true ↔ e.Holds P := by
  induction e with
  | operand a => exact h a
  | tru | fls => simp [value, Holds]
  | not e ih => simp [value, Holds, ← ih]
  | and e f ihe ihf | or e f ihe ihf => simp [value, Holds, ← ihe, ← ihf]

theorem depth_pos
    (e : Formula α) :
    0 < e.depth := by
  induction e with
  | operand a | tru | fls => exact Nat.one_pos
  | not e ih => exact ih
  | and e f ihe _ | or e f ihe _ => exact lt_of_lt_of_le ihe (Nat.le_max_left _ _)

/-- A formula sees the operands that occur in it. -/
theorem holds_congr
    {P Q : α → Prop} {e : Formula α}
    (h : ∀ a, .operand a ∈ e.tokens → (P a ↔ Q a)) :
    e.Holds P ↔ e.Holds Q := by
  induction e with
  | operand a => exact h a mem_cons_self
  | tru => rfl
  | fls => rfl
  | not e ih =>
      exact not_congr (ih (fun a ha => h a (mem_append_left _ ha)))
  | and e f ihe ihf =>
      exact and_congr
        (ihe (fun a ha => h a (mem_append_left _ (mem_append_left _ ha))))
        (ihf (fun a ha => h a (mem_append_left _ (mem_append_right _ ha))))
  | or e f ihe ihf =>
      exact or_congr
        (ihe (fun a ha => h a (mem_append_left _ (mem_append_left _ ha))))
        (ihf (fun a ha => h a (mem_append_left _ (mem_append_right _ ha))))

end Formula

/-- The effect of a token on the stack, none when operands are missing. -/
def Token.apply (holds : α → Bool) : Token α → List Bool → Option (List Bool)
  | .operand a, stack => some (holds a :: stack)
  | .tru, stack => some (true :: stack)
  | .fls, stack => some (false :: stack)
  | .not, b :: stack => some ((!b) :: stack)
  | .and, b :: c :: stack => some ((b && c) :: stack)
  | .or, b :: c :: stack => some ((b || c) :: stack)
  | _, _ => none

section Apply

variable {holds : α → Bool} {stack stack' : List Bool}

theorem apply_not
    (h : Token.not.apply holds stack = some stack') :
    ∃ b rest, stack = b :: rest ∧ stack' = (!b) :: rest := by
  rcases stack with _ | ⟨b, rest⟩
  · cases h
  · cases h
    exact ⟨b, rest, rfl, rfl⟩

theorem apply_and
    (h : Token.and.apply holds stack = some stack') :
    ∃ b c rest, stack = b :: c :: rest ∧ stack' = (b && c) :: rest := by
  rcases stack with _ | ⟨b, _ | ⟨c, rest⟩⟩
  · cases h
  · cases h
  · cases h
    exact ⟨b, c, rest, rfl, rfl⟩

theorem apply_or
    (h : Token.or.apply holds stack = some stack') :
    ∃ b c rest, stack = b :: c :: rest ∧ stack' = (b || c) :: rest := by
  rcases stack with _ | ⟨b, _ | ⟨c, rest⟩⟩
  · cases h
  · cases h
  · cases h
    exact ⟨b, c, rest, rfl, rfl⟩

end Apply

/-- The effect of a sequence of tokens. -/
def run (holds : α → Bool) : List (Token α) → List Bool → Option (List Bool)
  | [], stack => some stack
  | t :: ts, stack => (t.apply holds stack).bind (run holds ts)

@[simp] theorem run_nil
    (holds : α → Bool) (stack : List Bool) :
    run holds [] stack = some stack := rfl

theorem run_append
    (holds : α → Bool) (ts ts' : List (Token α)) (stack : List Bool) :
    run holds (ts ++ ts') stack = (run holds ts stack).bind (run holds ts') := by
  induction ts generalizing stack with
  | nil => rfl
  | cons t ts ih =>
      rw [cons_append, run, run]
      cases t.apply holds stack with
      | none => rfl
      | some stack' => exact ih stack'

/-- A run sees the values of the operands that occur. -/
theorem run_congr
    {holds holds' : α → Bool} {ts : List (Token α)}
    (h : ∀ a, .operand a ∈ ts → holds a = holds' a) (stack : List Bool) :
    run holds ts stack = run holds' ts stack := by
  induction ts generalizing stack with
  | nil => rfl
  | cons t ts ih =>
      have happly : t.apply holds stack = t.apply holds' stack := by
        cases t with
        | operand a => simp only [Token.apply, h a mem_cons_self]
        | tru => rfl
        | fls => rfl
        | not => rcases stack with _ | ⟨b, rest⟩ <;> rfl
        | and | or => rcases stack with _ | ⟨b, _ | ⟨c, rest⟩⟩ <;> rfl
      rw [run, run, happly]
      cases t.apply holds' stack with
      | none => rfl
      | some stack' => exact ih (fun a hmem => h a (mem_cons_of_mem _ hmem)) stack'

/-- The tokens of a formula push its value. -/
theorem run_tokens
    (holds : α → Bool) (e : Formula α) (stack : List Bool) :
    run holds e.tokens stack = some (e.value holds :: stack) := by
  induction e generalizing stack with
  | operand a => rfl
  | tru => rfl
  | fls => rfl
  | not e ih =>
      rw [Formula.tokens, run_append, ih]
      rfl
  | and e f ihe ihf =>
      rw [Formula.tokens, run_append, run_append, ihe, Option.bind_some, ihf]
      simp [run, Token.apply, Formula.value, Bool.and_comm]
  | or e f ihe ihf =>
      rw [Formula.tokens, run_append, run_append, ihe, Option.bind_some, ihf]
      simp [run, Token.apply, Formula.value, Bool.or_comm]

end Postfix
end Udk
