import Mathlib.Data.List.Basic
import Mathlib.Tactic

/-!
# Runs of a labelled transition system

A run records each step with the state it starts from, so that a condition on
steps is a condition on the entries of its trace.  `Run.invariant` packages the
induction of a safety proof: what holds at first and is kept by every step that
meets the condition holds at the end.
-/

namespace Udk

universe u v

variable {σ : Type u} {α : Type v}

/-- The run from one state to another through the recorded steps. -/
inductive Run (step : σ → α → σ → Prop) : σ → List (σ × α) → σ → Prop
  | nil (s : σ) : Run step s [] s
  | cons {s s' s'' : σ} {a : α} {trace : List (σ × α)}
      (hstep : step s a s') (hrest : Run step s' trace s'') :
      Run step s ((s, a) :: trace) s''

namespace Run

variable {step : σ → α → σ → Prop}

theorem single {s s' : σ} {a : α} (h : step s a s') : Run step s [(s, a)] s' :=
  cons h (nil s')

theorem append {s s' s'' : σ} {t t' : List (σ × α)}
    (h : Run step s t s') (h' : Run step s' t' s'') :
    Run step s (t ++ t') s'' := by
  induction h with
  | nil s => exact h'
  | cons hstep _ ih => exact cons hstep (ih h')

/-- A run splits where its trace does. -/
theorem split {s s'' : σ} {t t' : List (σ × α)}
    (h : Run step s (t ++ t') s'') :
    ∃ s', Run step s t s' ∧ Run step s' t' s'' := by
  induction t generalizing s with
  | nil => exact ⟨s, nil s, h⟩
  | cons x t ih =>
      cases h with
      | cons hstep hrest =>
          obtain ⟨s', hfirst, hsecond⟩ := ih hrest
          exact ⟨s', cons hstep hfirst, hsecond⟩

/-- What holds at first and is kept by every step that meets a condition holds after
a run of such steps. -/
theorem invariant {I : σ → Prop} {ok : σ → α → Prop}
    (hkeep : ∀ s a s', I s → ok s a → step s a s' → I s')
    {s s' : σ} {trace : List (σ × α)} (h : Run step s trace s')
    (hok : ∀ x ∈ trace, ok x.1 x.2) (hs : I s) : I s' := by
  induction h with
  | nil s => exact hs
  | cons hstep _ ih =>
      exact ih (fun x hx => hok x (List.mem_cons_of_mem _ hx))
        (hkeep _ _ _ hs (hok _ List.mem_cons_self) hstep)

/-- The run of some moves of a machine. -/
theorem of_foldlM {move : σ → α → Option σ} {moves : List α} {s s' : σ}
    (h : moves.foldlM move s = some s') :
    ∃ trace, Run (fun s a s' => move s a = some s') s trace s' := by
  induction moves generalizing s with
  | nil =>
      obtain rfl := Option.some_inj.mp h
      exact ⟨[], nil s⟩
  | cons m moves ih =>
      rw [List.foldlM_cons] at h
      obtain ⟨s₁, hmove, hrest⟩ := Option.bind_eq_some_iff.mp h
      obtain ⟨trace, hrun⟩ := ih hrest
      exact ⟨_, cons hmove hrun⟩

end Run

end Udk
