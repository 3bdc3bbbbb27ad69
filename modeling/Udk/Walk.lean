import Mathlib.Data.Finset.Card
import Mathlib.Logic.Relation
import Mathlib.Tactic

/-!
# Walks of a partial function

A walk follows a partial function until it is undefined.  Among finitely many positions it ends
exactly when it never comes back to a position it has left.
-/

namespace Udk

universe u

variable {α : Type u}

/-- The positions of the walk from a position on; nothing if it takes more turns than allowed. -/
def walk (next : α → Option α) : Nat → α → Option (List α)
  | 0, _ => none
  | fuel + 1, a =>
      match next a with
      | none => some [a]
      | some b => (walk next fuel b).map (a :: ·)

/-- The walk from the first position comes to the second one. -/
def WalksTo (next : α → Option α) : α → α → Prop :=
  Relation.ReflTransGen fun a b => next a = some b

/-- The walk leaves the first position and comes to the second one. -/
def Leads (next : α → Option α) : α → α → Prop :=
  Relation.TransGen fun a b => next a = some b

section Walk

variable {next : α → Option α} {a b : α} {fuel fuel' : Nat} {l l' : List α}

theorem walk_last
    (hend : next a = none) :
    walk next (fuel + 1) a = some [a] := by
  rw [walk, hend]

theorem walk_step
    (hnext : next a = some b) :
    walk next (fuel + 1) a = (walk next fuel b).map (a :: ·) := by
  rw [walk, hnext]

section

variable (h : walk next fuel a = some l)
include h

/-- A walk has the same positions whatever the number of turns allowed. -/
theorem walk_unique
    (h' : walk next fuel' a = some l') :
    l = l' := by
  induction fuel generalizing a fuel' l l' with
  | zero => cases h
  | succ fuel ih =>
      cases fuel' with
      | zero => cases h'
      | succ fuel' =>
          cases hnext : next a with
          | none =>
              rw [walk_last hnext] at h h'
              exact (Option.some_inj.mp h).symm.trans (Option.some_inj.mp h')
          | some b =>
              rw [walk_step hnext] at h h'
              obtain ⟨r, hr, rfl⟩ := Option.map_eq_some_iff.mp h
              obtain ⟨r', hr', rfl⟩ := Option.map_eq_some_iff.mp h'
              rw [ih hr hr']

theorem walk_starts :
    a ∈ l := by
  cases fuel with
  | zero => cases h
  | succ fuel =>
      cases hnext : next a with
      | none =>
          rw [walk_last hnext] at h
          obtain rfl := Option.some_inj.mp h
          exact List.mem_singleton_self a
      | some b =>
          rw [walk_step hnext] at h
          obtain ⟨r, -, rfl⟩ := Option.map_eq_some_iff.mp h
          exact List.mem_cons_self

/-- Behind each step the rest of the walk is shorter. -/
theorem walk_rest
    (hlead : Leads next a b) :
    ∃ fuel' l', walk next fuel' b = some l' ∧ l'.length < l.length := by
  induction hlead using Relation.TransGen.head_induction_on generalizing fuel l with
  | single hnext =>
      cases fuel with
      | zero => cases h
      | succ fuel =>
          rw [walk_step hnext] at h
          obtain ⟨r, hr, rfl⟩ := Option.map_eq_some_iff.mp h
          exact ⟨fuel, r, hr, Nat.lt_succ_self _⟩
  | head hnext _ ih =>
      cases fuel with
      | zero => cases h
      | succ fuel =>
          rw [walk_step hnext] at h
          obtain ⟨r, hr, rfl⟩ := Option.map_eq_some_iff.mp h
          obtain ⟨fuel', l', hl', hlt⟩ := ih hr
          exact ⟨fuel', l', hl', Nat.lt_succ_of_lt hlt⟩

/-- The positions of a walk are those it comes to. -/
theorem mem_walk_iff :
    b ∈ l ↔ WalksTo next a b := by
  induction fuel generalizing a l with
  | zero => cases h
  | succ fuel ih =>
      cases hnext : next a with
      | none =>
          rw [walk_last hnext] at h
          obtain rfl := Option.some_inj.mp h
          constructor
          case mp =>
            intro hb
            rw [List.mem_singleton.mp hb]
            exact Relation.ReflTransGen.refl
          case mpr =>
            intro hb
            rcases Relation.ReflTransGen.cases_head hb with rfl | ⟨c, hc, -⟩
            · exact List.mem_singleton_self _
            · rw [hnext] at hc
              cases hc
      | some c =>
          rw [walk_step hnext] at h
          obtain ⟨r, hr, rfl⟩ := Option.map_eq_some_iff.mp h
          rw [List.mem_cons, ih hr]
          constructor
          case mp =>
            rintro (rfl | hb)
            · exact Relation.ReflTransGen.refl
            · exact Relation.ReflTransGen.head hnext hb
          case mpr =>
            intro hb
            rcases Relation.ReflTransGen.cases_head hb with rfl | ⟨d, hd, hrest⟩
            · exact Or.inl rfl
            · rw [hnext] at hd
              obtain rfl := Option.some_inj.mp hd
              exact Or.inr hrest

/-- A walk that ends never comes back. -/
theorem not_leads_of_walk
    (hto : WalksTo next a b) :
    ¬ Leads next b b := by
  intro hback
  obtain ⟨fuel', l', hb⟩ : ∃ fuel' l', walk next fuel' b = some l' := by
    rcases Relation.reflTransGen_iff_eq_or_transGen.mp hto with rfl | hlead
    · exact ⟨fuel, l, h⟩
    · obtain ⟨fuel', l', hb, -⟩ := walk_rest h hlead
      exact ⟨fuel', l', hb⟩
  obtain ⟨_, l'', hb', hlt⟩ := walk_rest hb hback
  rw [walk_unique hb hb'] at hlt
  exact absurd hlt (lt_irrefl _)

end

theorem walksTo_of_iterate
    {turns : Nat}
    (h : (fun o : Option α => o.bind next)^[turns] (some a) = some b) :
    WalksTo next a b := by
  induction turns generalizing a with
  | zero =>
      obtain rfl := Option.some_inj.mp h
      exact Relation.ReflTransGen.refl
  | succ turns ih =>
      rw [Function.iterate_succ_apply, Option.bind_some] at h
      cases hnext : next a with
      | none =>
          have hnone : (fun o : Option α => o.bind next)^[turns] none = none :=
            Function.iterate_fixed rfl turns
          rw [hnext, hnone] at h
          cases h
      | some c =>
          rw [hnext] at h
          exact Relation.ReflTransGen.head hnext (ih h)

/-- Among finitely many positions a walk that never comes back ends. -/
theorem exists_walk
    {positions : Finset α}
    (hin : ∀ b, WalksTo next a b → b ∈ positions)
    (hback : ∀ b, WalksTo next a b → ¬ Leads next b b) :
    ∃ fuel l, walk next fuel a = some l := by
  classical
  induction hcard : positions.card using Nat.strong_induction_on generalizing positions a with
  | _ card ih =>
      cases hnext : next a with
      | none => exact ⟨1, [a], walk_last hnext⟩
      | some c =>
          have hmem : a ∈ positions := hin a Relation.ReflTransGen.refl
          -- what follows never includes the position that has been left
          have hrest : ∀ b, WalksTo next c b → b ∈ positions.erase a := by
            intro b hb
            refine Finset.mem_erase.mpr ⟨?_, hin b (Relation.ReflTransGen.head hnext hb)⟩
            rintro rfl
            exact hback _ Relation.ReflTransGen.refl (Relation.TransGen.head' hnext hb)
          have hless : (positions.erase a).card < card := by
            rw [← hcard]
            exact Finset.card_erase_lt_of_mem hmem
          obtain ⟨fuel, l, hl⟩ := ih _ hless hrest
            (fun b hb => hback b (Relation.ReflTransGen.head hnext hb)) rfl
          exact ⟨fuel + 1, a :: l, by rw [walk_step hnext, hl]; rfl⟩

/-- A walk along which a measure decreases ends. -/
theorem exists_walk_of_measure
    {P : α → Prop} {μ : α → Nat}
    (hstep : ∀ a b, P a → next a = some b → P b ∧ μ b < μ a)
    (ha : P a) :
    ∃ fuel l, walk next fuel a = some l := by
  induction hμ : μ a using Nat.strong_induction_on generalizing a with
  | _ n ih =>
      cases hnext : next a with
      | none => exact ⟨1, [a], walk_last hnext⟩
      | some b =>
          obtain ⟨hb, hless⟩ := hstep a b ha hnext
          obtain ⟨fuel, l, hl⟩ := ih (μ b) (hμ ▸ hless) hb rfl
          exact ⟨fuel + 1, a :: l, by rw [walk_step hnext, hl]; rfl⟩

/-- A walk that ends comes to a position without a next one. -/
theorem exists_end_of_walk
    (h : walk next fuel a = some l) :
    ∃ b ∈ l, next b = none := by
  induction fuel generalizing a l with
  | zero => cases h
  | succ fuel ih =>
      cases hnext : next a with
      | none => exact ⟨a, walk_starts h, hnext⟩
      | some c =>
          rw [walk_step hnext] at h
          obtain ⟨r, hr, rfl⟩ := Option.map_eq_some_iff.mp h
          obtain ⟨b, hb, hend⟩ := ih hr
          exact ⟨b, List.mem_cons_of_mem _ hb, hend⟩

end Walk

end Udk
