import Mathlib.Data.List.Basic
import Mathlib.Tactic

/-!
# Sorting by exchange

Two nested loops: each place is compared with every later one and exchanged with it if
the key there is smaller.  A pass leaves a smallest key in its place; the passes leave a
sorted permutation.
-/

namespace Udk

open List

universe u

section ExchangeSort

variable {α : Type u} (key : α → Nat)

/-- The inner loop at a place that holds `x`: what it holds afterwards, and what the later
places hold. -/
def exchangePass : α → List α → α × List α
  | x, [] => (x, [])
  | x, y :: ys =>
      if key x > key y then ((exchangePass y ys).1, x :: (exchangePass y ys).2)
      else ((exchangePass x ys).1, y :: (exchangePass x ys).2)

/-- The outer loop over so many places. -/
def exchangeSortFor : Nat → List α → List α
  | 0, l => l
  | _ + 1, [] => []
  | n + 1, x :: xs => (exchangePass key x xs).1 :: exchangeSortFor n (exchangePass key x xs).2

/-- The outer loop. -/
def exchangeSort (l : List α) : List α :=
  exchangeSortFor key l.length l

theorem exchangePass_perm
    (x : α) (l : List α) :
    ((exchangePass key x l).1 :: (exchangePass key x l).2).Perm (x :: l) := by
  induction l generalizing x with
  | nil => exact List.Perm.refl _
  | cons y ys ih =>
      rw [exchangePass]
      split
      · exact (List.Perm.swap _ _ _).trans ((ih y).cons x)
      · exact (List.Perm.swap _ _ _).trans (((ih x).cons y).trans (List.Perm.swap _ _ _))

/-- A pass leaves a smallest key in its place. -/
theorem exchangePass_le
    (x : α) (l : List α) :
    ∀ y ∈ x :: l, key (exchangePass key x l).1 ≤ key y := by
  induction l generalizing x with
  | nil =>
      intro y hy
      rw [mem_singleton.mp hy]
      exact le_rfl
  | cons z zs ih =>
      intro y hy
      rw [exchangePass]
      split
      case isTrue hlt =>
        rcases mem_cons.mp hy with rfl | hy
        · exact (ih z z mem_cons_self).trans hlt.le
        · exact ih z y hy
      case isFalse hge =>
        rcases mem_cons.mp hy with rfl | hy
        · exact ih y y mem_cons_self
        · rcases mem_cons.mp hy with rfl | hy
          · exact (ih x x mem_cons_self).trans (not_lt.mp hge)
          · exact ih x y (mem_cons_of_mem _ hy)

theorem exchangeSortFor_perm
    (n : Nat) (l : List α) :
    (exchangeSortFor key n l).Perm l := by
  induction n generalizing l with
  | zero => exact List.Perm.refl _
  | succ n ih =>
      cases l with
      | nil => exact List.Perm.refl _
      | cons x xs => exact ((ih _).cons _).trans (exchangePass_perm key x xs)

theorem exchangeSort_perm
    (l : List α) :
    (exchangeSort key l).Perm l :=
  exchangeSortFor_perm key l.length l

theorem exchangeSortFor_sorted
    {n : Nat} {l : List α}
    (hn : l.length ≤ n) :
    (exchangeSortFor key n l).Pairwise (fun a b => key a ≤ key b) := by
  induction n generalizing l with
  | zero =>
      rw [length_eq_zero_iff.mp (Nat.le_zero.mp hn)]
      exact List.Pairwise.nil
  | succ n ih =>
      cases l with
      | nil => exact List.Pairwise.nil
      | cons x xs =>
          have hperm := exchangePass_perm key x xs
          have hlen : (exchangePass key x xs).2.length ≤ n := by
            have := hperm.length_eq
            simp only [length_cons] at this hn
            omega
          refine pairwise_cons.mpr ⟨fun y hy => ?_, ih hlen⟩
          refine exchangePass_le key x xs y (hperm.mem_iff.mp (mem_cons_of_mem _ ?_))
          exact (exchangeSortFor_perm key n _).mem_iff.mp hy

theorem exchangeSort_sorted
    (l : List α) :
    (exchangeSort key l).Pairwise (fun a b => key a ≤ key b) :=
  exchangeSortFor_sorted key le_rfl

end ExchangeSort

end Udk
