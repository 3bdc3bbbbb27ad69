import Mathlib.Data.List.Basic
import Mathlib.Tactic

/-!
# Ordered forests and counted search

A forest is a list of trees, written as its first tree, whose root stands before the trees below
it, and the trees after that one.  `search` walks the forest depth first with the number of hits
still to skip; a part without the wanted node hands the rest of the count on.  `search_eq` says
that this is an index into the hits of the preorder.
-/

namespace Udk

universe u

/-- An ordered forest: the first root, the trees below it, the trees after it. -/
inductive Forest (α : Type u)
  | nil
  | cons (root : α) (inner rest : Forest α)
  deriving DecidableEq, Repr

namespace Forest

variable {α : Type u} {p : α → Bool} {f : Forest α}

/-- The nodes of a forest, each before the ones below it. -/
def preorder : Forest α → List α
  | nil => []
  | cons root inner rest => root :: (inner.preorder ++ rest.preorder)

@[simp] theorem preorder_nil :
    (nil : Forest α).preorder = [] := rfl

@[simp] theorem preorder_cons
    (root : α) (inner rest : Forest α) :
    (cons root inner rest).preorder = root :: (inner.preorder ++ rest.preorder) := rfl

/-- The hits of a forest in preorder. -/
def hits (p : α → Bool) (f : Forest α) : List α :=
  f.preorder.filter p

@[simp] theorem hits_nil
    (p : α → Bool) :
    hits p (nil : Forest α) = [] := rfl

theorem hits_cons
    (p : α → Bool) (root : α) (inner rest : Forest α) :
    hits p (cons root inner rest) =
      (if p root then [root] else []) ++ (hits p inner ++ hits p rest) := by
  unfold hits
  rw [preorder_cons, List.filter_cons, List.filter_append]
  split
  · rfl
  · rfl

/-- Go on with the number of hits still to skip, if nothing was found. -/
def orElse (x : α ⊕ Nat) (go : Nat → α ⊕ Nat) : α ⊕ Nat :=
  match x with
  | .inl a => .inl a
  | .inr m => go m

@[simp] theorem orElse_inl
    (a : α) (go : Nat → α ⊕ Nat) :
    orElse (.inl a) go = .inl a := rfl

@[simp] theorem orElse_inr
    (m : Nat) (go : Nat → α ⊕ Nat) :
    orElse (.inr m) go = go m := rfl

/-- Look for the hit behind `n` others: the node, or the number of hits still to skip. -/
def search (p : α → Bool) : Forest α → Nat → α ⊕ Nat
  | nil, n => .inr n
  | cons root inner rest, n =>
      if p root && n == 0 then .inl root
      else
        orElse (inner.search p (if p root then n - 1 else n)) fun m => rest.search p m

/-- What a counted walk over a list of hits gives. -/
def pick (l : List α) (n : Nat) : α ⊕ Nat :=
  match l[n]? with
  | some a => .inl a
  | none => .inr (n - l.length)

theorem pick_append
    (l l' : List α) (n : Nat) :
    pick (l ++ l') n = orElse (pick l n) (pick l') := by
  rcases Nat.lt_or_ge n l.length with hlt | hge
  · simp only [pick, List.getElem?_append_left hlt, List.getElem?_eq_getElem hlt, orElse_inl]
  · have hnone : l[n]? = none := List.getElem?_eq_none hge
    simp only [pick, List.getElem?_append_right hge, hnone, List.length_append, orElse_inr]
    split
    · rfl
    · rw [Nat.sub_sub]

/-- The counted search is an index into the hits of the preorder. -/
theorem search_eq
    (p : α → Bool) (f : Forest α) (n : Nat) :
    f.search p n = pick (f.hits p) n := by
  induction f generalizing n with
  | nil => simp [search, pick]
  | cons root inner rest ihinner ihrest =>
      have htail : ∀ m, orElse (inner.search p m) (fun k => rest.search p k)
          = pick (hits p inner ++ hits p rest) m := by
        intro m
        rw [pick_append, ihinner]
        cases pick (hits p inner) m with
        | inl a => rfl
        | inr k => exact ihrest k
      rw [search, htail, hits_cons]
      by_cases hp : p root = true
      · cases n with
        | zero => simp [hp, pick]
        | succ n =>
            rw [if_pos hp, if_pos hp, pick_append [root]]
            simp [pick]
      · simp [hp]

/-- A search never raises the number of hits to skip. -/
theorem search_le
    {n m : Nat}
    (h : f.search p n = .inr m) :
    m ≤ n := by
  rw [search_eq, pick] at h
  split at h
  · exact absurd h (by simp)
  · rw [← Sum.inr.inj h]
    exact Nat.sub_le _ _

theorem search_eq_of_getElem
    {n : Nat} {a : α}
    (h : (f.hits p)[n]? = some a) :
    f.search p n = .inl a := by
  rw [search_eq, pick, h]

theorem search_eq_of_none
    {n : Nat}
    (h : (f.hits p)[n]? = none) :
    f.search p n = .inr (n - (f.hits p).length) := by
  rw [search_eq, pick, h]

end Forest

end Udk
