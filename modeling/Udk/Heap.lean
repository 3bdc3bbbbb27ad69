import Mathlib.Logic.Function.Basic
import Mathlib.Tactic

/-!
# Objects that are allocated and freed

An object is named by a number that is not used for another object later, so that a name
tells whether its object is live, has been freed, or was never allocated.  Zero names no
object.
-/

namespace Udk

universe u

/-- The live objects and the names in use so far. -/
structure Heap (α : Type u) where
  next : Nat
  get : Nat → Option α
  next_pos : 0 < next
  get_zero : get 0 = none
  get_next : ∀ k, next ≤ k → get k = none

namespace Heap

variable {α : Type u} {heap : Heap α} {k k' : Nat} {a a' : α}

/-- No object yet. -/
def empty : Heap α where
  next := 1
  get := fun _ => none
  next_pos := Nat.one_pos
  get_zero := rfl
  get_next := fun _ _ => rfl

/-- A name whose object has been freed. -/
def Freed (heap : Heap α) (k : Nat) : Prop :=
  k ≠ 0 ∧ k < heap.next ∧ heap.get k = none

instance : Decidable (heap.Freed k) :=
  inferInstanceAs (Decidable (k ≠ 0 ∧ k < heap.next ∧ heap.get k = none))

/-- A new object. -/
def alloc (heap : Heap α) (a : α) : Heap α where
  next := heap.next + 1
  get := Function.update heap.get heap.next (some a)
  next_pos := Nat.succ_pos heap.next
  get_zero := by rw [Function.update_of_ne (Nat.ne_of_lt heap.next_pos), heap.get_zero]
  get_next := by
    intro k hk
    rw [Function.update_of_ne (by omega), heap.get_next k (by omega)]

theorem lt_next
    (hget : heap.get k = some a) :
    k < heap.next := by
  by_contra hle
  rw [heap.get_next k (Nat.le_of_not_lt hle)] at hget
  cases hget

theorem ne_zero
    (hget : heap.get k = some a) :
    k ≠ 0 := by
  rintro rfl
  rw [heap.get_zero] at hget
  cases hget

/-- A live object with a new content; nothing when there is no such object. -/
def set (heap : Heap α) (k : Nat) (a : α) : Heap α :=
  if hlive : (heap.get k).isSome then
    { next := heap.next
      get := Function.update heap.get k (some a)
      next_pos := heap.next_pos
      get_zero := by
        obtain ⟨old, hold⟩ := Option.isSome_iff_exists.mp hlive
        rw [Function.update_of_ne (ne_zero hold).symm, heap.get_zero]
      get_next := by
        intro k' hk'
        obtain ⟨old, hold⟩ := Option.isSome_iff_exists.mp hlive
        have hlt := lt_next hold
        rw [Function.update_of_ne (by omega), heap.get_next k' hk'] }
  else heap

/-- An object is freed. -/
def free (heap : Heap α) (k : Nat) : Heap α where
  next := heap.next
  get := Function.update heap.get k none
  next_pos := heap.next_pos
  get_zero := by
    by_cases hk : k = 0
    · rw [hk, Function.update_self]
    · rw [Function.update_of_ne (Ne.symm hk), heap.get_zero]
  get_next := by
    intro k' hk'
    by_cases hk : k' = k
    · rw [hk, Function.update_self]
    · rw [Function.update_of_ne hk, heap.get_next k' hk']

@[simp] theorem get_alloc_next : (heap.alloc a).get heap.next = some a :=
  Function.update_self ..

theorem get_alloc_of_ne
    (hne : k ≠ heap.next) :
    (heap.alloc a).get k = heap.get k :=
  Function.update_of_ne hne ..

/-- What is live after an allocation. -/
theorem get_alloc_iff :
    (heap.alloc a).get k = some a' ↔
      (k = heap.next ∧ a' = a) ∨ (k ≠ heap.next ∧ heap.get k = some a') := by
  by_cases hk : k = heap.next
  · subst hk
    rw [get_alloc_next, Option.some.injEq]
    exact ⟨fun h => Or.inl ⟨rfl, h.symm⟩, fun h => h.elim (fun h => h.2.symm)
      fun h => absurd rfl h.1⟩
  · rw [get_alloc_of_ne hk]
    exact ⟨fun h => Or.inr ⟨hk, h⟩, fun h => h.elim (fun h => absurd h.1 hk) fun h => h.2⟩

@[simp] theorem next_set : (heap.set k a).next = heap.next := by
  rw [set]
  split
  · rfl
  · rfl

theorem get_set_self
    (hget : heap.get k = some a') :
    (heap.set k a).get k = some a := by
  rw [set, dif_pos (Option.isSome_iff_exists.mpr ⟨a', hget⟩)]
  exact Function.update_self ..

theorem get_set_of_ne
    (hne : k' ≠ k) :
    (heap.set k a).get k' = heap.get k' := by
  rw [set]
  split
  · exact Function.update_of_ne hne ..
  · rfl

@[simp] theorem get_free_self : (heap.free k).get k = none :=
  Function.update_self ..

theorem get_free_of_ne
    (hne : k' ≠ k) :
    (heap.free k).get k' = heap.get k' :=
  Function.update_of_ne hne ..

/-- What is live after an object has been freed. -/
theorem get_free_iff : (heap.free k).get k' = some a ↔ k' ≠ k ∧ heap.get k' = some a := by
  by_cases hk : k' = k
  · subst hk
    rw [get_free_self]
    exact ⟨fun h => (nomatch h), fun h => absurd rfl h.1⟩
  · rw [get_free_of_ne hk]
    exact ⟨fun h => ⟨hk, h⟩, fun h => h.2⟩

/-- What is live after a change of an object. -/
theorem get_set_iff
    {b : α}
    (hget : heap.get k = some a') :
    (heap.set k a).get k' = some b ↔
      (k' = k ∧ b = a) ∨ (k' ≠ k ∧ heap.get k' = some b) := by
  by_cases hk : k' = k
  · subst hk
    rw [get_set_self hget, Option.some.injEq]
    constructor
    case mp => exact fun h => Or.inl ⟨rfl, h.symm⟩
    case mpr =>
      rintro (⟨-, rfl⟩ | ⟨hne, -⟩)
      · rfl
      · exact absurd rfl hne
  · rw [get_set_of_ne hk]
    exact ⟨fun h => Or.inr ⟨hk, h⟩, fun h => h.elim (fun h => absurd h.1 hk) fun h => h.2⟩

end Heap
end Udk
