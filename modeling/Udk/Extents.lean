import Mathlib.Data.List.TakeWhile
import Mathlib.Tactic

/-!
# Extents

Elements that hold the positions from a first one up to an end, which is excluded and may
be the first.  A list of them that is in order chains up to the end of a range as soon as
its lengths add up to that of the range.
-/

namespace Udk

open List

universe u

/-- An element with its positions. -/
class Extent (α : Type u) where
  first : α → Int
  stop : α → Int

namespace Extents

open Extent

variable {α : Type u} [Extent α]

/-- The elements follow each other without overlap. -/
def Ordered (l : List α) : Prop :=
  (∀ a ∈ l, first a ≤ stop a) ∧ l.Pairwise fun a b => stop a ≤ first b

/-- The lengths added up. -/
def total (l : List α) : Int :=
  (l.map fun a => stop a - first a).sum

/-- The elements lie in a range. -/
def Within (lo hi : Int) (l : List α) : Prop :=
  ∀ a ∈ l, lo ≤ first a ∧ stop a ≤ hi

/-- A position is held by an element. -/
def Held (l : List α) (x : Int) : Prop :=
  ∃ a ∈ l, first a ≤ x ∧ x < stop a

/-- The elements follow each other without gap. -/
def Chained : Int → List α → Int → Prop
  | lo, [], hi => lo = hi
  | lo, a :: l, hi => first a = lo ∧ Chained (stop a) l hi

section Lists

variable {a : α} {l l₁ l₂ : List α} {lo hi x : Int}

@[simp] theorem total_nil : total ([] : List α) = 0 := rfl

@[simp] theorem total_cons : total (a :: l) = stop a - first a + total l := by
  simp only [total, map_cons, sum_cons]

@[simp] theorem total_append : total (l₁ ++ l₂) = total l₁ + total l₂ := by
  simp only [total, map_append, sum_append]

theorem held_cons : Held (a :: l) x ↔ (first a ≤ x ∧ x < stop a) ∨ Held l x := by
  simp only [Held, mem_cons, exists_eq_or_imp]

theorem held_append : Held (l₁ ++ l₂) x ↔ Held l₁ x ∨ Held l₂ x := by
  simp only [Held, mem_append, or_and_right, exists_or]

theorem not_held_nil : ¬ Held ([] : List α) x := by
  rintro ⟨a, ha, -⟩
  exact not_mem_nil ha

theorem ordered_nil : Ordered ([] : List α) :=
  ⟨fun _ ha => absurd ha not_mem_nil, List.Pairwise.nil⟩

theorem ordered_append :
    Ordered (l₁ ++ l₂) ↔ Ordered l₁ ∧ Ordered l₂ ∧ ∀ a ∈ l₁, ∀ b ∈ l₂, stop a ≤ first b := by
  simp only [Ordered, forall_mem_append, pairwise_append]
  tauto

theorem ordered_cons :
    Ordered (a :: l) ↔ first a ≤ stop a ∧ (∀ b ∈ l, stop a ≤ first b) ∧ Ordered l := by
  simp only [Ordered, forall_mem_cons, pairwise_cons]
  tauto

theorem Ordered.insert
    (h : Ordered (l₁ ++ l₂))
    (ha : first a ≤ stop a)
    (hbefore : ∀ b ∈ l₁, stop b ≤ first a)
    (hbehind : ∀ b ∈ l₂, stop a ≤ first b) :
    Ordered (l₁ ++ a :: l₂) := by
  obtain ⟨h₁, h₂, hbetween⟩ := ordered_append.mp h
  refine ordered_append.mpr ⟨h₁, ordered_cons.mpr ⟨ha, hbehind, h₂⟩, fun b hb => ?_⟩
  exact forall_mem_cons.mpr ⟨hbefore b hb, hbetween b hb⟩

theorem Ordered.sublist
    (h : Ordered l)
    (hsub : l₁.Sublist l) :
    Ordered l₁ :=
  ⟨fun a ha => h.1 a (hsub.subset ha), h.2.sublist hsub⟩

end Lists

section Chains

variable {a : α} {l l₁ l₂ : List α} {lo hi x : Int}

theorem Ordered.cons_within
    (h : Ordered (a :: l))
    (hwithin : Within lo hi (a :: l)) :
    lo ≤ first a ∧ first a ≤ stop a ∧ stop a ≤ hi ∧ Ordered l ∧ Within (stop a) hi l := by
  obtain ⟨ha, hbehind, hrest⟩ := ordered_cons.mp h
  obtain ⟨hlow, hhigh⟩ := hwithin a mem_cons_self
  exact ⟨hlow, ha, hhigh, hrest,
    fun b hb => ⟨hbehind b hb, (hwithin b (mem_cons_of_mem _ hb)).2⟩⟩

/-- In a range, the lengths add up to that of the range at most. -/
theorem Ordered.total_le
    (h : Ordered l)
    (hwithin : Within lo hi l)
    (hle : lo ≤ hi) :
    total l ≤ hi - lo := by
  induction l generalizing lo with
  | nil =>
      rw [total_nil]
      omega
  | cons a l ih =>
      obtain ⟨hlow, _, hhigh, hrest, hrestWithin⟩ := h.cons_within hwithin
      have hsum := ih hrest hrestWithin hhigh
      rw [total_cons]
      omega

/-- Lengths that add up to that of the range leave no gap. -/
theorem Ordered.chained
    (h : Ordered l)
    (hwithin : Within lo hi l)
    (hle : lo ≤ hi)
    (htotal : hi - lo ≤ total l) :
    Chained lo l hi := by
  induction l generalizing lo with
  | nil =>
      rw [total_nil] at htotal
      exact le_antisymm hle (by omega)
  | cons a l ih =>
      obtain ⟨hlow, ha, hhigh, hrest, hrestWithin⟩ := h.cons_within hwithin
      have hsum := hrest.total_le hrestWithin hhigh
      rw [total_cons] at htotal
      have hstart : first a = lo := by omega
      exact ⟨hstart, ih hrest hrestWithin hhigh (by omega)⟩

theorem Chained.total_eq
    (h : Chained lo l hi) :
    total l = hi - lo := by
  induction l generalizing lo with
  | nil =>
      rw [total_nil, show lo = hi from h]
      omega
  | cons a l ih =>
      have hsum := ih h.2
      have hstart : first a = lo := h.1
      rw [total_cons]
      omega

/-- A chain holds every position of its range. -/
theorem Chained.held
    (h : Chained lo l hi)
    (hlow : lo ≤ x)
    (hhigh : x < hi) :
    Held l x := by
  induction l generalizing lo with
  | nil =>
      have heq : lo = hi := h
      omega
  | cons a l ih =>
      obtain ⟨hstart, hrest⟩ := h
      rw [held_cons]
      rcases lt_or_ge x (stop a) with hlt | hge
      · exact Or.inl ⟨by omega, hlt⟩
      · exact Or.inr (ih hrest hge)

/-- Elements in order that hold every position of a range form a chain. -/
theorem Ordered.chained_of_held
    (h : Ordered l)
    (hwithin : Within lo hi l)
    (hle : lo ≤ hi)
    (hheld : ∀ x, lo ≤ x → x < hi → Held l x) :
    Chained lo l hi := by
  induction l generalizing lo with
  | nil =>
      by_contra hne
      have hlt : lo < hi := lt_of_le_of_ne hle hne
      exact not_held_nil (hheld lo (le_refl lo) hlt)
  | cons a l ih =>
      obtain ⟨hlow, ha, hhigh, hrest, hrestWithin⟩ := h.cons_within hwithin
      have hstart : first a = lo := by
        rcases lt_or_eq_of_le hle with hlt | heq
        · -- a position in front of `a` is held by no element
          rcases held_cons.mp (hheld lo (le_refl lo) hlt) with hheld | ⟨b, hb, hb', -⟩
          · exact le_antisymm hheld.1 hlow
          · have hab := (hrestWithin b hb).1
            omega
        · omega
      refine ⟨hstart, ih hrest hrestWithin hhigh fun x hx hx' => ?_⟩
      rcases held_cons.mp (hheld x (by omega) hx') with hheld | hheld
      · exact absurd hheld.2 (not_lt.mpr hx)
      · exact hheld

theorem Chained.getLast
    (h : Chained lo l hi)
    (hne : l ≠ []) :
    stop (l.getLast hne) = hi := by
  induction l generalizing lo with
  | nil => exact absurd rfl hne
  | cons a l ih =>
      cases l with
      | nil => exact h.2
      | cons b l =>
          rw [getLast_cons (cons_ne_nil b l)]
          exact ih h.2 (cons_ne_nil b l)

/-- No element starts behind the last one. -/
theorem Ordered.first_le_getLast
    {p : α}
    (h : Ordered l)
    (hlast : l.getLast? = some p)
    (ha : a ∈ l) :
    first a ≤ first p := by
  rcases eq_nil_or_concat l with rfl | ⟨front, b, rfl⟩
  · cases hlast
  · rw [concat_eq_append] at h hlast ha
    rw [getLast?_concat, Option.some_inj] at hlast
    subst hlast
    obtain ⟨hfront, -, hbetween⟩ := ordered_append.mp h
    rcases mem_append.mp ha with ha | ha
    · exact le_trans (hfront.1 a ha) (hbetween a ha b mem_cons_self)
    · rw [mem_singleton.mp ha]

end Chains

section Places

variable {a : α} {l : List α} {lo hi x position : Int}

/-- The elements that start up to a position. -/
def inFront (position : Int) (l : List α) : List α :=
  l.takeWhile fun a => decide (first a ≤ position)

/-- The elements behind these. -/
def behind (position : Int) (l : List α) : List α :=
  l.dropWhile fun a => decide (first a ≤ position)

theorem inFront_append_behind : inFront position l ++ behind position l = l :=
  takeWhile_append_dropWhile

theorem takeWhile_not_lt :
    (l.takeWhile fun a => !decide (position < first a)) = inFront position l ∧
      (l.dropWhile fun a => !decide (position < first a)) = behind position l := by
  have htest : (fun a : α => !decide (position < first a)) =
      fun a => decide (first a ≤ position) := by
    funext a
    rw [← decide_not]
    exact decide_eq_decide.mpr not_lt
  rw [htest]
  exact ⟨rfl, rfl⟩

theorem mem_inFront
    (ha : a ∈ inFront position l) :
    first a ≤ position := by
  have hdecide := mem_takeWhile_imp ha
  exact of_decide_eq_true hdecide

theorem Ordered.mem_behind
    (h : Ordered l)
    (ha : a ∈ behind position l) :
    position < first a := by
  have hsub : Ordered (behind position l) := h.sublist (dropWhile_sublist _)
  cases hlist : behind position l with
  | nil =>
      rw [hlist] at ha
      exact absurd ha not_mem_nil
  | cons b rest =>
      have hb : ¬ first b ≤ position := by
        have hhead := head?_dropWhile_not (fun a => decide (first a ≤ position)) l
        rw [show l.dropWhile (fun a => decide (first a ≤ position)) = b :: rest from hlist] at hhead
        simpa using hhead
      rw [hlist] at ha hsub
      obtain ⟨hb', hbehind, -⟩ := ordered_cons.mp hsub
      rcases mem_cons.mp ha with rfl | ha
      · exact not_le.mp hb
      · have hab := hbehind a ha
        omega

/-- Of the elements in front, only the last one may reach beyond the position. -/
theorem Ordered.stop_inFront
    {bound : Int}
    (h : Ordered l)
    (hposition : position ≤ bound)
    (hlast : ∀ p, (inFront position l).getLast? = some p → stop p ≤ bound)
    (ha : a ∈ inFront position l) :
    stop a ≤ bound := by
  have hsub : Ordered (inFront position l) := h.sublist (takeWhile_sublist _)
  have hstarts : ∀ b ∈ inFront position l, first b ≤ position := fun b hb => mem_inFront hb
  generalize inFront position l = l' at *
  rcases eq_nil_or_concat l' with rfl | ⟨front, p, rfl⟩
  · exact absurd ha not_mem_nil
  · rw [concat_eq_append] at *
    have hp : stop p ≤ bound := hlast p (by rw [getLast?_concat])
    rcases mem_append.mp ha with ha | ha
    · have hap := (ordered_append.mp hsub).2.2 a ha p mem_cons_self
      have hpos := hstarts p (mem_append_right _ mem_cons_self)
      omega
    · rw [mem_singleton.mp ha]
      exact hp

end Places

end Extents
end Udk
