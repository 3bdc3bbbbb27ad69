import Mathlib.Data.List.TakeWhile
import Mathlib.Tactic

/-!
# Search in a bucket

The first entry that passes a test, with the entries in front of it and behind it.
-/

namespace Udk
namespace NetLib

universe u

variable {α : Type u} {test : α → Bool} {entry : α} {before after bucket : List α}

theorem takeWhile_found
    (hbefore : ∀ e ∈ before, test e = false)
    (hentry : test entry = true) :
    ((before ++ entry :: after).takeWhile fun e => !test e) = before := by
  have hpass : ∀ e ∈ before, (!test e) = true := fun e he => by
    rw [hbefore e he]
    rfl
  have hstop : ¬ (!test entry) = true := by
    rw [hentry]
    exact Bool.false_ne_true
  rw [List.takeWhile_append_of_pos hpass, List.takeWhile_cons_of_neg (p := fun e => !test e) hstop,
    List.append_nil]

theorem dropWhile_found
    (hbefore : ∀ e ∈ before, test e = false)
    (hentry : test entry = true) :
    ((before ++ entry :: after).dropWhile fun e => !test e) = entry :: after := by
  have hpass : ∀ e ∈ before, (!test e) = true := fun e he => by
    rw [hbefore e he]
    rfl
  have hstop : ¬ (!test entry) = true := by
    rw [hentry]
    exact Bool.false_ne_true
  rw [List.dropWhile_append_of_pos hpass, List.dropWhile_cons_of_neg (p := fun e => !test e) hstop]

theorem dropWhile_none
    (hnone : ∀ e ∈ bucket, test e = false) :
    (bucket.dropWhile fun e => !test e) = [] := by
  refine List.dropWhile_eq_nil_iff.mpr fun e he => ?_
  rw [hnone e he]
  rfl

theorem find?_found
    (hbefore : ∀ e ∈ before, test e = false)
    (hentry : test entry = true) :
    (before ++ entry :: after).find? test = some entry := by
  have hnone : before.find? test = none :=
    List.find?_eq_none.mpr fun e he => by rw [hbefore e he]; exact Bool.false_ne_true
  rw [List.find?_append, hnone, Option.none_or, List.find?_cons, hentry]

theorem find?_none
    (hnone : ∀ e ∈ bucket, test e = false) :
    bucket.find? test = none :=
  List.find?_eq_none.mpr fun e he => by rw [hnone e he]; exact Bool.false_ne_true

end NetLib
end Udk
