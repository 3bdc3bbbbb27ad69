import Mathlib.Data.Nat.ModEq
import Mathlib.Tactic

/-!
# One's complement sums

Numbers from 0 to `m` under addition with the carry added back.  Both 0 and `m` stand for
the residue 0; a sum of numbers is 0 only if all of them are.
-/

namespace Udk
namespace OnesComplement

/-- Addition with the carry added back. -/
def carryAdd (m a b : Nat) : Nat :=
  if a + b ≤ m then a + b else a + b - m

/-- The one's complement sum of some words. -/
def carrySum (m : Nat) (words : List Nat) : Nat :=
  words.foldl (carryAdd m) 0

/-- The number from 0 to `m` in which a sum of natural numbers ends. -/
def wrap (m n : Nat) : Nat :=
  if n = 0 then 0 else (n - 1) % m + 1

section Wrap

variable {m n k r c d : Nat}

theorem wrap_le
    (hm : 0 < m) :
    wrap m n ≤ m := by
  have hlt := Nat.mod_lt (n - 1) hm
  rw [wrap]
  split <;> omega

theorem wrap_eq_zero : wrap m n = 0 ↔ n = 0 := by
  rw [wrap]
  split <;> omega

theorem wrap_modEq : wrap m n ≡ n [MOD m] := by
  rw [wrap]
  split
  case isTrue h => rw [h]
  case isFalse h =>
    have hmod := (Nat.mod_modEq (n - 1) m).add_right 1
    rwa [Nat.sub_add_cancel (Nat.one_le_iff_ne_zero.mpr h)] at hmod

/-- A number up to `m` is told by its residue and by whether it is 0. -/
theorem eq_wrap
    (hle : r ≤ m)
    (hmod : r ≡ n [MOD m])
    (hzero : r = 0 ↔ n = 0) :
    r = wrap m n := by
  by_cases hn : n = 0
  · rw [hzero.mpr hn, wrap, if_pos hn]
  · have hr : r ≠ 0 := fun h => hn (hzero.mp h)
    have hpred : r - 1 ≡ n - 1 [MOD m] := by
      refine Nat.ModEq.add_right_cancel' 1 ?_
      rwa [Nat.sub_add_cancel (by omega), Nat.sub_add_cancel (by omega)]
    rw [wrap, if_neg hn, ← hpred, Nat.mod_eq_of_lt (by omega)]
    omega

theorem wrap_of_le
    (hle : n ≤ m) :
    wrap m n = n :=
  (eq_wrap hle (Nat.ModEq.refl n) Iff.rfl).symm

theorem wrap_congr
    (hm : 0 < m)
    (hmod : n ≡ k [MOD m])
    (hzero : n = 0 ↔ k = 0) :
    wrap m n = wrap m k :=
  eq_wrap (wrap_le hm) (wrap_modEq.trans hmod) (wrap_eq_zero.trans hzero)

/-- Adding one's complement sums is adding the numbers. -/
theorem carryAdd_wrap
    (hm : 0 < m) :
    carryAdd m (wrap m n) (wrap m k) = wrap m (n + k) := by
  have hn : wrap m n ≤ m := wrap_le hm
  have hk : wrap m k ≤ m := wrap_le hm
  have hmod : wrap m n + wrap m k ≡ n + k [MOD m] := wrap_modEq.add wrap_modEq
  have hzero : wrap m n + wrap m k = 0 ↔ n + k = 0 := by
    rw [Nat.add_eq_zero_iff, Nat.add_eq_zero_iff, wrap_eq_zero, wrap_eq_zero]
  rw [carryAdd]
  split
  case isTrue h => exact eq_wrap h hmod hzero
  case isFalse h =>
    refine eq_wrap (by omega) ?_ (by omega)
    have hback : wrap m n + wrap m k - m + m = wrap m n + wrap m k := Nat.sub_add_cancel (by omega)
    have hsame : wrap m n + wrap m k - m + m ≡ wrap m n + wrap m k - m [MOD m] :=
      Nat.add_modEq_right
    rw [hback] at hsame
    exact hsame.symm.trans hmod

theorem carrySum_eq
    (words : List Nat)
    (hm : 0 < m)
    (hle : ∀ w ∈ words, w ≤ m) :
    carrySum m words = wrap m words.sum := by
  induction words using List.reverseRecOn with
  | nil => rfl
  | append_singleton words w ih =>
      have hw := hle w (List.mem_append_right _ List.mem_cons_self)
      have hprev := ih fun v hv => hle v (List.mem_append_left _ hv)
      rw [carrySum] at hprev ⊢
      rw [List.foldl_append, List.foldl_cons, List.foldl_nil, hprev, List.sum_append,
        List.sum_singleton, ← carryAdd_wrap hm, wrap_of_le hw]

/-- The high part of a number can be added to its low part. -/
theorem wrap_fold
    (hm : 0 < m) :
    wrap m (n % (m + 1) + n / (m + 1)) = wrap m n := by
  have hparts := Nat.div_add_mod n (m + 1)
  generalize n / (m + 1) = high at hparts ⊢
  generalize n % (m + 1) = low at hparts ⊢
  have hsum : low + high + m * high = n := by
    rw [← hparts, Nat.add_mul, Nat.one_mul]
    omega
  have hmod : low + high + m * high ≡ low + high [MOD m] :=
    Nat.add_modulus_mul_modEq_iff.mpr (Nat.ModEq.refl _)
  rw [hsum] at hmod
  refine wrap_congr hm hmod.symm ⟨fun h => ?_, fun h => ?_⟩
  · have hhigh : high = 0 := by omega
    rw [hhigh, Nat.mul_zero] at hsum
    omega
  · omega

/-- Multiplying by a divisor of `m + 1` exchanges the parts of a number. -/
theorem rotate_eq_wrap
    (hparts : m + 1 = c * d)
    (hle : r ≤ m) :
    r % d * c + r / d = wrap m (c * r) := by
  have hpos : 0 < c * d := by omega
  have hc : 0 < c := Nat.pos_of_mul_pos_right hpos
  have hd : 0 < d := Nat.pos_of_mul_pos_left hpos
  have hlow : r % d + 1 ≤ d := Nat.mod_lt r hd
  have hhigh : r / d + 1 ≤ c := (Nat.div_lt_iff_lt_mul hd).mpr (by omega)
  have hr := Nat.div_add_mod r d
  generalize r / d = high at hhigh hr ⊢
  generalize r % d = low at hlow hr ⊢
  have hmul : c * r = low * c + high + m * high := by
    have hexpand : c * r + high = low * c + high + (m + 1) * high := by
      rw [← hr, hparts]
      ring
    rw [Nat.add_mul, Nat.one_mul] at hexpand
    omega
  refine eq_wrap ?_ ?_ ?_
  · have hbound : (low + 1) * c ≤ d * c := Nat.mul_le_mul_right c hlow
    rw [Nat.add_mul, Nat.one_mul, Nat.mul_comm d c, ← hparts] at hbound
    omega
  · rw [hmul]
    exact (Nat.add_modulus_mul_modEq_iff.mpr (Nat.ModEq.refl _)).symm
  · rw [Nat.mul_eq_zero, or_iff_right hc.ne', ← hr, Nat.add_eq_zero_iff, Nat.add_eq_zero_iff,
      Nat.mul_eq_zero, Nat.mul_eq_zero, or_iff_left hc.ne', or_iff_right hd.ne', and_comm]

end Wrap

end OnesComplement
end Udk
