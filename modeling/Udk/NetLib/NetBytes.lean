import Mathlib.Data.List.Basic
import Mathlib.Tactic

/-!
# Net buffers as byte strings

What the users of a net buffer see of it: its bytes.  `NetbufTrim` looks for a block that
is not empty, so that it has no result for a buffer without bytes.
-/

namespace Udk
namespace NetLib

/-- `(UINT32) x`. -/
def toUint32 (x : Int) : Nat :=
  (x % 2 ^ 32).toNat

/-- `NetbufTrim`; none when no block is left to stop at. -/
def trimBytes (data : List UInt8) (len : Nat) (fromHead : Bool) : Option (List UInt8) :=
  if data = [] then none
  else
    let len := if len > data.length then data.length else len
    some (if fromHead then data.drop len else data.take (data.length - len))

/-- The bytes of a payload from one position up to another. -/
def slice (payload : List UInt8) (lo hi : Int) : List UInt8 :=
  (payload.drop lo.toNat).take (hi - lo).toNat

section Slice

variable {payload data : List UInt8} {lo mid hi x : Int} {len : Nat}

theorem toUint32_of_range
    (hlow : 0 ≤ x)
    (hhigh : x < 2 ^ 32) :
    toUint32 x = x.toNat := by
  rw [toUint32, Int.emod_eq_of_lt hlow hhigh]

theorem length_slice
    (hlow : 0 ≤ lo)
    (hle : lo ≤ hi)
    (hhigh : hi ≤ payload.length) :
    ((slice payload lo hi).length : Int) = hi - lo := by
  rw [slice, List.length_take, List.length_drop]
  omega

theorem slice_append
    (hlow : 0 ≤ lo)
    (hlo : lo ≤ mid)
    (hhi : mid ≤ hi) :
    slice payload lo mid ++ slice payload mid hi = slice payload lo hi := by
  have hdrop : payload.drop mid.toNat = (payload.drop lo.toNat).drop (mid - lo).toNat := by
    rw [List.drop_drop]
    congr 1
    omega
  have hlen : (hi - lo).toNat = (mid - lo).toNat + (hi - mid).toNat := by omega
  rw [slice, slice, slice, hdrop, hlen, List.take_add]

theorem slice_self : slice payload lo lo = [] := by
  rw [slice, sub_self]
  rfl

theorem slice_all : slice payload 0 payload.length = payload := by
  simp only [slice, Int.toNat_zero, List.drop_zero, sub_zero, Int.toNat_natCast, List.take_length]

theorem trimBytes_slice
    (hlow : 0 ≤ lo)
    (hlo : lo ≤ mid)
    (hhi : mid < hi)
    (hhigh : hi ≤ payload.length) :
    trimBytes (slice payload lo hi) (mid - lo).toNat true = some (slice payload mid hi) := by
  have hlength := length_slice hlow (by omega : lo ≤ hi) hhigh
  have hne : slice payload lo hi ≠ [] := by
    intro heq
    rw [heq, List.length_nil] at hlength
    omega
  have hshort : ¬ (mid - lo).toNat > (slice payload lo hi).length := by omega
  have hfront := length_slice hlow hlo (by omega : mid ≤ payload.length)
  have hsplit := @slice_append payload lo mid hi hlow hlo (le_of_lt hhi)
  have hcount : (mid - lo).toNat = (slice payload lo mid).length := by omega
  unfold trimBytes
  rw [if_neg hne, if_neg hshort]
  simp only [if_true]
  rw [hcount, ← hsplit, List.drop_left]

end Slice

end NetLib
end Udk
