import Udk.Variable.NvRun

/-!
# How updates change what a scan finds

The value of a name is decided by its added records and its records in transition.
Here is what happens to these two lists when a record changes its state, when one is
added, and in a reclaim.
-/

namespace Udk
namespace Variable

open List

section Mask

variable {authFormat : Bool} {r : Bytes}

theorem isAdded_of_live {r : Bytes} (hlive : isLive r = true)
    (h : isInTransition r = false) : isAdded r = true := by
  rw [isLive_eq, h, Bool.or_false] at hlive
  exact hlive

theorem isAdded_not_inTransition {r : Bytes} (h : isAdded r = true) :
    isInTransition r = false := by
  cases ht : isInTransition r with
  | false => rfl
  | true =>
      rw [isInTransition_not_added ht] at h
      cases h

theorem maskState_inTransition (hrec : IsRecord authFormat r) (hlive : isLive r = true) :
    isInTransition (maskState varInDeletedTransition r) = true ∧
      isAdded (maskState varInDeletedTransition r) = false := by
  have h2 : 2 < r.length := by have := hrec.length_ge; omega
  rw [isInTransition, isAdded, maskState, state_setState _ h2]
  rcases isLive_state hlive with h | h <;> rw [h] <;> decide

theorem maskState_deleted (hrec : IsRecord authFormat r) (hlive : isLive r = true) :
    isInTransition (maskState varDeleted r) = false ∧
      isAdded (maskState varDeleted r) = false := by
  have h2 : 2 < r.length := by have := hrec.length_ge; omega
  rw [isInTransition, isAdded, maskState, state_setState _ h2]
  rcases isLive_state hlive with h | h <;> rw [h] <;> decide

theorem maskState_record (hrec : IsRecord authFormat r) (hlive : isLive r = true) {mask : UInt8}
    (hmask : mask = varInDeletedTransition ∨ mask = varDeleted) :
    IsRecord authFormat (maskState mask r) ∧
      recordKey authFormat (maskState mask r) = recordKey authFormat r ∧
      recordValue authFormat (maskState mask r) = recordValue authFormat r := by
  have h2 : 2 < r.length := by have := hrec.length_ge; omega
  obtain ⟨hff, hs⟩ := masked_state hlive hmask
  exact ⟨isRecord_setState _ hff hs h2 hrec, recordKey_setState hff hs h2,
    recordValue_setState hff hs h2⟩

end Mask

section Split

variable {before after : List Bytes} {r : Bytes} {off : Nat}

theorem maskAt_split (hne : ∀ x ∈ before, x ≠ [])
    (hoff : off = storeHeaderSize + before.flatten.length) (mask : UInt8) :
    maskAt off mask (before ++ r :: after) = before ++ maskState mask r :: after := by
  rw [hoff, maskAt, modifyAt_split hne]

theorem remaining_split (hne : ∀ x ∈ before ++ r :: after, x ≠ [])
    (hoff : off = storeHeaderSize + before.flatten.length) :
    remaining (some off) none (before ++ r :: after) = before ++ after := by
  have hr : 0 < r.length := length_pos_iff.mpr (hne r (by simp))
  have hbefore : ∀ e ∈ located storeHeaderSize before,
      (some off != some e.1 && (none : Option Nat) != some e.1) = true := by
    rintro ⟨o, x⟩ he
    have hx : 0 < x.length := length_pos_iff.mpr
      (hne x (mem_append_left _ (mem_of_mem_located he)))
    have hle := (le_of_mem_located he).2
    simp only [Bool.and_eq_true, bne_iff_ne, ne_eq, Option.some.injEq, reduceCtorEq,
      not_false_eq_true, and_true]
    omega
  have hafter : ∀ e ∈ located (off + r.length) after,
      (some off != some e.1 && (none : Option Nat) != some e.1) = true := by
    rintro ⟨o, x⟩ he
    have hle := (le_of_mem_located he).1
    simp only [Bool.and_eq_true, bne_iff_ne, ne_eq, Option.some.injEq, reduceCtorEq,
      not_false_eq_true, and_true]
    omega
  rw [remaining, located_append, located, ← hoff, filter_append, filter_cons_of_neg
    (by simp), filter_eq_self.mpr hbefore, filter_eq_self.mpr hafter, map_append,
    located_map_snd, located_map_snd]

theorem remaining_none (rs : List Bytes) : remaining none none rs = rs := by
  have hall : ∀ e ∈ located storeHeaderSize rs,
      ((none : Option Nat) != some e.1 && (none : Option Nat) != some e.1) = true :=
    fun e _ => rfl
  rw [remaining, filter_eq_self.mpr hall, located_map_snd]

end Split

section Kept

variable {authFormat : Bool} {rs : List Bytes}

theorem keptRecords_settled {updating updatingInTransition : Option Nat}
    (h : ∀ r ∈ remaining updating updatingInTransition rs, isInTransition r = false) :
    keptRecords authFormat updating updatingInTransition rs =
      (remaining updating updatingInTransition rs).filter isAdded := by
  have hnil : (remaining updating updatingInTransition rs).filter isInTransition = [] := by
    rw [filter_eq_nil_iff]
    intro r hr
    rw [h r hr]
    decide
  rw [keptRecords, VersionLog.compact, hnil, foldl_nil]

theorem ofKey_filter_added (key : Guid × Bytes) :
    ofKey authFormat isAdded (rs.filter isAdded) key = ofKey authFormat isAdded rs key := by
  rw [ofKey, ofKey, filter_filter]
  apply filter_congr
  intro r _
  cases isAdded r <;> simp

theorem ofKey_filter_inTransition (key : Guid × Bytes) :
    ofKey authFormat isInTransition (rs.filter isAdded) key = [] := by
  apply ofKey_eq_nil
  intro r hr
  exact isAdded_not_inTransition (mem_filter.mp hr).2

end Kept

section Settled

variable {authFormat : Bool} {rs : List Bytes}

/-- No record is in transition, and each name has at most one added record. -/
structure Settled (authFormat : Bool) (rs : List Bytes) : Prop where
  noTransition : ∀ r ∈ rs, isInTransition r = false
  unique : ∀ key, (ofKey authFormat isAdded rs key).length ≤ 1

theorem Settled.ofKey_split {before after : List Bytes} {r : Bytes}
    (h : Settled authFormat (before ++ r :: after)) (hlive : isLive r = true) :
    isAdded r = true ∧ ofKey authFormat isAdded before (recordKey authFormat r) = [] ∧
      ofKey authFormat isAdded after (recordKey authFormat r) = [] := by
  have hadded := isAdded_of_live hlive (h.noTransition r (by simp))
  have hlen := h.unique (recordKey authFormat r)
  rw [ofKey_append, ofKey_cons, if_pos ⟨hadded, rfl⟩] at hlen
  simp only [length_append, length_cons, length_nil] at hlen
  exact ⟨hadded, eq_nil_of_length_eq_zero (by omega),
    eq_nil_of_length_eq_zero (by omega)⟩

theorem Settled.lookup (h : Settled authFormat rs) (key : Guid × Bytes) :
    lookupRecords authFormat rs key =
      (ofKey authFormat isAdded rs key).head?.map (recordValue authFormat) := by
  rw [lookupRecords_eq, ofKey_eq_nil h.noTransition]
  simp

theorem lookupRecords_of {key : Guid × Bytes} {xs ys : List Bytes}
    (ha : ofKey authFormat isAdded rs key = xs)
    (ht : ofKey authFormat isInTransition rs key = ys) :
    lookupRecords authFormat rs key = (xs.head?.or ys.getLast?).map (recordValue authFormat) := by
  rw [lookupRecords_eq, ha, ht]

/-- What one image of an update may show: the old or the new value under the name of the
update, and the old value under every other name. -/
structure AtomicImage (authFormat : Bool) (rs : List Bytes) (key : Guid × Bytes)
    (new : Option (UInt32 × Bytes)) (xs : List Bytes) : Prop where
  other : ∀ k, k ≠ key → lookupRecords authFormat xs k = lookupRecords authFormat rs k
  updated : lookupRecords authFormat xs key = lookupRecords authFormat rs key ∨
    lookupRecords authFormat xs key = new

end Settled

end Variable
end Udk
