import Mathlib.Data.List.Basic
import Mathlib.Tactic

/-!
# Append-only logs of versioned entries

An update-in-place store that can only append keeps several versions of one
value: the committed one (*added*), an old one that is being replaced
(*in transition*) and dead ones.  This module has the two operations on such a
log that do not depend on how entries are stored:

* `scan` walks the log and returns the first added entry, or the last entry in
  transition when there is no added one, together with the last entry in
  transition met before;
* `compact` copies the added entries and then promotes those entries in
  transition whose key has not been copied yet.

`lookup_compact` says what a lookup finds after a compaction: where no added
entry exists it is the *first* entry in transition, while `lookup` itself
prefers the *last* one.
-/

namespace Udk
namespace VersionLog

open List

universe u v w

variable {ε : Type u} {κ : Type v} {ν : Type w}

section Scan

variable {es : List ε} {d : Option ε}

variable (added trans : ε → Bool)

/-- First added entry, else the last one in transition; and the entry in
transition remembered when the walk stopped. -/
def scan : List ε → Option ε → Option ε × Option ε
  | [], d => (d, none)
  | e :: es, d =>
      if trans e then scan es (some e)
      else if added e then (some e, d)
      else scan es d

/-- The entry a walk settles on. -/
def current (es : List ε) : Option ε :=
  (scan added trans es none).1

/-- A walk that starts with a remembered entry returns it when nothing is found. -/
theorem scan_fst
    (hex : ∀ e, trans e = true → added e = false)
    (es : List ε) (d : Option ε) :
    (scan added trans es d).1 =
      ((es.find? added).or (es.reverse.find? trans)).or d := by
  induction es generalizing d with
  | nil => simp [scan]
  | cons e es ih =>
      by_cases ht : trans e = true
      · have ha := hex e ht
        rw [scan, if_pos ht, ih]
        cases h1 : es.find? added with
        | some x => simp [find?_cons, ha, h1]
        | none =>
            cases h2 : es.reverse.find? trans with
            | some y => simp [find?_cons, ha, h1, find?_append, h2]
            | none => simp [ha, h1, find?_append, h2, ht]
      · by_cases ha : added e = true
        · simp [scan, ht, ha]
        · rw [scan, if_neg ht, if_neg ha, ih]
          simp [ha, ht, find?_append]

theorem current_eq
    (hex : ∀ e, trans e = true → added e = false)
    (es : List ε) :
    current added trans es =
      (es.find? added).or (es.reverse.find? trans) := by
  rw [current, scan_fst added trans hex]
  simp

/-- A walk returns an entry of the log that is added or in transition. -/
theorem scan_fst_mem
    {e : ε}
    (h : (scan added trans es d).1 = some e) :
    (e ∈ es ∧ (added e = true ∨ trans e = true)) ∨ d = some e := by
  induction es generalizing d with
  | nil => exact Or.inr h
  | cons x xs ih =>
      rw [scan] at h
      split_ifs at h with ht ha
      · rcases ih h with ⟨hm, hx⟩ | hd
        · exact Or.inl ⟨mem_cons_of_mem _ hm, hx⟩
        · cases hd
          exact Or.inl ⟨mem_cons_self, Or.inr ht⟩
      · cases h
        exact Or.inl ⟨mem_cons_self, Or.inl ha⟩
      · rcases ih h with ⟨hm, hx⟩ | hd
        · exact Or.inl ⟨mem_cons_of_mem _ hm, hx⟩
        · exact Or.inr hd

theorem current_mem
    {e : ε}
    (h : current added trans es = some e) :
    e ∈ es ∧ (added e = true ∨ trans e = true) := by
  rcases scan_fst_mem added trans h with hm | hd
  · exact hm
  · cases hd

/-- The remembered entry is in transition and belongs to the log. -/
theorem scan_snd_mem
    {e : ε}
    (h : (scan added trans es d).2 = some e) :
    (e ∈ es ∧ trans e = true) ∨ d = some e := by
  induction es generalizing d with
  | nil => cases h
  | cons x xs ih =>
      rw [scan] at h
      split_ifs at h with ht ha
      · rcases ih h with ⟨hm, hx⟩ | hd
        · exact Or.inl ⟨mem_cons_of_mem _ hm, hx⟩
        · cases hd
          exact Or.inl ⟨mem_cons_self, ht⟩
      · exact Or.inr h
      · rcases ih h with ⟨hm, hx⟩ | hd
        · exact Or.inl ⟨mem_cons_of_mem _ hm, hx⟩
        · exact Or.inr hd

/-- A walk only looks at the two predicates. -/
theorem scan_congr
    (added' trans' : ε → Bool) (es : List ε) (d : Option ε)
    (ha : ∀ e ∈ es, added e = added' e)
    (ht : ∀ e ∈ es, trans e = trans' e) :
    scan added trans es d = scan added' trans' es d := by
  induction es generalizing d with
  | nil => rfl
  | cons e es ih =>
      have ih' := fun d => ih d
        (fun x hx => ha x (mem_cons_of_mem _ hx))
        (fun x hx => ht x (mem_cons_of_mem _ hx))
      simp only [scan, ha e mem_cons_self, ht e mem_cons_self, ih']

/-- A walk over the images of entries. -/
theorem scan_map
    {δ : Type w} (f : δ → ε) (es : List δ) (d : Option δ) :
    scan added trans (es.map f) (d.map f) =
      ((scan (fun e => added (f e)) (fun e => trans (f e)) es d).1.map f,
        (scan (fun e => added (f e)) (fun e => trans (f e)) es d).2.map f) := by
  induction es generalizing d with
  | nil => rfl
  | cons e es ih =>
      simp only [map_cons, scan]
      split_ifs with ht ha
      · exact ih (some e)
      · rfl
      · exact ih d

/-- Dead entries at the end of a log do not change a walk. -/
theorem scan_append_dead
    {es ds : List ε} (d : Option ε)
    (h : ∀ e ∈ ds, added e = false ∧ trans e = false) :
    scan added trans (es ++ ds) d = scan added trans es d := by
  induction es generalizing d with
  | nil =>
      induction ds with
      | nil => rfl
      | cons e ds ih =>
          obtain ⟨ha, ht⟩ := h e mem_cons_self
          have := ih (fun x hx => h x (mem_cons_of_mem _ hx))
          simpa [scan, ha, ht] using this
  | cons e es ih =>
      simp only [cons_append, scan, ih]

/-- A walk that remembers an entry in transition has found an added one. -/
theorem scan_snd_added
    {e : ε}
    (h : (scan added trans es d).2 = some e) :
    ∃ x ∈ es, (scan added trans es d).1 = some x ∧ added x = true := by
  induction es generalizing d with
  | nil => cases h
  | cons x xs ih =>
      rw [scan] at h ⊢
      split_ifs at h ⊢ with ht ha
      · obtain ⟨y, hy, hres⟩ := ih h
        exact ⟨y, mem_cons_of_mem _ hy, hres⟩
      · exact ⟨x, mem_cons_self, rfl, ha⟩
      · obtain ⟨y, hy, hres⟩ := ih h
        exact ⟨y, mem_cons_of_mem _ hy, hres⟩

/-- Nothing is found exactly when no entry is added or in transition. -/
theorem current_eq_none_iff
    (es : List ε) :
    current added trans es = none ↔
      ∀ e ∈ es, added e = false ∧ trans e = false := by
  have key : ∀ (es : List ε) (d : Option ε),
      (scan added trans es d).1 = none ↔
        d = none ∧ ∀ e ∈ es, added e = false ∧ trans e = false := by
    intro es
    induction es with
    | nil => intro d; simp [scan]
    | cons x xs ih =>
        intro d
        rw [scan]
        split_ifs with ht ha
        · rw [ih]
          simp [ht]
        · simp [ha]
        · rw [ih]
          simp [ht, ha]
  rw [current, key]
  simp

end Scan

section Compaction

variable [DecidableEq κ]
variable (added trans : ε → Bool) (key : ε → κ) (value : ε → ν) (promote : ε → ε)

/-- The value a walk finds for a key. -/
def lookup (es : List ε) (k : κ) : Option ν :=
  (current (fun e => added e && decide (key e = k))
    (fun e => trans e && decide (key e = k)) es).map value

/-- A lookup prefers the first added entry of its key to the last one in transition. -/
theorem lookup_eq
    {added trans : ε → Bool} {key : ε → κ} {value : ε → ν}
    (hex : ∀ e, trans e = true → added e = false)
    (es : List ε) (k : κ) :
    lookup added trans key value es k =
      ((es.filter (fun e => added e && decide (key e = k))).head?.or
        (es.filter (fun e => trans e && decide (key e = k))).getLast?).map value := by
  have hex' : ∀ e, (trans e && decide (key e = k)) = true →
      (added e && decide (key e = k)) = false := by
    intro e he
    rw [Bool.and_eq_true] at he
    simp [hex e he.1]
  rw [lookup, current_eq _ _ hex', head?_filter, getLast?_eq_head?_reverse,
    ← filter_reverse, head?_filter]

/-- Copy one entry in transition unless its key is present. -/
def promoteInto (kept : List ε) (e : ε) : List ε :=
  if kept.any (fun x => decide (key x = key e)) then kept else kept ++ [promote e]

/-- The added entries, followed by the promoted ones. -/
def compact (es : List ε) : List ε :=
  (es.filter trans).foldl (promoteInto key promote) (es.filter added)

/-- Entries already copied stay in front. -/
theorem foldl_promoteInto_prefix
    (es kept : List ε) :
    ∃ more, es.foldl (promoteInto key promote) kept = kept ++ more ∧
      ∀ e ∈ more, ∃ x ∈ es, e = promote x := by
  induction es generalizing kept with
  | nil => exact ⟨[], by simp, by simp⟩
  | cons x xs ih =>
      rw [foldl_cons]
      obtain ⟨more, hmore, hfrom⟩ := ih (promoteInto key promote kept x)
      rw [hmore]
      unfold promoteInto
      split_ifs with hany
      · refine ⟨more, rfl, ?_⟩
        intro e he
        obtain ⟨y, hy, rfl⟩ := hfrom e he
        exact ⟨y, mem_cons_of_mem _ hy, rfl⟩
      · refine ⟨promote x :: more, by simp, ?_⟩
        intro e he
        rcases mem_cons.mp he with rfl | he
        · exact ⟨x, mem_cons_self, rfl⟩
        · obtain ⟨y, hy, rfl⟩ := hfrom e he
          exact ⟨y, mem_cons_of_mem _ hy, rfl⟩

variable {added trans key value promote} {es : List ε}

/-- The first copied entry of a key, after the entries in transition have been
considered one by one. -/
theorem find?_foldl_promoteInto
    (hkey : ∀ e ∈ es, key (promote e) = key e)
    (kept : List ε) (k : κ) :
    (es.foldl (promoteInto key promote) kept).find? (fun e => decide (key e = k)) =
      (kept.find? (fun e => decide (key e = k))).or
        ((es.find? (fun e => decide (key e = k))).map promote) := by
  induction es generalizing kept with
  | nil => simp
  | cons x xs ih =>
      have hx' := hkey x mem_cons_self
      rw [foldl_cons, ih (fun e he => hkey e (mem_cons_of_mem _ he))]
      unfold promoteInto
      by_cases hx : key x = k
      · subst hx
        cases hk : kept.find? (fun e => decide (key e = key x)) with
        | some y =>
            have hany : kept.any (fun e => decide (key e = key x)) = true := by
              rw [any_eq_true]
              refine ⟨y, mem_of_find?_eq_some hk, ?_⟩
              exact find?_some (p := fun e => decide (key e = key x)) hk
            simp [hany, hk]
        | none =>
            have hany : kept.any (fun e => decide (key e = key x)) = false := by
              rw [any_eq_false]
              exact fun e he => by simpa using find?_eq_none.mp hk e he
            simp [hany, hk, hx', find?_append]
      · split_ifs with hany
        · simp [hx]
        · simp [hx, hx', find?_append]

/-- Promotion keeps keys distinct. -/
theorem foldl_promoteInto_nodup
    (hkey : ∀ e ∈ es, key (promote e) = key e)
    (kept : List ε)
    (hkept : (kept.map key).Nodup) :
    ((es.foldl (promoteInto key promote) kept).map key).Nodup := by
  induction es generalizing kept with
  | nil => exact hkept
  | cons x xs ih =>
      rw [foldl_cons]
      apply ih (fun e he => hkey e (mem_cons_of_mem _ he))
      unfold promoteInto
      split_ifs with hany
      · exact hkept
      · rw [map_append, map_singleton, hkey x mem_cons_self]
        refine List.Nodup.append hkept (nodup_singleton _) ?_
        rw [disjoint_singleton]
        intro hmem
        obtain ⟨y, hy, hyk⟩ := mem_map.mp hmem
        exact hany (any_eq_true.mpr ⟨y, hy, by simpa using hyk⟩)

/-- Every entry of a compacted log is a copied or a promoted one. -/
theorem mem_compact
    {e : ε}
    (h : e ∈ compact added trans key promote es) :
    (e ∈ es ∧ added e = true) ∨ ∃ x ∈ es, trans x = true ∧ e = promote x := by
  obtain ⟨more, hmore, hfrom⟩ :=
    foldl_promoteInto_prefix key promote (es.filter trans) (es.filter added)
  rw [compact, hmore, mem_append, mem_filter] at h
  rcases h with h | h
  · exact Or.inl h
  · obtain ⟨x, hx, rfl⟩ := hfrom e h
    rw [mem_filter] at hx
    exact Or.inr ⟨x, hx.1, hx.2, rfl⟩

/-- A compacted log has one entry of each key exactly when no two added entries share one. -/
theorem compact_nodup_iff
    (hkey : ∀ e ∈ es, trans e = true → key (promote e) = key e) :
    ((compact added trans key promote es).map key).Nodup ↔
      ((es.filter added).map key).Nodup := by
  have hkey' : ∀ e ∈ es.filter trans, key (promote e) = key e := by
    intro e he
    obtain ⟨hmem, ht⟩ := mem_filter.mp he
    exact hkey e hmem ht
  constructor
  · intro h
    obtain ⟨more, hmore, -⟩ :=
      foldl_promoteInto_prefix key promote (es.filter trans) (es.filter added)
    rw [compact, hmore, map_append] at h
    exact (nodup_append.mp h).1
  · exact foldl_promoteInto_nodup hkey' _

/-- **What a lookup finds after a compaction.** -/
theorem lookup_compact
    (hadded : ∀ e ∈ es, trans e = true → added (promote e) = true)
    (hex : ∀ e, trans e = true → added e = false)
    (hkey : ∀ e ∈ es, trans e = true → key (promote e) = key e)
    (hvalue : ∀ e ∈ es, trans e = true → value (promote e) = value e) (k : κ) :
    lookup added trans key value (compact added trans key promote es) k =
      ((es.find? (fun e => added e && decide (key e = k))).or
        (es.find? (fun e => trans e && decide (key e = k)))).map value := by
  have hkey' : ∀ e ∈ es.filter trans, key (promote e) = key e := by
    intro e he
    obtain ⟨hmem, ht⟩ := mem_filter.mp he
    exact hkey e hmem ht
  have hall : ∀ e ∈ compact added trans key promote es, added e = true := by
    intro e he
    rcases mem_compact he with ⟨_, ha⟩ | ⟨x, hmem, hx, rfl⟩
    · exact ha
    · exact hadded x hmem hx
  have hex' : ∀ e, (trans e && decide (key e = k)) = true →
      (added e && decide (key e = k)) = false := by
    intro e he
    rw [Bool.and_eq_true] at he
    simp [hex e he.1]
  have hfirst : (compact added trans key promote es).find?
      (fun e => added e && decide (key e = k)) =
        (compact added trans key promote es).find? (fun e => decide (key e = k)) := by
    apply find?_congr
    intro e he
    simp [hall e he]
  have hlast : (compact added trans key promote es).reverse.find?
      (fun e => trans e && decide (key e = k)) = none := by
    rw [find?_eq_none]
    intro e he
    have ha := hall e (mem_reverse.mp he)
    cases ht : trans e with
    | false => simp
    | true => rw [hex e ht] at ha; cases ha
  have hval : ((es.find? (fun e => trans e && decide (key e = k))).map promote).map value =
      (es.find? (fun e => trans e && decide (key e = k))).map value := by
    cases hfound : es.find? (fun e => trans e && decide (key e = k)) with
    | none => rfl
    | some e =>
        have ht := find?_some (p := fun e => trans e && decide (key e = k)) hfound
        rw [Bool.and_eq_true] at ht
        simp only [Option.map_some, hvalue e (mem_of_find?_eq_some hfound) ht.1]
  rw [lookup, current_eq _ _ hex', hfirst, hlast, compact,
    find?_foldl_promoteInto hkey', find?_filter, find?_filter]
  simp only [Option.or_none, Bool.decide_and, Bool.decide_eq_true]
  rw [Option.map_or, hval, Option.map_or]

end Compaction

end VersionLog
end Udk
