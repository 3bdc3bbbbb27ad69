import Mathlib.Data.List.Basic
import Mathlib.Tactic

/-!
# Tilings

Cells with a first and a last address and a label.  A list of cells partitions a range
if the cells follow each other without gap and overlap; it then shows a function from
addresses to labels, and cutting, relabelling and joining cells are seen on this
function.
-/

namespace Udk

open List

universe u v

/-- What a tiling reads of its cells. -/
class Cell (α : Type u) (β : outParam (Type v)) where
  first : α → Nat
  last : α → Nat
  label : α → β

namespace Tiling

open Cell

variable {α : Type u} {β : Type v} [Cell α β]

/-- The cells follow each other from `lo` up to `hi`, which is excluded. -/
def Partition : Nat → List α → Nat → Prop
  | lo, [], hi => lo = hi
  | lo, c :: cs, hi => first c = lo ∧ first c ≤ last c ∧ Partition (last c + 1) cs hi

/-- The cells partition the range and show a function. -/
def Tiles (f : Nat → Option β) : Nat → List α → Nat → Prop
  | lo, [], hi => lo = hi
  | lo, c :: cs, hi =>
      first c = lo ∧ first c ≤ last c ∧
        (∀ x, first c ≤ x → x ≤ last c → f x = some (label c)) ∧ Tiles f (last c + 1) cs hi

/-- The label of the first cell that holds an address. -/
def labelAt (l : List α) (x : Nat) : Option β :=
  (l.find? (fun c => decide (first c ≤ x ∧ x ≤ last c))).map label

/-- No two neighbours agree in their label. -/
def Merged (l : List α) : Prop :=
  (l.map label).IsChain (· ≠ ·)

section Tiles

variable {f g : Nat → Option β} {lo mid hi : Nat} {c d : α} {l l' : List α}

@[simp] theorem tiles_nil : Tiles f lo ([] : List α) hi ↔ lo = hi := Iff.rfl

theorem Tiles.partition
    (h : Tiles f lo l hi) :
    Partition lo l hi := by
  induction l generalizing lo with
  | nil => exact h
  | cons c cs ih => exact ⟨h.1, h.2.1, ih h.2.2.2⟩

theorem Partition.le
    (h : Partition lo l hi) :
    lo ≤ hi := by
  induction l generalizing lo with
  | nil => exact h.le
  | cons c cs ih =>
      obtain ⟨hfirst, hle, hrest⟩ := h
      have := ih hrest
      omega

theorem Tiles.le
    (h : Tiles f lo l hi) :
    lo ≤ hi :=
  h.partition.le

/-- A tiling sees its function on the range only. -/
theorem Tiles.congr
    (h : Tiles f lo l hi)
    (hfg : ∀ x, lo ≤ x → x < hi → f x = g x) :
    Tiles g lo l hi := by
  induction l generalizing lo with
  | nil => exact h
  | cons c cs ih =>
      obtain ⟨hfirst, hle, hshow, hrest⟩ := h
      have hend := hrest.le
      refine ⟨hfirst, hle, fun x hx hx' => ?_, ih hrest fun x hx hx' => ?_⟩
      · rw [← hfg x (by omega) (by omega)]
        exact hshow x hx hx'
      · exact hfg x (by omega) hx'

theorem tiles_append :
    Tiles f lo (l ++ l') hi ↔ ∃ mid, Tiles f lo l mid ∧ Tiles f mid l' hi := by
  induction l generalizing lo with
  | nil =>
      constructor
      · exact fun h => ⟨lo, rfl, h⟩
      · rintro ⟨mid, rfl, h⟩
        exact h
  | cons c cs ih =>
      constructor
      · rintro ⟨hfirst, hle, hshow, hrest⟩
        obtain ⟨mid, hcs, hl'⟩ := ih.mp hrest
        exact ⟨mid, ⟨hfirst, hle, hshow, hcs⟩, hl'⟩
      · rintro ⟨mid, ⟨hfirst, hle, hshow, hcs⟩, hl'⟩
        exact ⟨hfirst, hle, hshow, ih.mpr ⟨mid, hcs, hl'⟩⟩

theorem Tiles.append
    (h : Tiles f lo l mid)
    (h' : Tiles f mid l' hi) :
    Tiles f lo (l ++ l') hi :=
  tiles_append.mpr ⟨mid, h, h'⟩

/-- One cell. -/
theorem tiles_singleton :
    Tiles f lo [c] hi ↔
      first c = lo ∧ first c ≤ last c ∧
        (∀ x, first c ≤ x → x ≤ last c → f x = some (label c)) ∧ last c + 1 = hi :=
  Iff.rfl

/-- Two neighbours with one label may be joined. -/
theorem Tiles.join
    {e : α}
    (h : Tiles f lo (c :: d :: l) hi)
    (hlabel : label c = label d)
    (hfirst : first e = first c)
    (hlast : last e = last d)
    (he : label e = label d) :
    Tiles f lo (e :: l) hi := by
  obtain ⟨hc, hcle, hcshow, hd, hdle, hdshow, hrest⟩ := h
  refine ⟨hfirst.trans hc, by omega, fun x hx hx' => ?_, hlast ▸ hrest⟩
  rcases Nat.lt_or_ge (last c) x with hlt | hge
  · rw [he]
    exact hdshow x (by omega) (by omega)
  · rw [he, ← hlabel]
    exact hcshow x (by omega) hge

/-- A cell of a tiling lies within the range. -/
theorem Tiles.mem_bounds
    (h : Tiles f lo l hi)
    (hc : c ∈ l) :
    lo ≤ first c ∧ first c ≤ last c ∧ last c < hi := by
  induction l generalizing lo with
  | nil => exact absurd hc not_mem_nil
  | cons d cs ih =>
      obtain ⟨hfirst, hle, -, hrest⟩ := h
      have hend := hrest.le
      rcases mem_cons.mp hc with rfl | hc
      · omega
      · have := ih hrest hc
        omega

end Tiles

section LabelAt

variable {f : Nat → Option β} {lo hi x : Nat} {c : α} {l : List α}

theorem labelAt_cons_of_holds
    (h : first c ≤ x ∧ x ≤ last c) :
    labelAt (c :: l) x = some (label c) := by
  simp [labelAt, h]

theorem labelAt_cons_of_not
    (h : ¬(first c ≤ x ∧ x ≤ last c)) :
    labelAt (c :: l) x = labelAt l x := by
  simp only [labelAt, find?_cons, decide_eq_false h]

/-- A partition shows its own labels. -/
theorem Partition.tiles
    (h : Partition lo l hi) :
    Tiles (labelAt l) lo l hi := by
  induction l generalizing lo with
  | nil => exact h
  | cons c cs ih =>
      obtain ⟨hfirst, hle, hrest⟩ := h
      refine ⟨hfirst, hle, fun x hx hx' => labelAt_cons_of_holds ⟨hx, hx'⟩, ?_⟩
      refine (ih hrest).congr fun x hx _ => ?_
      rw [labelAt_cons_of_not (by omega)]

/-- The labels of a tiling are the values of its function. -/
theorem Tiles.labelAt_eq
    (h : Tiles f lo l hi)
    (hlo : lo ≤ x)
    (hhi : x < hi) :
    labelAt l x = f x := by
  induction l generalizing lo with
  | nil =>
      rw [tiles_nil] at h
      omega
  | cons c cs ih =>
      obtain ⟨hfirst, _, hshow, hrest⟩ := h
      by_cases hx : first c ≤ x ∧ x ≤ last c
      · rw [labelAt_cons_of_holds hx, hshow x hx.1 hx.2]
      · rw [labelAt_cons_of_not hx]
        exact ih hrest (by omega)

/-- Outside its range a partition has no label. -/
theorem Partition.labelAt_outside
    (h : Partition lo l hi)
    (hx : hi ≤ x) :
    labelAt l x = none := by
  induction l generalizing lo with
  | nil => rfl
  | cons c cs ih =>
      obtain ⟨-, -, hrest⟩ := h
      have hend := hrest.le
      rw [labelAt_cons_of_not (by omega)]
      exact ih hrest

/-- What holds of the labels of the cells holds of the labels of the addresses, and the
other way round. -/
theorem Tiles.forall_label
    {p : β → Prop}
    (h : Tiles f lo l hi) :
    (∀ c ∈ l, p (label c)) ↔ ∀ x b, lo ≤ x → x < hi → f x = some b → p b := by
  induction l generalizing lo with
  | nil =>
      rw [tiles_nil] at h
      constructor
      · intro _ x b hx hx'
        omega
      · exact fun _ c hc => absurd hc not_mem_nil
  | cons c cs ih =>
      obtain ⟨hfirst, hle, hshow, hrest⟩ := h
      have hend := hrest.le
      rw [forall_mem_cons, ih hrest]
      constructor
      · rintro ⟨hc, hcs⟩ x b hx hx' hb
        rcases Nat.lt_or_ge (last c) x with hlt | hge
        · exact hcs x b hlt hx' hb
        · rw [hshow x (by omega) hge, Option.some_inj] at hb
          exact hb ▸ hc
      · intro hall
        refine ⟨hall (first c) (label c) (by omega) (by omega) (hshow _ le_rfl hle), ?_⟩
        exact fun x b hx hx' hb => hall x b (by omega) hx' hb

end LabelAt

section Merged

variable {a b c : α} {l l' : List α}

theorem merged_singleton : Merged [c] :=
  isChain_singleton _

/-- Only the labels count. -/
theorem Merged.congr
    (h : Merged l)
    (hlabel : l'.map label = l.map label) :
    Merged l' := by
  rw [Merged, hlabel]
  exact h

theorem merged_cons_cons :
    Merged (a :: b :: l) ↔ label a ≠ label b ∧ Merged (b :: l) :=
  isChain_cons_cons

theorem merged_split :
    Merged (l ++ c :: l') ↔ Merged (l ++ [c]) ∧ Merged (c :: l') := by
  simp only [Merged, map_append, map_cons, map_nil]
  exact isChain_split

theorem merged_reverse :
    Merged l.reverse ↔ Merged l := by
  simp only [Merged, map_reverse, isChain_reverse, ne_comm]

theorem Merged.left
    (h : Merged (l ++ l')) :
    Merged l := by
  rw [Merged, map_append] at h
  exact h.left_of_append

theorem Merged.right
    (h : Merged (l ++ l')) :
    Merged l' := by
  rw [Merged, map_append] at h
  exact h.right_of_append

end Merged

section Scattered

/-- The cells are apart from each other, in any order, and show a function that has no
value elsewhere. -/
structure Shows (f : Nat → Option β) (l : List α) : Prop where
  apart : l.Pairwise (fun c d => last c < first d ∨ last d < first c)
  nonempty : ∀ c ∈ l, first c ≤ last c
  value : ∀ c ∈ l, ∀ x, first c ≤ x → x ≤ last c → f x = some (label c)
  cover : ∀ x b, f x = some b → ∃ c ∈ l, first c ≤ x ∧ x ≤ last c

variable {f g : Nat → Option β} {lo hi : Nat} {l l' : List α}

theorem shows_nil : Shows (fun _ => none) ([] : List α) where
  apart := List.Pairwise.nil
  nonempty c hc := absurd hc not_mem_nil
  value c hc := absurd hc not_mem_nil
  cover x b h := by simp at h

theorem Shows.perm
    (h : Shows f l)
    (hperm : l'.Perm l) :
    Shows f l' where
  apart := (hperm.pairwise_iff fun hab => hab.symm).mpr h.apart
  nonempty c hc := h.nonempty c (hperm.mem_iff.mp hc)
  value c hc := h.value c (hperm.mem_iff.mp hc)
  cover x b hx := by
    obtain ⟨c, hc, hin⟩ := h.cover x b hx
    exact ⟨c, hperm.mem_iff.mpr hc, hin⟩

theorem Tiles.mem_value
    (h : Tiles f lo l hi)
    {c : α} {x : Nat}
    (hc : c ∈ l)
    (hx : first c ≤ x)
    (hx' : x ≤ last c) :
    f x = some (label c) := by
  induction l generalizing lo with
  | nil => exact absurd hc not_mem_nil
  | cons d ds ih =>
      obtain ⟨-, -, hshow, hrest⟩ := h
      rcases mem_cons.mp hc with rfl | hc
      · exact hshow x hx hx'
      · exact ih hrest hc

theorem Tiles.exists_mem
    (h : Tiles f lo l hi)
    {x : Nat}
    (hx : lo ≤ x)
    (hx' : x < hi) :
    ∃ c ∈ l, first c ≤ x ∧ x ≤ last c := by
  induction l generalizing lo with
  | nil =>
      rw [tiles_nil] at h
      omega
  | cons c cs ih =>
      obtain ⟨hfirst, -, -, hrest⟩ := h
      rcases Nat.lt_or_ge (last c) x with hlt | hge
      · obtain ⟨d, hd, hin⟩ := ih hrest hlt
        exact ⟨d, mem_cons_of_mem _ hd, hin⟩
      · exact ⟨c, mem_cons_self, by omega, hge⟩

section

variable (h : Partition lo l hi)
include h

theorem Partition.pairwise :
    l.Pairwise (fun c d => last c < first d) := by
  induction l generalizing lo with
  | nil => exact List.Pairwise.nil
  | cons c cs ih =>
      obtain ⟨-, -, hrest⟩ := h
      refine pairwise_cons.mpr ⟨fun d hd => ?_, ih hrest⟩
      have := (hrest.tiles.mem_bounds hd).1
      omega

/-- Cells at rising positions lie at rising addresses. -/
theorem Partition.last_lt
    {c d : α} {i j : Nat}
    (hc : l[i]? = some c)
    (hd : l[j]? = some d)
    (hij : i < j) :
    last c < first d := by
  obtain ⟨hi', rfl⟩ := List.getElem?_eq_some_iff.mp hc
  obtain ⟨hj', rfl⟩ := List.getElem?_eq_some_iff.mp hd
  exact pairwise_iff_getElem.mp h.pairwise i j hi' hj' hij

/-- Cells at rising addresses stand at rising positions. -/
theorem Partition.index_le
    {c d : α} {i j : Nat}
    (hc : l[i]? = some c)
    (hd : l[j]? = some d)
    (hle : first c ≤ last d) :
    i ≤ j := by
  by_contra hlt
  have := h.last_lt hd hc (by omega)
  omega

/-- What stands behind a cell is a partition. -/
theorem Partition.behind
    {c : α} {i : Nat}
    (hc : l[i]? = some c) :
    Partition (last c + 1) (l.drop (i + 1)) hi := by
  induction l generalizing lo i with
  | nil => simp at hc
  | cons d ds ih =>
      obtain ⟨-, -, hrest⟩ := h
      cases i with
      | zero =>
          rw [getElem?_cons_zero, Option.some_inj] at hc
          exact hc ▸ hrest
      | succ i => exact ih hrest (by simpa using hc)

theorem Partition.next
    {c d : α} {i : Nat}
    (hc : l[i]? = some c)
    (hd : l[i + 1]? = some d) :
    first d = last c + 1 := by
  have hbehind := h.behind hc
  rw [drop_eq_getElem?_toList_append, hd] at hbehind
  exact hbehind.1

/-- Of two cells that begin up to the end of the second one, the second does not begin in
front. -/
theorem Partition.first_le
    {c d : α}
    (hc : c ∈ l)
    (hd : d ∈ l)
    (hle : first c ≤ last d) :
    first c ≤ first d := by
  obtain ⟨i, hi'⟩ := getElem?_of_mem hc
  obtain ⟨j, hj⟩ := getElem?_of_mem hd
  have hbounds := (h.tiles.mem_bounds hc).2.1
  rcases (h.index_le hi' hj hle).lt_or_eq with hlt | rfl
  · have := h.last_lt hi' hj hlt
    omega
  · rw [hi', Option.some_inj] at hj
    exact (congrArg first hj).le

end

/-- A tiling beside cells that show nothing in its range. -/
theorem Tiles.shows_append
    (h : Tiles g lo l hi)
    (hrest : Shows f l')
    (hnone : ∀ x, lo ≤ x → x < hi → f x = none) :
    Shows (fun x => if lo ≤ x ∧ x < hi then g x else f x) (l ++ l') := by
  constructor
  · refine pairwise_append.mpr ⟨h.partition.pairwise.imp Or.inl, hrest.apart, ?_⟩
    intro c hc d hd
    obtain ⟨hlo, hcle, hhi⟩ := h.mem_bounds hc
    have hdle := hrest.nonempty d hd
    by_contra hmeet
    -- the later of the two first addresses would have a value
    rcases Nat.le_total (first c) (first d) with hle | hle
    · have hvalue := hrest.value d hd (first d) le_rfl hdle
      rw [hnone _ (by omega) (by omega)] at hvalue
      exact absurd hvalue (by simp)
    · have hvalue := hrest.value d hd (first c) hle (by omega)
      rw [hnone _ (by omega) (by omega)] at hvalue
      exact absurd hvalue (by simp)
  · intro c hc
    rcases mem_append.mp hc with hc | hc
    · exact (h.mem_bounds hc).2.1
    · exact hrest.nonempty c hc
  · intro c hc x hx hx'
    rcases mem_append.mp hc with hc | hc
    · have := h.mem_bounds hc
      rw [if_pos (by omega)]
      exact h.mem_value hc hx hx'
    · have hvalue := hrest.value c hc x hx hx'
      split
      case isTrue hin =>
        rw [hnone x hin.1 hin.2] at hvalue
        exact absurd hvalue (by simp)
      case isFalse => exact hvalue
  · intro x b hx
    split at hx
    case isTrue hin =>
      obtain ⟨c, hc, hmem⟩ := h.exists_mem hin.1 hin.2
      exact ⟨c, mem_append_left _ hc, hmem⟩
    case isFalse =>
      obtain ⟨c, hc, hmem⟩ := hrest.cover x b hx
      exact ⟨c, mem_append_right _ hc, hmem⟩

/-- Relabelling the cells. -/
theorem Shows.map
    {e : α → α} {r : β → β}
    (h : Shows f l)
    (hfirst : ∀ c, first (e c) = first c)
    (hlast : ∀ c, last (e c) = last c)
    (hlabel : ∀ c, label (e c) = r (label c)) :
    Shows (fun x => (f x).map r) (l.map e) := by
  constructor
  · refine pairwise_map.mpr (h.apart.imp fun {c d} hcd => ?_)
    rw [hfirst, hfirst, hlast, hlast]
    exact hcd
  · intro c hc
    obtain ⟨d, hd, rfl⟩ := mem_map.mp hc
    rw [hfirst, hlast]
    exact h.nonempty d hd
  · intro c hc x hx hx'
    obtain ⟨d, hd, rfl⟩ := mem_map.mp hc
    rw [hfirst] at hx
    rw [hlast] at hx'
    rw [h.value d hd x hx hx', hlabel]
    rfl
  · intro x b hx
    obtain ⟨b', hb', -⟩ := Option.map_eq_some_iff.mp hx
    obtain ⟨c, hc, hmem⟩ := h.cover x b' hb'
    refine ⟨e c, mem_map_of_mem hc, ?_⟩
    rw [hfirst, hlast]
    exact hmem

/-- Cells in the order of their first addresses follow each other. -/
theorem Shows.ordered
    (h : Shows f l)
    (hsorted : l.Pairwise (fun c d => first c ≤ first d)) :
    l.Pairwise (fun c d => last c < first d) := by
  refine (h.apart.and hsorted).imp_of_mem fun {c d} _ hd hcd => ?_
  have hdle := h.nonempty d hd
  rcases hcd.1 with hlt | hlt
  · exact hlt
  · have := hcd.2
    omega

end Scattered

end Tiling

end Udk
