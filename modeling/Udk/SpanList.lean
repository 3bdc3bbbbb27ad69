import Mathlib

/-!
# Lists of spans

Half-open spans of natural numbers.  A list of spans stands for the set of the numbers
in its spans.  The spans of a list are apart when they are sorted, non-empty, and no two
of them overlap or touch; then each run of numbers in the set lies in one span.
-/

namespace Udk

open List

/-- The numbers from `start` on. -/
structure Span where
  start : Nat
  length : Nat
deriving DecidableEq

namespace Span

/-- The first number behind a span. -/
def stop (s : Span) : Nat :=
  s.start + s.length

/-- The numbers in a span. -/
def range (s : Span) : Set Nat :=
  Set.Ico s.start s.stop

/-- The numbers in the spans of a list. -/
def cover (l : List Span) : Set Nat :=
  {x | ∃ s ∈ l, x ∈ s.range}

/-- Sorted non-empty spans that neither overlap nor touch. -/
def Apart (l : List Span) : Prop :=
  (∀ s ∈ l, 0 < s.length) ∧ l.Pairwise (fun s t => s.stop < t.start)

section Cover

variable {s t : Span} {l l₁ l₂ pieces : List Span} {x lo hi : Nat}

theorem mem_range : x ∈ s.range ↔ s.start ≤ x ∧ x < s.stop :=
  Iff.rfl

@[simp] theorem cover_nil : cover [] = ∅ := by
  ext x
  simp [cover]

theorem cover_cons : cover (s :: l) = s.range ∪ cover l := by
  ext x
  simp [cover]

theorem cover_append : cover (l₁ ++ l₂) = cover l₁ ∪ cover l₂ := by
  induction l₁ with
  | nil => simp
  | cons s l₁ ih => rw [cons_append, cover_cons, cover_cons, ih, Set.union_assoc]

end Cover

namespace Apart

variable {s t : Span} {l l₁ l₂ pieces : List Span} {x lo hi : Nat}

theorem nil : Apart [] :=
  ⟨fun _ h => absurd h not_mem_nil, List.Pairwise.nil⟩

theorem append_iff :
    Apart (l₁ ++ l₂) ↔
      Apart l₁ ∧ Apart l₂ ∧ ∀ s ∈ l₁, ∀ t ∈ l₂, s.stop < t.start := by
  constructor
  · rintro ⟨hpos, hpair⟩
    obtain ⟨h₁, h₂, h₁₂⟩ := pairwise_append.mp hpair
    refine ⟨⟨fun s hs => hpos s (mem_append_left _ hs), h₁⟩,
      ⟨fun s hs => hpos s (mem_append_right _ hs), h₂⟩, h₁₂⟩
  · rintro ⟨h₁, h₂, h₁₂⟩
    refine ⟨fun s hs => ?_, pairwise_append.mpr ⟨h₁.2, h₂.2, h₁₂⟩⟩
    rcases mem_append.mp hs with hs | hs
    · exact h₁.1 s hs
    · exact h₂.1 s hs

theorem cons_iff :
    Apart (s :: l) ↔ 0 < s.length ∧ Apart l ∧ ∀ t ∈ l, s.stop < t.start := by
  constructor
  · rintro ⟨hpos, hpair⟩
    obtain ⟨hs, hl⟩ := pairwise_cons.mp hpair
    exact ⟨hpos s mem_cons_self, ⟨fun t ht => hpos t (mem_cons_of_mem _ ht), hl⟩, hs⟩
  · rintro ⟨hpos, hl, hs⟩
    exact ⟨forall_mem_cons.mpr ⟨hpos, hl.1⟩, pairwise_cons.mpr ⟨hs, hl.2⟩⟩

theorem singleton
    (h : 0 < s.length) :
    Apart [s] :=
  cons_iff.mpr ⟨h, nil, fun _ ht => absurd ht not_mem_nil⟩

/-- A span of a list is cut into pieces. -/
theorem cut
    (h : Apart (l₁ ++ s :: l₂))
    (hpieces : Apart pieces)
    (hinside : ∀ t ∈ pieces, s.start ≤ t.start ∧ t.stop ≤ s.stop) :
    Apart (l₁ ++ (pieces ++ l₂)) := by
  obtain ⟨h₁, hs, h₁s⟩ := append_iff.mp h
  obtain ⟨-, h₂, hs₂⟩ := cons_iff.mp hs
  have hafter : ∀ t ∈ pieces, ∀ u ∈ l₂, t.stop < u.start :=
    fun t ht u hu => lt_of_le_of_lt (hinside t ht).2 (hs₂ u hu)
  refine append_iff.mpr ⟨h₁, append_iff.mpr ⟨hpieces, h₂, hafter⟩, ?_⟩
  intro t ht u hu
  rcases mem_append.mp hu with hu | hu
  · exact lt_of_lt_of_le (h₁s t ht s mem_cons_self) (hinside u hu).1
  · exact h₁s t ht u (mem_cons_of_mem _ hu)

/-- The other spans hold no number of a span. -/
theorem disjoint_range
    (h : Apart (l₁ ++ s :: l₂)) :
    Disjoint (cover l₁ ∪ cover l₂) s.range := by
  obtain ⟨-, hs, h₁s⟩ := append_iff.mp h
  obtain ⟨-, -, hs₂⟩ := cons_iff.mp hs
  rw [Set.disjoint_left]
  rintro x (⟨t, ht, hx⟩ | ⟨t, ht, hx⟩) hxs
  · have hlt := h₁s t ht s mem_cons_self
    rw [mem_range] at hx hxs
    omega
  · have hlt := hs₂ t ht
    rw [mem_range] at hx hxs
    omega

/-- Cutting a span into pieces removes from the set what the pieces leave out. -/
theorem cover_cut
    (h : Apart (l₁ ++ s :: l₂))
    {removed : Set Nat}
    (hpieces : cover pieces = s.range \ removed)
    (hremoved : removed ⊆ s.range) :
    cover (l₁ ++ (pieces ++ l₂)) = cover (l₁ ++ s :: l₂) \ removed := by
  have hdisjoint := h.disjoint_range
  rw [Set.disjoint_left] at hdisjoint
  ext x
  rw [cover_append, cover_append, cover_append, cover_cons, hpieces]
  simp only [Set.mem_union, Set.mem_sdiff]
  constructor
  · rintro (hx | ⟨hx, hnot⟩ | hx)
    · exact ⟨Or.inl hx, fun hr => hdisjoint (Or.inl hx) (hremoved hr)⟩
    · exact ⟨Or.inr (Or.inl hx), hnot⟩
    · exact ⟨Or.inr (Or.inr hx), fun hr => hdisjoint (Or.inr hx) (hremoved hr)⟩
  · rintro ⟨hx | hx | hx, hnot⟩
    · exact Or.inl hx
    · exact Or.inr (Or.inl ⟨hx, hnot⟩)
    · exact Or.inr (Or.inr hx)

/-- Two spans that hold neighbours are the same. -/
theorem eq_of_neighbours
    (h : Apart l)
    (hs : s ∈ l)
    (ht : t ∈ l)
    (hx : s.start ≤ x ∧ x < s.stop)
    (hy : t.start ≤ x + 1 ∧ x + 1 < t.stop) :
    s = t := by
  by_contra hne
  rcases mem_iff_append.mp hs with ⟨l₁, l₂, rfl⟩
  obtain ⟨-, hs', h₁s⟩ := append_iff.mp h
  obtain ⟨-, -, hs₂⟩ := cons_iff.mp hs'
  rcases mem_append.mp ht with ht | ht
  · have hlt := h₁s t ht s mem_cons_self
    omega
  · rcases mem_cons.mp ht with heq | ht
    · exact hne heq.symm
    · have hlt := hs₂ t ht
      omega

/-- A run of numbers in the set lies in one span. -/
theorem exists_span
    (h : Apart l)
    (hlt : lo < hi)
    (hrun : Set.Ico lo hi ⊆ cover l) :
    ∃ s ∈ l, s.start ≤ lo ∧ hi ≤ s.stop := by
  induction hi, hlt using Nat.le_induction with
  | base =>
      obtain ⟨s, hs, hlo, hstop⟩ := hrun ⟨le_refl lo, Nat.lt_succ_self lo⟩
      exact ⟨s, hs, hlo, hstop⟩
  | succ hi hle ih =>
      obtain ⟨s, hs, hlo, hstop⟩ :=
        ih fun x hx => hrun ⟨hx.1, hx.2.trans (Nat.lt_succ_self hi)⟩
      obtain ⟨t, ht, hstart, hhi⟩ := hrun (show hi ∈ Set.Ico lo (hi + 1) from
        ⟨(Nat.lt_of_succ_le hle).le, Nat.lt_succ_self hi⟩)
      have hsucc : hi - 1 + 1 = hi := Nat.sub_add_cancel (Nat.one_le_of_lt hle)
      have hst : s = t := by
        refine h.eq_of_neighbours hs ht (x := hi - 1) ⟨by omega, by omega⟩ ?_
        rw [hsucc]
        exact ⟨hstart, hhi⟩
      subst hst
      exact ⟨s, hs, hlo, hhi⟩

variable {l' : List Span}

theorem start_le
    (h : Apart (s :: l))
    {x : Nat} (hx : x ∈ cover (s :: l)) :
    s.start ≤ x := by
  obtain ⟨t, ht, hlow, -⟩ := hx
  rcases mem_cons.mp ht with rfl | ht
  · exact hlow
  · have hlt : s.start + s.length < t.start := (cons_iff.mp h).2.2 t ht
    omega

theorem stop_le
    (h : Apart (s :: l))
    (hstart : s.start = t.start)
    (hcover : cover (t :: l') ⊆ cover (s :: l)) :
    t.stop ≤ s.stop := by
  by_contra hlt
  have hle : s.start ≤ s.stop := Nat.le_add_right _ _
  obtain ⟨u, hu, hlow, hhigh⟩ := hcover ⟨t, mem_cons_self, hstart ▸ hle, not_le.mp hlt⟩
  rcases mem_cons.mp hu with rfl | hu
  · exact Nat.lt_irrefl _ hhigh
  · exact absurd ((cons_iff.mp h).2.2 u hu) (not_lt.mpr hlow)

/-- The set determines the spans. -/
theorem ext
    (h : Apart l)
    (h' : Apart l')
    (hcover : cover l = cover l') :
    l = l' := by
  have hnil : ∀ {s : Span} {l : List Span}, Apart (s :: l) → cover (s :: l) ≠ ∅ := fun h =>
    Set.Nonempty.ne_empty ⟨_, _, mem_cons_self, le_refl _, Nat.lt_add_of_pos_right
      (cons_iff.mp h).1⟩
  induction l generalizing l' with
  | nil =>
      cases l' with
      | nil => rfl
      | cons t l' => exact absurd (hcover.symm.trans cover_nil) (hnil h')
  | cons s l ih =>
      cases l' with
      | nil => exact absurd (hcover.trans cover_nil) (hnil h)
      | cons t l' =>
          obtain ⟨hs, hl, hsl⟩ := cons_iff.mp h
          obtain ⟨ht, hl', htl'⟩ := cons_iff.mp h'
          have hstart : s.start = t.start := by
            have hle := h'.start_le (hcover.le ⟨s, mem_cons_self, le_refl _,
              Nat.lt_add_of_pos_right hs⟩)
            have hge := h.start_le (hcover.ge ⟨t, mem_cons_self, le_refl _,
              Nat.lt_add_of_pos_right ht⟩)
            omega
          have hstop : s.stop = t.stop :=
            le_antisymm (h'.stop_le hstart.symm hcover.le) (h.stop_le hstart hcover.ge)
          obtain rfl : s = t := by
            cases s
            cases t
            simp only [stop] at hstart hstop
            congr
            omega
          have hrest : ∀ l : List Span, Apart (s :: l) → cover l = cover (s :: l) \ s.range := by
            intro l h
            have hdisjoint := @disjoint_range s [] l h
            rw [cover_nil, Set.empty_union] at hdisjoint
            rw [cover_cons, Set.union_sdiff_left, hdisjoint.sdiff_eq_left]
          rw [ih hl hl' (by rw [hrest l h, hrest l' h', hcover])]

end Apart

section Join

variable {s t : Span}

/-- Two spans that touch, as one. -/
def join (s t : Span) : Span :=
  ⟨s.start, s.length + t.length⟩

theorem range_join
    (h : s.stop = t.start) :
    (s.join t).range = s.range ∪ t.range := by
  have hstop : (s.join t).stop = t.stop := by
    simp only [join, stop] at h ⊢
    omega
  rw [range, hstop]
  change Set.Ico s.start t.stop = Set.Ico s.start s.stop ∪ Set.Ico t.start t.stop
  rw [h]
  refine (Set.Ico_union_Ico_eq_Ico ?_ (Nat.le_add_right t.start t.length)).symm
  rw [← h]
  exact Nat.le_add_right s.start s.length

end Join

end Span

end Udk
