import Udk.Ip4.FragmentList

/-!
# One entry of the assemble table

What an entry keeps of the fragments it has received, and how one more fragment changes
it.  The byte counter reaches the length of the payload exactly when the fragments cover
it.
-/

namespace Udk
namespace Ip4

open NetLib Extent Extents List

variable {payload : List UInt8} {packet packet' node prev : Packet}
  {fragments received before after covered rest : List Packet} {entry : AssembleEntry}
  {curLen lo hi x : Int}

section Received

/-- A fragment of a payload; the last one ends where the payload does. -/
structure FragmentOf (payload : List UInt8) (packet : Packet) : Prop where
  carries : Carries payload packet
  last_iff : lastFragment packet.ip4.fragment = true ↔ packet.info.end_ = payload.length
  fragment : lastFragment packet.ip4.fragment = false ∨ packet.info.start ≠ 0

/-- The fragments hold every byte of the payload. -/
def Covers (payload : List UInt8) (received : List Packet) : Prop :=
  ∀ x : Int, 0 ≤ x → x < payload.length → Held received x

/-- Two fragments do not hold the same range. -/
def Distinct (a b : Packet) : Prop :=
  a.info.start ≠ b.info.start ∨ a.info.end_ ≠ b.info.end_

/-- The list of an entry holds the bytes of the fragments that have been received. -/
structure ListOk (payload : List UInt8) (received fragments : List Packet) : Prop where
  carries : ∀ node ∈ fragments, Carries payload node
  ordered : Ordered fragments
  distinct : fragments.Pairwise Distinct
  held : ∀ x, Held fragments x ↔ Held received x
  ends : ∀ node ∈ fragments, ∃ r ∈ received, r.info.end_ = node.info.end_

/-- The books of an entry that has received some fragments. -/
structure BooksOk (payload : List UInt8) (received : List Packet) (entry : AssembleEntry) :
    Prop where
  list : ListOk payload received entry.fragments
  curLen_eq : entry.curLen = (entry.fragments.map fun node => node.info.length).sum
  last : (∃ r ∈ received, r.info.end_ = payload.length) → entry.totalLen = payload.length
  noLast : (∀ r ∈ received, r.info.end_ ≠ payload.length) → entry.totalLen = 0
  head_iff : entry.head.isSome ↔ ∃ node ∈ entry.fragments, node.info.start = 0
  info_eq : entry.info.isSome = entry.head.isSome

/-- An entry that has not received all the payload. -/
structure EntryOk (payload : List UInt8) (received : List Packet) (entry : AssembleEntry) :
    Prop extends BooksOk payload received entry where
  incomplete : ¬ Covers payload received

/-- The fragment ends inside a queued one in front of which it brings bytes. -/
def EndsInside (fragments : List Packet) (this : ClipInfo) : Prop :=
  ∃ node ∈ fragments, this.start < node.info.start ∧ node.info.start < this.end_ ∧
    this.end_ < node.info.end_ ∧
    ∀ prev, (inFront this.start fragments).getLast? = some prev →
      prev.info.end_ < node.info.start

/-- The last queued fragment in front of the place of this one is empty and starts where
this one does, which is empty too or is a first fragment. -/
def EmptyAgain (fragments : List Packet) (this : ClipInfo) : Prop :=
  ∃ prev, (inFront this.start fragments).getLast? = some prev ∧
    prev.info.start = this.start ∧ prev.info.end_ = this.start ∧
    (this.end_ = this.start ∨ this.start = 0)

theorem FragmentOf.payload_pos
    (h : FragmentOf payload packet) :
    (0 : Int) < payload.length := by
  have hlow := h.carries.low
  have hle := h.carries.le
  have hhigh := h.carries.high
  rcases h.fragment with hmore | hstart
  · have hend : packet.info.end_ ≠ payload.length := by
      intro heq
      rw [h.last_iff.mpr heq] at hmore
      exact Bool.noConfusion hmore
    omega
  · omega

theorem total_eq_lengths
    (h : ∀ node ∈ fragments, Carries payload node) :
    (fragments.map fun node => node.info.length).sum = total fragments := by
  rw [total]
  congr 1
  exact map_congr_left fun node hnode => (h node hnode).length_eq

theorem within_payload
    (h : ∀ node ∈ fragments, Carries payload node) :
    Within 0 payload.length fragments :=
  fun node hnode => ⟨(h node hnode).low, (h node hnode).high⟩

theorem flatMap_data_of_chained
    (hchain : Chained lo fragments hi)
    (hlow : 0 ≤ lo)
    (h : ∀ node ∈ fragments, Carries payload node) :
    fragments.flatMap Packet.data = NetLib.slice payload lo hi ∧ lo ≤ hi := by
  induction fragments generalizing lo with
  | nil =>
      obtain rfl : lo = hi := hchain
      rw [slice_self]
      exact ⟨rfl, le_refl _⟩
  | cons node rest ih =>
      obtain ⟨hstart, hrest⟩ := hchain
      have hnode := h node mem_cons_self
      have hle := hnode.le
      rw [first_eq] at hstart
      rw [stop_eq] at hrest
      obtain ⟨hdata, hhigh⟩ := ih hrest (by omega)
        (fun other hother => h other (mem_cons_of_mem _ hother))
      refine ⟨?_, by omega⟩
      rw [flatMap_cons, hdata, hnode.data_eq, hstart]
      exact slice_append hlow (by omega) hhigh

end Received

section Lists

theorem ListOk.keep
    (h : ListOk payload received fragments)
    (hnode : node ∈ fragments)
    (hstart : node.info.start ≤ packet.info.start)
    (hend : packet.info.end_ ≤ node.info.end_) :
    ListOk payload (packet :: received) fragments where
  carries := h.carries
  ordered := h.ordered
  distinct := h.distinct
  held x := by
    rw [held_cons, h.held]
    refine ⟨Or.inr, fun hx => ?_⟩
    rcases hx with ⟨hlow, hhigh⟩ | hx
    · rw [first_eq] at hlow
      rw [stop_eq] at hhigh
      exact (h.held x).mp ⟨node, hnode, le_trans hstart hlow, lt_of_lt_of_le hhigh hend⟩
    · exact hx
  ends other hother := by
    obtain ⟨r, hr, heq⟩ := h.ends other hother
    exact ⟨r, mem_cons_of_mem _ hr, heq⟩

/-- Some fragments are removed that a fragment covers, which is covered itself. -/
theorem ListOk.dropped
    (h : ListOk payload received (before ++ (covered ++ rest)))
    (hcovered : ∀ b ∈ covered, packet'.info.start ≤ b.info.start ∧
      b.info.end_ ≤ packet'.info.end_)
    (hnode : node ∈ rest)
    (hstart : node.info.start ≤ packet'.info.start)
    (hend : packet'.info.end_ ≤ node.info.end_)
    (htrimmed : packet'.info.end_ = packet.info.end_)
    (hheld : ∀ x, packet.info.start ≤ x → x < packet'.info.start → Held before x) :
    ListOk payload (packet :: received) (before ++ rest) := by
  have hsub : (before ++ rest).Sublist (before ++ (covered ++ rest)) :=
    List.Sublist.append_left (sublist_append_right covered rest) before
  constructor
  case carries => exact fun b hb => h.carries b (hsub.subset hb)
  case ordered => exact h.ordered.sublist hsub
  case distinct => exact h.distinct.sublist hsub
  case held =>
    intro x
    rw [held_cons, ← h.held, held_append, held_append, held_append]
    constructor
    · rintro (hx | hx)
      · exact Or.inr (Or.inl hx)
      · exact Or.inr (Or.inr (Or.inr hx))
    · rintro (⟨hlow, hhigh⟩ | hx | ⟨b, hb, hlow, hhigh⟩ | hx)
      · rw [first_eq] at hlow
        rw [stop_eq] at hhigh
        rcases lt_or_ge x packet'.info.start with hlt | hge
        · exact Or.inl (hheld x hlow hlt)
        · exact Or.inr ⟨node, hnode, le_trans hstart hge, by rw [stop_eq]; omega⟩
      · exact Or.inl hx
      · have hb' := hcovered b hb
        rw [first_eq] at hlow
        rw [stop_eq] at hhigh
        exact Or.inr ⟨node, hnode, by rw [first_eq]; omega, by rw [stop_eq]; omega⟩
      · exact Or.inr hx
  case ends =>
    intro b hb
    obtain ⟨r, hr, heq⟩ := h.ends b (hsub.subset hb)
    exact ⟨r, mem_cons_of_mem _ hr, heq⟩

/-- A fragment is inserted, and those that it covers are removed. -/
theorem ListOk.inserted
    (h : ListOk payload received (before ++ (covered ++ rest)))
    (hcarries : Carries payload packet')
    (hcovered : ∀ b ∈ covered, packet'.info.start ≤ b.info.start ∧
      b.info.end_ ≤ packet'.info.end_)
    (hfront : ∀ b ∈ before, b.info.end_ ≤ packet'.info.start)
    (hbehind : ∀ b ∈ rest, packet'.info.end_ ≤ b.info.start)
    (hrest : ∀ b ∈ rest, packet'.info.end_ < b.info.end_)
    (hstart : packet.info.start ≤ packet'.info.start)
    (htrimmed : packet'.info.end_ = packet.info.end_)
    (hheld : ∀ x, packet.info.start ≤ x → x < packet'.info.start → Held before x)
    (hdistinct : ∀ b ∈ before, Distinct b packet') :
    ListOk payload (packet :: received) (before ++ packet' :: rest) := by
  have hsub : (before ++ rest).Sublist (before ++ (covered ++ rest)) :=
    List.Sublist.append_left (sublist_append_right covered rest) before
  constructor
  case carries =>
    intro b hb
    rcases mem_append.mp hb with hb | hb
    · exact h.carries b (mem_append_left _ hb)
    · rcases mem_cons.mp hb with rfl | hb
      · exact hcarries
      · exact h.carries b (hsub.subset (mem_append_right _ hb))
  case ordered => exact (h.ordered.sublist hsub).insert hcarries.le hfront hbehind
  case distinct =>
    obtain ⟨h₁, h₂, hbetween⟩ := pairwise_append.mp (h.distinct.sublist hsub)
    refine pairwise_append.mpr ⟨h₁, pairwise_cons.mpr ⟨fun b hb => ?_, h₂⟩, ?_⟩
    · exact Or.inr (ne_of_lt (hrest b hb))
    · exact fun b hb => forall_mem_cons.mpr ⟨hdistinct b hb, hbetween b hb⟩
  case held =>
    intro x
    rw [held_cons, ← h.held, held_append, held_append, held_append, held_cons]
    simp only [first_eq, stop_eq]
    constructor
    · rintro (hx | ⟨hlow, hhigh⟩ | hx)
      · exact Or.inr (Or.inl hx)
      · exact Or.inl ⟨le_trans hstart hlow, by omega⟩
      · exact Or.inr (Or.inr (Or.inr hx))
    · rintro (⟨hlow, hhigh⟩ | hx | ⟨b, hb, hlow, hhigh⟩ | hx)
      · rcases lt_or_ge x packet'.info.start with hlt | hge
        · exact Or.inl (hheld x hlow hlt)
        · exact Or.inr (Or.inl ⟨hge, by omega⟩)
      · exact Or.inl hx
      · have hb' := hcovered b hb
        rw [first_eq] at hlow
        rw [stop_eq] at hhigh
        exact Or.inr (Or.inl ⟨by omega, by omega⟩)
      · exact Or.inr (Or.inr hx)
  case ends =>
    intro b hb
    rcases mem_append.mp hb with hb | hb
    · obtain ⟨r, hr, heq⟩ := h.ends b (mem_append_left _ hb)
      exact ⟨r, mem_cons_of_mem _ hr, heq⟩
    · rcases mem_cons.mp hb with rfl | hb
      · exact ⟨packet, mem_cons_self, htrimmed.symm⟩
      · obtain ⟨r, hr, heq⟩ := h.ends b (hsub.subset (mem_append_right _ hb))
        exact ⟨r, mem_cons_of_mem _ hr, heq⟩

theorem ListOk.covers_iff
    (h : ListOk payload received fragments) :
    Covers payload received ↔ (payload.length : Int) ≤ total fragments := by
  have hwithin := within_payload h.carries
  constructor
  · intro hcovers
    have hchain := h.ordered.chained_of_held hwithin (Int.natCast_nonneg _)
      (fun x hx hx' => (h.held x).mpr (hcovers x hx hx'))
    rw [hchain.total_eq]
    omega
  · intro htotal x hx hx'
    have hchain := h.ordered.chained hwithin (Int.natCast_nonneg _) (by omega)
    exact (h.held x).mp (hchain.held hx hx')

end Lists

end Ip4
end Udk
