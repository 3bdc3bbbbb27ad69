import Udk.OrderedCollection.Links

/-!
# Walks over a collection

`OrderedCollectionNext` and `OrderedCollectionPrev` follow the order of the tree, and
a collection in order passes `RedBlackTreeValidate`.
-/

namespace Udk
namespace OrderedCollection

open RedBlack List

variable {α κ : Type} {h : Heap α} {root : Ptr} {ctx : Context NodeId α} {t : RbTree NodeId α}
variable {s : Side} {fuel : Nat}

/-- The pointer to the first node of a list. -/
def first (nodes : List (NodeId × α)) : Ptr :=
  nodes.head?.map Prod.fst

theorem descend_spec {p : Ptr} (hfuel : t.toList.length ≤ fuel) (hl : Links h p t)
    (hne : t ≠ .nil) : descend h s.other fuel t.root = .ok (first (t.listTo s)) := by
  induction fuel generalizing p t with
  | zero =>
      rw [← RbTree.length_listTo s, Nat.le_zero, length_eq_zero_iff] at hfuel
      exact absurd (RbTree.listTo_eq_nil hfuel) hne
  | succ fuel ih =>
      obtain ⟨c, x, i, a, y, rfl⟩ := RbTree.eq_join_of_ne_nil s.other hne
      obtain ⟨hi, hx, -⟩ := (links_join ..).mp hl
      have hlist := RbTree.listTo_other_join s.other c x i a y
      rw [Side.other_other] at hlist
      have hlen := RbTree.length_listTo s (.join s.other c x i a y)
      rw [hlist, length_append, length_cons, RbTree.length_listTo] at hlen
      rw [RbTree.root_join, descend, Heap.deref_eq hi, ok_bind, Node.child_ofSide, hlist]
      cases hx0 : x.root with
      | none =>
          obtain rfl := RbTree.root_eq_none.mp hx0
          simp only [Option.isNone_none, if_true, RbTree.listTo_nil]
          rfl
      | some j =>
          have hxne : x ≠ .nil := fun he => by rw [he] at hx0; cases hx0
          rw [← hx0]
          have hih := ih (by omega) hx hxne
          simp only [hx0, Option.isNone_some, Bool.false_eq_true, if_false] at hih ⊢
          rw [hih]
          cases hxl : x.listTo s with
          | nil => exact absurd (RbTree.listTo_eq_nil hxl) hxne
          | cons q more => rfl

theorem ascend_spec {hole : NodeId} (hfuel : ctx.length < fuel)
    (hl : ContextLinks h none ctx (some hole)) (hnot : hole ∉ Context.ids ctx)
    (hnd : (Context.ids ctx).Nodup) :
    ascend h s fuel (some hole) (placeParent none ctx) = .ok (first (Context.beyond s ctx)) := by
  induction fuel generalizing hole ctx with
  | zero => exact absurd hfuel (Nat.not_lt_zero _)
  | succ fuel ih =>
      cases ctx with
      | nil => rfl
      | cons f ctx =>
          obtain ⟨hf, -, hctx⟩ := hl
          simp only [Context.ids, mem_cons, mem_append, not_or] at hnot
          simp only [Context.ids, nodup_cons, mem_append, not_or,
            nodup_append'] at hnd
          simp only [placeParent_cons, ascend, Heap.deref_eq hf, ok_bind, Context.beyond]
          by_cases hs : f.side = s
          · have hchild : (some hole == (Node.ofSide f.side f.value (placeParent none ctx)
                (some hole) f.sibling.root f.color).child s) = true := by
              rw [← hs, Node.child_ofSide, beq_self_eq_true]
            rw [if_pos hchild, Node.parent_ofSide, if_pos hs]
            exact ih (by simpa using hfuel) hctx hnd.1.2 hnd.2.2.1
          · have hother : s = f.side.other := by
              cases s <;> cases hfs : f.side <;> simp_all [Side.other]
            have hsib : f.sibling.root ≠ some hole := fun heq =>
              hnot.2.1 (RbTree.mem_ids_of_root heq)
            have hchild : (some hole == (Node.ofSide f.side f.value (placeParent none ctx)
                (some hole) f.sibling.root f.color).child s) = false := by
              rw [hother, Node.child_other_ofSide, beq_eq_false_iff_ne]
              exact Ne.symm hsib
            rw [hchild, if_neg hs]
            rfl

theorem Holds.neighbour {c : Color} {x y : RbTree NodeId α} {i : NodeId} {a : α}
    (hh : Holds h root (Context.plug ctx (.join s c x i a y)))
    (hfuel : (Context.plug ctx (.join s c x i a y)).toList.length < fuel) :
    neighbour h s fuel (some i) = .ok (first (x.listTo s ++ Context.beyond s ctx)) := by
  obtain ⟨hctx, hnode⟩ := (links_plug _).mp hh.links
  obtain ⟨hi, hx, -⟩ := (links_join ..).mp hnode
  obtain ⟨hnd, hndctx, hdis⟩ := Context.nodup_plug.mp hh.nodup
  have hlen : x.toList.length + ctx.length < fuel := by
    have hplug := Context.length_toList_plug ctx (.join s c x i a y)
    have hjoin := (RbTree.ids_join_perm s c x i a y).length_eq
    have hctxlen := Context.length_le_ids ctx
    simp only [RbTree.ids, length_map, length_append, length_cons] at hjoin
    omega
  simp only [OrderedCollection.neighbour, Heap.deref_eq hi, ok_bind, Node.child_ofSide,
    Node.parent_ofSide]
  cases hx0 : x.root with
  | none =>
      obtain rfl := RbTree.root_eq_none.mp hx0
      rw [RbTree.root_join] at hctx
      simp only [Option.isSome_none, Bool.false_eq_true, if_false, RbTree.listTo_nil,
        nil_append]
      exact ascend_spec (by omega) hctx
        (hdis ((RbTree.mem_ids_join ..).mpr (Or.inl rfl))) hndctx
  | some j =>
      have hxne : x ≠ .nil := fun he => by rw [he] at hx0; cases hx0
      have hdesc := descend_spec (s := s) (by omega : x.toList.length ≤ fuel) hx hxne
      rw [hx0] at hdesc
      simp only [Option.isSome_some, if_true, hdesc]
      cases hxl : x.listTo s with
      | nil => exact absurd (RbTree.listTo_eq_nil hxl) hxne
      | cons q more => rfl

theorem Holds.neighbour_of_split (hh : Holds h root t) {before after : List (NodeId × α)}
    {i : NodeId} {a : α} (hsplit : t.listTo s = before ++ (i, a) :: after)
    (hfuel : t.toList.length < fuel) :
    OrderedCollection.neighbour h s fuel (some i) = .ok (first after) := by
  have hmem : (i, a) ∈ t.toList := by
    rw [← RbTree.mem_listTo (s := s), hsplit]
    simp
  obtain ⟨ctx, c, l, r, rfl⟩ := Context.exists_plug hmem
  obtain ⟨x, y, hjoin⟩ : ∃ x y, RbTree.node c l i a r = .join s c x i a y := by
    cases s with
    | left => exact ⟨l, r, rfl⟩
    | right => exact ⟨r, l, rfl⟩
  rw [hjoin] at hh hsplit hfuel
  rw [hh.neighbour hfuel]
  obtain ⟨passed, hpassed⟩ := Context.listTo_plug s ctx (.join s c x i a y)
  rw [RbTree.listTo_join] at hpassed
  have hnd := RbTree.nodup_listTo s hh.nodup
  have heq : (passed ++ y.listTo s) ++ (i, a) :: (x.listTo s ++ Context.beyond s ctx) =
      before ++ (i, a) :: after := by
    rw [← hsplit, hpassed]
    simp
  have hafter : x.listTo s ++ Context.beyond s ctx = after := by
    rw [hsplit, ← heq, map_append, map_cons, nodup_append', nodup_cons] at hnd
    obtain ⟨-, ⟨hz, -⟩, hdis⟩ := hnd
    refine ((append_cons_inj_of_notMem ?_ ?_).mp heq).2.2
    · exact fun hin => hdis (mem_map_of_mem hin) mem_cons_self
    · exact fun hin => hz (mem_map_of_mem hin)
  rw [hafter]

section Validate

theorem redBlackTreeRecursiveCheck_spec {p : Ptr} {n : Nat} (hfuel : t.toList.length < fuel)
    (hl : Links h p t) (hred : t.NoRedRed) (hheight : t.HasHeight n) :
    redBlackTreeRecursiveCheck h fuel t.root = .ok (UInt32.ofNat (n + 1)) := by
  induction fuel generalizing p t n with
  | zero => exact absurd hfuel (Nat.not_lt_zero _)
  | succ fuel ih =>
      cases t with
      | nil =>
          obtain rfl : n = 0 := hheight
          rfl
      | node c l i a r =>
          obtain ⟨hi, hll, hlr⟩ := hl
          obtain ⟨m, hhl, hhr, rfl⟩ := hheight
          simp only [RbTree.toList, length_append, length_cons] at hfuel
          simp only [RbTree.root_node, redBlackTreeRecursiveCheck, Heap.deref_eq hi, ok_bind,
            hll.nodeIsNullOrBlack, hlr.nodeIsNullOrBlack, ih (by omega) hll hred.2.1 hhl,
            ih (by omega) hlr hred.2.2 hhr, assert, beq_self_eq_true, if_true]
          cases c with
          | red =>
              obtain ⟨hlb, hrb⟩ := hred.1 rfl
              rw [hlb, hrb]
              exact congrArg Except.ok (UInt32.zero_add _)
          | black =>
              refine congrArg Except.ok ?_
              show 1 + UInt32.ofNat (m + 1) = UInt32.ofNat (m + 1 + 1)
              rw [UInt32.ofNat_add (m + 1), UInt32.add_comm]
              rfl

theorem checkOrder_spec (hh : Holds h root t) {compare : α → α → Int} {inOrder : Int → Bool}
    {before after : List (NodeId × α)} {i : NodeId} {a : α} {count : UInt32} {walkFuel : Nat}
    (hsplit : t.listTo s = before ++ (i, a) :: after)
    (horder : (t.listTo s).Pairwise fun p q => inOrder (compare p.2 q.2) = true)
    (hwalk : t.toList.length < walkFuel) (hfuel : after.length < fuel) :
    checkOrder h s walkFuel compare inOrder fuel (some i) count =
      .ok (count + UInt32.ofNat after.length) := by
  induction after generalizing before i a count fuel with
  | nil =>
      obtain ⟨fuel, rfl⟩ : ∃ m, fuel = m + 1 := ⟨fuel - 1, by omega⟩
      rw [checkOrder, hh.neighbour_of_split hsplit hwalk]
      exact congrArg Except.ok (UInt32.add_zero _).symm
  | cons q after ih =>
      obtain ⟨fuel, rfl⟩ : ∃ m, fuel = m + 1 := ⟨fuel - 1, by omega⟩
      obtain ⟨j, b⟩ := q
      have hmem : ∀ p ∈ (i, a) :: (j, b) :: after, p ∈ t.toList := fun p hp => by
        rw [← RbTree.mem_listTo (s := s), hsplit]
        exact mem_append_right _ hp
      obtain ⟨node, hnode, hstruct⟩ := hh.links.exists_node (hmem (i, a) (by simp))
      obtain ⟨node', hnode', hstruct'⟩ := hh.links.exists_node (hmem (j, b) (by simp))
      have hnext : inOrder (compare a b) = true := by
        rw [hsplit] at horder
        exact (pairwise_cons.mp (pairwise_append.mp horder).2.1).1 (j, b) (by simp)
      have hsplit' : t.listTo s = (before ++ [(i, a)]) ++ (j, b) :: after := by
        simpa using hsplit
      have hih := fun count => @ih _ (before ++ [(i, a)]) j b count hsplit' (by simpa using hfuel)
      simp only [checkOrder, hh.neighbour_of_split hsplit hwalk, ok_bind, first, head?_cons,
        Option.map_some, Option.isNone_some, Bool.false_eq_true, if_false, Heap.deref_eq hnode,
        Heap.deref_eq hnode', hstruct, hstruct', assert, hnext, if_true, hih]
      refine congrArg Except.ok ?_
      rw [length_cons, UInt32.ofNat_add, UInt32.add_assoc, UInt32.add_comm 1]
      rfl

theorem outermost_spec {tree : Collection α κ} (hh : Holds h tree.root t)
    (hfuel : t.toList.length ≤ fuel) :
    outermost h s.other fuel tree = .ok (first (t.listTo s)) := by
  rw [outermost, hh.root_eq]
  cases hroot : t.root with
  | none =>
      obtain rfl := RbTree.root_eq_none.mp hroot
      rw [RbTree.listTo_nil]
      rfl
  | some i =>
      have hne : t ≠ .nil := fun he => by rw [he] at hroot; cases hroot
      rw [← descend_spec hfuel hh.links hne, hroot]
      rfl

theorem checkOrder_outermost (hh : Holds h root t) {compare : α → α → Int}
    (inOrder : Int → Bool)
    (horder : (t.listTo s).Pairwise fun p q => inOrder (compare p.2 q.2) = true)
    (hfuel : t.toList.length < fuel) :
    checkOrder h s fuel compare inOrder fuel (first (t.listTo s))
      (if (first (t.listTo s)).isSome then 1 else 0) = .ok (UInt32.ofNat t.toList.length) := by
  have hlen := RbTree.length_listTo s t
  cases hlist : t.listTo s with
  | nil =>
      obtain ⟨fuel, rfl⟩ : ∃ m, fuel = m + 1 := ⟨fuel - 1, by omega⟩
      rw [← hlen, hlist]
      rfl
  | cons q after =>
      obtain ⟨i, a⟩ := q
      rw [hlist, length_cons] at hlen
      have hcount := (checkOrder_spec hh (show t.listTo s = [] ++ (i, a) :: after from hlist) horder hfuel
        (by omega : after.length < fuel) : _ = Except.ok (1 + UInt32.ofNat after.length))
      refine hcount.trans (congrArg Except.ok ?_)
      rw [← hlen, UInt32.ofNat_add, UInt32.add_comm]
      rfl

end Validate

section Valid

/-- A comparison of user structures that orders them. -/
structure Orders (compare : α → α → Int) : Prop where
  swap : ∀ a b, compare a b < 0 ↔ 0 < compare b a
  trans : ∀ a b c, compare a b ≤ 0 → compare b c ≤ 0 → compare a c ≤ 0

theorem Orders.lt_trans {compare : α → α → Int} (ho : Orders compare) {a b c : α}
    (hab : compare a b < 0) (hbc : compare b c < 0) : compare a c < 0 := by
  have hle := ho.trans a b c hab.le hbc.le
  rcases lt_or_eq_of_le hle with hlt | heq
  · exact hlt
  · have hca : compare c a ≤ 0 := by
      by_contra hcon
      have hac := (ho.swap a c).mpr (not_le.mp hcon)
      omega
    have hba := ho.trans b c a hbc.le hca
    have hab' := (ho.swap a b).mp hab
    omega

/-- The user structures are in order. -/
def Ordered (compare : α → α → Int) (t : RbTree NodeId α) : Prop :=
  t.toList.Pairwise fun p q => compare p.2 q.2 < 0

/-- The collection is a red-black tree in memory and ordered. -/
structure Valid (h : Heap α) (tree : Collection α κ) (t : RbTree NodeId α) : Prop where
  holds : Holds h tree.root t
  isRedBlack : t.IsRedBlack
  ordered : Ordered tree.userStructCompare t

theorem Valid.validate {tree : Collection α κ} (hv : Valid h tree t)
    (ho : Orders tree.userStructCompare) (hfuel : t.toList.length < fuel) :
    redBlackTreeValidate h fuel tree = .ok () := by
  obtain ⟨n, hn⟩ := hv.isRedBlack.balanced
  have hright : (t.listTo .right).Pairwise fun p q =>
      decide (tree.userStructCompare p.2 q.2 < 0) = true := by
    simpa [RbTree.listTo, Ordered] using hv.ordered
  have hleft : (t.listTo .left).Pairwise fun p q =>
      decide (0 < tree.userStructCompare p.2 q.2) = true := by
    rw [RbTree.listTo, pairwise_reverse]
    exact hv.ordered.imp fun hlt => by simpa using (ho.swap _ _).mp hlt
  have hforward := checkOrder_outermost hv.holds (fun result => decide (result < 0)) hright hfuel
  have hbackward := checkOrder_outermost hv.holds (fun result => decide (0 < result)) hleft hfuel
  have hmin : orderedCollectionMin h fuel tree = .ok (first (t.listTo .right)) :=
    outermost_spec (s := .right) hv.holds hfuel.le
  have hmax : orderedCollectionMax h fuel tree = .ok (first (t.listTo .left)) :=
    outermost_spec (s := .left) hv.holds hfuel.le
  simp only [redBlackTreeValidate, hv.holds.root_eq, hv.holds.links.nodeIsNullOrBlack,
    hv.isRedBlack.root_black, redBlackTreeRecursiveCheck_spec hfuel hv.holds.links
      hv.isRedBlack.noRedRed hn, ok_bind, assert, beq_self_eq_true, if_true, hmin, hmax,
    hforward, hbackward]

end Valid

section Sample

/-- Two nodes in memory. -/
def sampleHeap : Heap Int := fun i =>
  if i = 0 then some ⟨5, none, some 1, none, .black⟩
  else if i = 1 then some ⟨3, some 0, none, none, .red⟩
  else none

def sampleCollection : Collection Int Int :=
  ⟨some 0, fun a b => a - b, fun key a => key - a⟩

theorem orders_sub : Orders (fun a b : Int => a - b) where
  swap a b := by omega
  trans a b c := by omega

theorem valid_sample :
    Valid sampleHeap sampleCollection
      (.node .black (.node .red .nil 1 3 .nil) 0 5 .nil) where
  holds := ⟨⟨rfl, ⟨rfl, trivial, trivial⟩, trivial⟩, rfl, by decide⟩
  isRedBlack := {
    noRedRed := ⟨(fun h => by cases h), ⟨fun _ => ⟨rfl, rfl⟩, trivial, trivial⟩, trivial⟩
    balanced := ⟨1, 0, ⟨0, rfl, rfl, rfl⟩, rfl, rfl⟩
    root_black := rfl }
  ordered := by simp [Ordered, RbTree.toList, sampleCollection]

end Sample

end OrderedCollection
end Udk
