import Udk.OrderedCollection.RedBlackTreeLib

/-!
# Trees in memory

`Links h p t` says that memory holds the tree `t` below the parent `p`, and
`ContextLinks` the same of the frames around a place.  Together they describe a
collection (`Holds`).  The lemmas give what a read sees and what a write leaves.
-/

namespace Udk
namespace OrderedCollection

open RedBlack List

variable {α κ : Type}

/-- The node with its child on side `s` given first. -/
def Node.ofSide (s : Side) (a : α) (parent x y : Ptr) (c : Color) : Node α :=
  match s with
  | .left => ⟨a, parent, x, y, c⟩
  | .right => ⟨a, parent, y, x, c⟩

section Node

variable (s : Side) (a : α) (parent x y p : Ptr) (c c' : Color)

@[simp] theorem Node.userStruct_ofSide : (Node.ofSide s a parent x y c).userStruct = a := by
  cases s <;> rfl

@[simp] theorem Node.parent_ofSide : (Node.ofSide s a parent x y c).parent = parent := by
  cases s <;> rfl

@[simp] theorem Node.color_ofSide : (Node.ofSide s a parent x y c).color = c := by
  cases s <;> rfl

@[simp] theorem Node.child_ofSide : (Node.ofSide s a parent x y c).child s = x := by
  cases s <;> rfl

@[simp] theorem Node.child_other_ofSide :
    (Node.ofSide s a parent x y c).child s.other = y := by
  cases s <;> rfl

@[simp] theorem Node.setChild_ofSide :
    (Node.ofSide s a parent x y c).setChild s p = Node.ofSide s a parent p y c := by
  cases s <;> rfl

@[simp] theorem Node.setChild_other_ofSide :
    (Node.ofSide s a parent x y c).setChild s.other p = Node.ofSide s a parent x p c := by
  cases s <;> rfl

@[simp] theorem Node.setParent_ofSide :
    (Node.ofSide s a parent x y c).setParent p = Node.ofSide s a p x y c := by
  cases s <;> rfl

@[simp] theorem Node.setColor_ofSide :
    (Node.ofSide s a parent x y c).setColor c' = Node.ofSide s a parent x y c' := by
  cases s <;> rfl

theorem Node.sideOf_ofSide {s : Side} {a : α} {pp p q : Ptr} {c : Color} (hne : q ≠ p) :
    (Node.ofSide s a pp p q c).sideOf p = s := by
  cases s with
  | left => simp [Node.ofSide, Node.sideOf]
  | right => simp [Node.ofSide, Node.sideOf, Ne.symm hne]

end Node

@[simp] theorem ok_bind {β γ : Type} (x : β) (f : β → Except Fault γ) :
    (Except.ok x >>= f) = f x :=
  rfl

@[simp] theorem red_beq_black : (Color.red == Color.black) = false :=
  rfl

section Heap

variable {h : Heap α} {i : NodeId} {node : Node α}

theorem Heap.deref_eq (hi : h i = some node) : h.deref (some i) = .ok node := by
  simp [Heap.deref, hi]

theorem Heap.store_eq (hi : h i = some node) (f : Node α → Node α) :
    h.store (some i) f = .ok (Function.update h i (some (f node))) := by
  simp [Heap.store, hi]

theorem Heap.free_eq (hi : h i = some node) :
    h.free (some i) = .ok (Function.update h i none) := by
  simp [Heap.free, hi]

end Heap

/-- Memory holds the tree, and its root has the parent `p`. -/
def Links (h : Heap α) : Ptr → RbTree NodeId α → Prop
  | _, .nil => True
  | p, .node c l i a r =>
      h i = some ⟨a, p, l.root, r.root, c⟩ ∧ Links h (some i) l ∧ Links h (some i) r

/-- The parent of a place. -/
def placeParent (p : Ptr) : Context NodeId α → Ptr
  | [] => p
  | f :: _ => some f.id

@[simp] theorem placeParent_cons (p : Ptr) (f : Frame NodeId α) (ctx : Context NodeId α) :
    placeParent p (f :: ctx) = some f.id :=
  rfl

/-- Memory holds the frames, below the parent `p`, and they link to `hole`. -/
def ContextLinks (h : Heap α) (p : Ptr) : Context NodeId α → Ptr → Prop
  | [], _ => True
  | f :: ctx, hole =>
      h f.id = some (Node.ofSide f.side f.value (placeParent p ctx) hole f.sibling.root f.color) ∧
        Links h (some f.id) f.sibling ∧ ContextLinks h p ctx (some f.id)

section Links

variable {h h' : Heap α} {p : Ptr} {ctx : Context NodeId α} {t : RbTree NodeId α}

theorem links_join (s : Side) (c : Color) (x : RbTree NodeId α) (i : NodeId) (a : α)
    (y : RbTree NodeId α) :
    Links h p (.join s c x i a y) ↔
      h i = some (Node.ofSide s a p x.root y.root c) ∧ Links h (some i) x ∧
        Links h (some i) y := by
  cases s with
  | left => rfl
  | right =>
      simp only [RbTree.join, Links, Node.ofSide]
      tauto

theorem links_plug (hole : RbTree NodeId α) :
    Links h p (Context.plug ctx hole) ↔
      ContextLinks h p ctx hole.root ∧ Links h (placeParent p ctx) hole := by
  induction ctx generalizing hole with
  | nil => simp [ContextLinks, placeParent]
  | cons f ctx ih =>
      rw [Context.plug_cons, ih, Frame.fill, links_join, RbTree.root_join]
      simp only [ContextLinks, placeParent]
      tauto

theorem Links.congr (hl : Links h p t) (heq : ∀ i ∈ t.ids, h' i = h i) : Links h' p t := by
  induction t generalizing p with
  | nil => trivial
  | node c l i a r ihl ihr =>
      have hids := RbTree.mem_ids_join .left c l i a r
      obtain ⟨hi, hll, hlr⟩ := hl
      refine ⟨?_, ihl hll fun j hj => heq j ((hids j).mpr (Or.inr (Or.inl hj))),
        ihr hlr fun j hj => heq j ((hids j).mpr (Or.inr (Or.inr hj)))⟩
      rw [heq i ((hids i).mpr (Or.inl rfl)), hi]

theorem ContextLinks.congr {hole : Ptr} (hl : ContextLinks h p ctx hole)
    (heq : ∀ i ∈ Context.ids ctx, h' i = h i) : ContextLinks h' p ctx hole := by
  induction ctx generalizing hole with
  | nil => trivial
  | cons f ctx ih =>
      simp only [Context.ids, mem_cons, mem_append] at heq
      obtain ⟨hf, hs, hctx⟩ := hl
      refine ⟨?_, hs.congr fun i hi => heq i (Or.inr (Or.inl hi)),
        ih hctx fun i hi => heq i (Or.inr (Or.inr hi))⟩
      rw [heq f.id (Or.inl rfl), hf]

theorem Links.update (hl : Links h p t) {i : NodeId} (hi : i ∉ t.ids) (v : Option (Node α)) :
    Links (Function.update h i v) p t :=
  hl.congr fun _ hj => Function.update_of_ne (ne_of_mem_of_not_mem hj hi) _ _

theorem ContextLinks.update {hole : Ptr} (hl : ContextLinks h p ctx hole) {i : NodeId}
    (hi : i ∉ Context.ids ctx) (v : Option (Node α)) :
    ContextLinks (Function.update h i v) p ctx hole :=
  hl.congr fun _ hj => Function.update_of_ne (ne_of_mem_of_not_mem hj hi) _ _

theorem Links.exists_node (hl : Links h p t) {i : NodeId} {a : α} (hi : (i, a) ∈ t.toList) :
    ∃ node, h i = some node ∧ node.userStruct = a := by
  obtain ⟨ctx, c, l, r, rfl⟩ := Context.exists_plug hi
  obtain ⟨-, hnode, -⟩ := (links_plug _).mp hl
  exact ⟨_, hnode, rfl⟩

theorem Links.adopt (hl : Links h p t) (hnd : t.ids.Nodup) (q : Ptr) :
    ∃ h', adopt h t.root q = .ok h' ∧
      Links h' q t ∧ ∀ i, i ∉ t.ids → h' i = h i := by
  cases t with
  | nil => exact ⟨h, rfl, trivial, fun _ _ => rfl⟩
  | node c l i a r =>
      obtain ⟨hi, hll, hlr⟩ := hl
      obtain ⟨⟨hil, hir⟩, -⟩ := (RbTree.nodup_ids_join .left c l i a r).mp hnd
      refine ⟨_, Heap.store_eq hi _, ⟨?_, hll.update hil _, hlr.update hir _⟩, ?_⟩
      · rw [Function.update_self]
        rfl
      · intro j hj
        refine Function.update_of_ne ?_ _ _
        rintro rfl
        exact hj ((RbTree.mem_ids_join .left c l j a r j).mpr (Or.inl rfl))

theorem ContextLinks.setHole {f : Frame NodeId α} {old : Ptr}
    (hl : ContextLinks h p (f :: ctx) old) (hnd : (Context.ids (f :: ctx)).Nodup) (new : Ptr) :
    ∃ h', h.store (some f.id) (Node.setChild f.side new) = .ok h' ∧
      ContextLinks h' p (f :: ctx) new ∧ ∀ i, i ≠ f.id → h' i = h i := by
  simp only [Context.ids, nodup_cons, mem_append, not_or] at hnd
  obtain ⟨hf, hs, hctx⟩ := hl
  refine ⟨_, Heap.store_eq hf _, ⟨?_, hs.update hnd.1.1 _, hctx.update hnd.1.2 _⟩,
    fun i hi => Function.update_of_ne hi _ _⟩
  rw [Function.update_self, Node.setChild_ofSide]

theorem ContextLinks.replaceChild {old : NodeId} (hl : ContextLinks h none ctx (some old))
    (hnd : (Context.ids ctx).Nodup) (hold : old ∉ Context.ids ctx) (new root : Ptr) :
    ∃ h', replaceChild h (placeParent none ctx) (some old) new root =
        .ok (h', if ctx = [] then new else root) ∧
      ContextLinks h' none ctx new ∧ ∀ i, i ∉ Context.ids ctx → h' i = h i := by
  cases ctx with
  | nil => exact ⟨h, rfl, trivial, fun _ _ => rfl⟩
  | cons f ctx =>
      obtain ⟨h', hstore, hl', hframe⟩ := hl.setHole hnd new
      simp only [Context.ids, mem_cons, mem_append, not_or] at hold
      have hsib : f.sibling.root ≠ some old := fun heq => hold.2.1 (RbTree.mem_ids_of_root heq)
      refine ⟨h', ?_, hl', ?_⟩
      · simp only [OrderedCollection.replaceChild, placeParent_cons, Heap.deref_eq hl.1, ok_bind,
          Node.sideOf_ofSide hsib, hstore, reduceCtorEq, if_false]
        rfl
      · intro i hi
        simp only [Context.ids, mem_cons, not_or] at hi
        exact hframe i hi.1

end Links

/-- Memory holds the tree at the root pointer. -/
structure Holds (h : Heap α) (root : Ptr) (t : RbTree NodeId α) : Prop where
  links : Links h none t
  root_eq : root = t.root
  nodup : t.ids.Nodup

/-- The same nodes in the same order, in another shape; other memory is as before. -/
structure Reshaped (h h' : Heap α) (root' : Ptr) (t t' : RbTree NodeId α) : Prop where
  holds : Holds h' root' t'
  toList_eq : t'.toList = t.toList
  frame : ∀ k, k ∉ t.ids → h' k = h k

namespace Reshaped

variable {h h' h'' : Heap α} {root' root'' : Ptr} {t t' t'' : RbTree NodeId α}

theorem refl {root : Ptr} (hh : Holds h root t) : Reshaped h h root t t :=
  ⟨hh, rfl, fun _ _ => rfl⟩

theorem ids_eq (hr : Reshaped h h' root' t t') : t'.ids = t.ids := by
  rw [RbTree.ids, RbTree.ids, hr.toList_eq]

theorem trans (hr : Reshaped h h' root' t t') (hr' : Reshaped h' h'' root'' t' t'') :
    Reshaped h h'' root'' t t'' where
  holds := hr'.holds
  toList_eq := hr'.toList_eq.trans hr.toList_eq
  frame k hk := by rw [hr'.frame k (by rwa [hr.ids_eq]), hr.frame k hk]

end Reshaped

section Holds

variable {h h' : Heap α} {root : Ptr} {ctx : Context NodeId α} {t : RbTree NodeId α}
variable {s : Side} {c : Color} {x y : RbTree NodeId α} {i : NodeId} {a : α}

theorem Holds.read (ctx : Context NodeId α) (hh : Holds h root (Context.plug ctx (.join s c x i a y))) :
    h i = some (Node.ofSide s a (placeParent none ctx) x.root y.root c) := by
  obtain ⟨-, hnode⟩ := (links_plug _).mp hh.links
  exact ((links_join ..).mp hnode).1

theorem Holds.ne_root {f : Frame NodeId α} (hh : Holds h root (Context.plug (f :: ctx) t)) :
    (t.root == root) = false := by
  obtain ⟨-, -, hdis⟩ := Context.nodup_plug.mp hh.nodup
  have hroot : ∃ g ∈ f :: ctx, root = some g.id := by
    refine ⟨(f :: ctx).getLast (by simp), getLast_mem _, ?_⟩
    rw [hh.root_eq, Context.root_plug, getLast?_eq_getLast_of_ne_nil (by simp)]
    rfl
  have hmem : ∀ (ctx : Context NodeId α), ∀ g ∈ ctx, g.id ∈ Context.ids ctx := by
    intro ctx
    induction ctx with
    | nil => simp
    | cons f ctx ih =>
        simp only [mem_cons, Context.ids, mem_append]
        rintro g (rfl | hg)
        · exact Or.inl rfl
        · exact Or.inr (Or.inr (ih g hg))
  obtain ⟨g, hg, rfl⟩ := hroot
  rw [beq_eq_false_iff_ne]
  intro heq
  exact hdis (RbTree.mem_ids_of_root heq) (hmem _ g hg)

theorem Holds.siblings_ne (ctx : Context NodeId α)
    (hh : Holds h root (Context.plug ctx (.join s c x i a y)))
    (hx : x ≠ .nil ∨ y ≠ .nil) : y.root ≠ x.root := by
  obtain ⟨hnd, -⟩ := Context.nodup_plug.mp hh.nodup
  obtain ⟨-, -, -, hdis⟩ := (RbTree.nodup_ids_join ..).mp hnd
  intro heq
  cases hxr : x.root with
  | none =>
      rw [hxr] at heq
      rcases hx with hx | hy
      · exact hx (RbTree.root_eq_none.mp hxr)
      · exact hy (RbTree.root_eq_none.mp heq)
  | some j =>
      rw [hxr] at heq
      exact hdis (RbTree.mem_ids_of_root hxr) (RbTree.mem_ids_of_root heq)

theorem Links.nodeIsNullOrBlack {p : Ptr} (hl : Links h p t) :
    nodeIsNullOrBlack h t.root = .ok (t.color == .black) := by
  cases t with
  | nil => rfl
  | node c l i a r =>
      simp only [RbTree.root, OrderedCollection.nodeIsNullOrBlack, Heap.deref_eq hl.1, ok_bind]
      rfl

theorem Holds.setColor (ctx : Context NodeId α)
    (hh : Holds h root (Context.plug ctx (.join s c x i a y))) (c' : Color) :
    ∃ h', h.store (some i) (Node.setColor c') = .ok h' ∧
      Reshaped h h' root (Context.plug ctx (.join s c x i a y))
        (Context.plug ctx (.join s c' x i a y)) := by
  obtain ⟨hctx, hnode⟩ := (links_plug _).mp hh.links
  obtain ⟨hi, hx, hy⟩ := (links_join ..).mp hnode
  obtain ⟨hnd, -, hdis⟩ := Context.nodup_plug.mp hh.nodup
  obtain ⟨⟨hix, hiy⟩, -⟩ := (RbTree.nodup_ids_join s c x i a y).mp hnd
  have hictx : i ∉ Context.ids ctx := hdis ((RbTree.mem_ids_join ..).mpr (Or.inl rfl))
  have hlist : (Context.plug ctx (.join s c' x i a y)).toList =
      (Context.plug ctx (.join s c x i a y)).toList := by
    rw [Context.toList_plug, Context.toList_plug]
    cases s <;> rfl
  refine ⟨_, Heap.store_eq hi _, ⟨(links_plug _).mpr ⟨?_, (links_join ..).mpr ⟨?_, hx.update hix _,
    hy.update hiy _⟩⟩, ?_, ?_⟩, hlist, ?_⟩
  · rw [RbTree.root_join] at hctx ⊢
    exact hctx.update hictx _
  · rw [Function.update_self, Node.setColor_ofSide]
  · rw [hh.root_eq, Context.root_plug, Context.root_plug, RbTree.root_join, RbTree.root_join]
  · rw [RbTree.ids, hlist]
    exact hh.nodup
  · intro k hk
    simp only [Context.mem_ids_plug, RbTree.mem_ids_join, not_or] at hk
    exact Function.update_of_ne hk.1.1 _ _

theorem Holds.paint (ctx : Context NodeId α) (hh : Holds h root (Context.plug ctx t))
    (hne : t ≠ .nil) (c' : Color) :
    ∃ h', h.store t.root (Node.setColor c') = .ok h' ∧
      Reshaped h h' root (Context.plug ctx t) (Context.plug ctx (t.paint c')) := by
  obtain ⟨c, x, i, a, y, rfl⟩ := RbTree.eq_join_of_ne_nil .left hne
  rw [RbTree.root_join, RbTree.paint_join]
  exact hh.setColor ctx c'

end Holds

end OrderedCollection
end Udk

/-!
## Rotations

A rotation on linked nodes is the rotation of the tree they form, in any context.
-/

namespace Udk
namespace OrderedCollection

open RedBlack

variable {α : Type} {h : Heap α} {root : Ptr} {ctx : Context NodeId α}
variable {s : Side} {c c' : Color} {x y z : RbTree NodeId α} {i j : NodeId} {a b : α}

/-- **A rotation.**  The child on the far side takes the place of the pivot. -/
theorem Holds.rotate (ctx : Context NodeId α)
    (hh : Holds h root (Context.plug ctx (.join s c x i a (.join s c' y j b z)))) :
    ∃ h' root', rotate s h (some i) root = .ok (h', root') ∧
      Reshaped h h' root' (Context.plug ctx (.join s c x i a (.join s c' y j b z)))
        (Context.plug ctx (.join s c' (.join s c x i a y) j b z)) := by
  obtain ⟨hctx, hnode⟩ := (links_plug _).mp hh.links
  obtain ⟨hi, hx, hyz⟩ := (links_join ..).mp hnode
  obtain ⟨hj, hy, hz⟩ := (links_join ..).mp hyz
  obtain ⟨hnd, hndctx, hdis⟩ := Context.nodup_plug.mp hh.nodup
  obtain ⟨⟨hix, hijyz⟩, -, hndj, hxj⟩ := (RbTree.nodup_ids_join ..).mp hnd
  obtain ⟨⟨hjy, hjz⟩, hndy, -, hyz⟩ := (RbTree.nodup_ids_join ..).mp hndj
  simp only [RbTree.mem_ids_join, not_or] at hijyz
  obtain ⟨hij, hiy, hiz⟩ := hijyz
  have hxj' : ∀ k ∈ x.ids, k ≠ j ∧ k ∉ y.ids := by
    intro k hk
    have hnot := fun hmem => hxj hk ((RbTree.mem_ids_join ..).mpr hmem)
    exact ⟨fun he => hnot (Or.inl he), fun he => hnot (Or.inr (Or.inl he))⟩
  have hctx' : ∀ k, k = i ∨ k ∈ x.ids ∨ k = j ∨ k ∈ y.ids ∨ k ∈ z.ids → k ∉ Context.ids ctx := by
    intro k hk
    refine hdis ?_
    simp only [RbTree.mem_ids_join]
    exact hk
  rw [RbTree.root_join] at hctx hi
  -- the grandchild goes to the pivot
  obtain ⟨h1, hh1⟩ : ∃ h1, h1 = Function.update h i
    (some (Node.ofSide s a (placeParent none ctx) x.root y.root c)) := ⟨_, rfl⟩
  have hy1 : Links h1 (some j) y := by
    rw [hh1]
    exact hy.update hiy _
  obtain ⟨h2, hset, hy2, hframe2⟩ := hy1.adopt hndy (some i)
  have hj2 : h2 j = some (Node.ofSide s b (some i) y.root z.root c') := by
    rw [hframe2 j hjy, hh1, Function.update_of_ne (Ne.symm hij), hj]
  -- the child goes to the parent of the pivot
  obtain ⟨h3, hh3⟩ : ∃ h3, h3 = Function.update h2 j
    (some (Node.ofSide s b (placeParent none ctx) y.root z.root c')) := ⟨_, rfl⟩
  have hctx3 : ContextLinks h3 none ctx (some i) := by
    refine hctx.congr fun k hk => ?_
    have hki : k ≠ i := fun he => hctx' k (Or.inl he) hk
    have hkj : k ≠ j := fun he => hctx' k (Or.inr (Or.inr (Or.inl he))) hk
    have hky : k ∉ y.ids := fun he => hctx' k (Or.inr (Or.inr (Or.inr (Or.inl he)))) hk
    rw [hh3, Function.update_of_ne hkj, hframe2 k hky, hh1, Function.update_of_ne hki]
  obtain ⟨h4, hreplace, hctx4, hframe4⟩ :=
    hctx3.replaceChild hndctx (hctx' i (Or.inl rfl)) (some j) root
  have hictx := hctx' i (Or.inl rfl)
  have hjctx := hctx' j (Or.inr (Or.inr (Or.inl rfl)))
  have hj4 : h4 j = some (Node.ofSide s b (placeParent none ctx) y.root z.root c') := by
    rw [hframe4 j hjctx, hh3, Function.update_self]
  have hi4 : h4 i = some (Node.ofSide s a (placeParent none ctx) x.root y.root c) := by
    rw [hframe4 i hictx, hh3, Function.update_of_ne hij, hframe2 i hiy, hh1, Function.update_self]
  -- the pivot becomes the child of its child
  obtain ⟨h5, hh5⟩ : ∃ h5, h5 = Function.update h4 j
    (some (Node.ofSide s b (placeParent none ctx) (some i) z.root c')) := ⟨_, rfl⟩
  have hi5 : h5 i = some (Node.ofSide s a (placeParent none ctx) x.root y.root c) := by
    rw [hh5, Function.update_of_ne hij, hi4]
  obtain ⟨h6, hh6⟩ : ∃ h6, h6 = Function.update h5 i
    (some (Node.ofSide s a (some j) x.root y.root c)) := ⟨_, rfl⟩
  have hframe6 : ∀ k, k ≠ i → k ≠ j → k ∉ Context.ids ctx → h6 k = h2 k := by
    intro k hki hkj hkctx
    rw [hh6, Function.update_of_ne hki, hh5, Function.update_of_ne hkj, hframe4 k hkctx, hh3,
      Function.update_of_ne hkj]
  have hframe : ∀ k, k ≠ i → k ≠ j → k ∉ y.ids → k ∉ Context.ids ctx → h6 k = h k := by
    intro k hki hkj hky hkctx
    rw [hframe6 k hki hkj hkctx, hframe2 k hky, hh1, Function.update_of_ne hki]
  have hlist : (Context.plug ctx (.join s c' (.join s c x i a y) j b z)).toList =
      (Context.plug ctx (.join s c x i a (.join s c' y j b z))).toList := by
    rw [Context.toList_plug, RbTree.toList_rotate, ← Context.toList_plug]
  refine ⟨h6, if ctx = [] then some j else root, ?_, ⟨?_, ?_, ?_⟩, hlist, ?_⟩
  · rw [OrderedCollection.rotate, Heap.deref_eq hi, ok_bind]
    simp only [Node.parent_ofSide, Node.child_other_ofSide, Heap.deref_eq hj, ok_bind,
      Node.child_ofSide, Heap.store_eq hi, Node.setChild_other_ofSide, ← hh1, hset,
      Heap.store_eq hj2, Node.setParent_ofSide, ← hh3, hreplace, Heap.store_eq hj4,
      Node.setChild_ofSide, ← hh5, Heap.store_eq hi5, ← hh6]
    rfl
  · refine (links_plug _).mpr ⟨?_, (links_join ..).mpr ⟨?_, (links_join ..).mpr ⟨?_, ?_, ?_⟩, ?_⟩⟩
    · rw [RbTree.root_join, hh6, hh5]
      exact (hctx4.update hjctx _).update hictx _
    · rw [hh6, Function.update_of_ne (Ne.symm hij), hh5, Function.update_self, RbTree.root_join]
    · rw [hh6, Function.update_self]
    · refine hx.congr fun k hk => hframe k (ne_of_mem_of_not_mem hk hix) (hxj' k hk).1
        (hxj' k hk).2 (hctx' k (Or.inr (Or.inl hk)))
    · refine hy2.congr fun k hk => hframe6 k (ne_of_mem_of_not_mem hk hiy)
        (ne_of_mem_of_not_mem hk hjy) (hctx' k (Or.inr (Or.inr (Or.inr (Or.inl hk)))))
    · refine hz.congr fun k hk => hframe k (ne_of_mem_of_not_mem hk hiz)
        (ne_of_mem_of_not_mem hk hjz) (fun hky => hyz hky hk)
        (hctx' k (Or.inr (Or.inr (Or.inr (Or.inr hk)))))
  · rw [hh.root_eq, Context.root_plug, Context.root_plug, RbTree.root_join, RbTree.root_join]
    cases ctx with
    | nil => rfl
    | cons f ctx => simp [List.getLast?_cons]
  · rw [RbTree.ids, hlist]
    exact hh.nodup
  · intro k hk
    simp only [Context.mem_ids_plug, RbTree.mem_ids_join, not_or] at hk
    exact hframe k hk.1.1 hk.1.2.2.1 hk.1.2.2.2.1 hk.2

end OrderedCollection
end Udk
