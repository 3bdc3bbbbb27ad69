import Udk.OrderedCollection.Iterate
import Udk.OrderedCollection.Links
import Udk.RedBlackRepair

/-!
# Insertion

The loop of an insertion repairs a red place: each round recolors and moves up, or
rotates and is done.
-/

namespace Udk
namespace OrderedCollection

open RedBlack List

variable {α κ : Type}

section Loop

variable {h : Heap α} {root : Ptr} {ctx : Context NodeId α} {f g : Frame NodeId α}
variable {t : RbTree NodeId α} {n : Nat}

theorem Holds.recolor (hh : Holds h root (Context.plug (f :: g :: ctx) t))
    (huncle : g.sibling ≠ .nil) :
    ∃ h1 h2 h3, h.store (some f.id) (Node.setColor .black) = .ok h1 ∧
      h1.store g.sibling.root (Node.setColor .black) = .ok h2 ∧
      h2.store (some g.id) (Node.setColor .red) = .ok h3 ∧
      Reshaped h h3 root (Context.plug (f :: g :: ctx) t)
        (Context.plug ctx (.join g.side .red (.join f.side .black t f.id f.value f.sibling)
          g.id g.value (g.sibling.paint .black))) := by
  obtain ⟨h1, hs1, hr1⟩ := hh.setColor (g :: ctx) .black
  have heq := Context.plug_sibling ctx g.side g.color
    (.join f.side .black t f.id f.value f.sibling) g.sibling g.id g.value
  obtain ⟨h2, hs2, hr2⟩ := Holds.paint _ (heq ▸ hr1.holds) huncle .black
  rw [← heq, ← Context.plug_sibling] at hr2
  obtain ⟨h3, hs3, hr3⟩ := hr2.holds.setColor _ .red
  exact ⟨h1, h2, h3, hs1, hs2, hs3, (hr1.trans hr2).trans hr3⟩

theorem Holds.straight (hh : Holds h root (Context.plug (f :: g :: ctx) t))
    (hside : f.side = g.side) (hne : t ≠ .nil) :
    straighten g.side h t.root (some f.id) (some g.id) root =
      .ok (h, t.root, some f.id, root) := by
  have hf : h f.id = _ := hh.read (g :: ctx)
  have hother := hh.siblings_ne (g :: ctx) (Or.inl hne)
  have htest : (t.root == (Node.ofSide f.side f.value (placeParent none (g :: ctx)) t.root
      f.sibling.root f.color).child g.side.other) = false := by
    rw [← hside, Node.child_other_ofSide, beq_eq_false_iff_ne]
    exact Ne.symm hother
  simp only [straighten, Heap.deref_eq hf, ok_bind, htest, Bool.false_eq_true, if_false]
  rfl

theorem Holds.straighten {y z : RbTree NodeId α} {i : NodeId} {a : α} {c : Color}
    (hh : Holds h root (Context.plug (f :: g :: ctx) (.join g.side c y i a z)))
    (hside : f.side = g.side.other) :
    ∃ h' root', straighten g.side h (some i) (some f.id) (some g.id) root =
        .ok (h', some f.id, some i, root') ∧
      Reshaped h h' root' (Context.plug (f :: g :: ctx) (.join g.side c y i a z))
        (Context.plug (⟨g.side, c, i, a, z⟩ :: g :: ctx)
          (.join g.side f.color f.sibling f.id f.value y)) := by
  have hf : h f.id = _ := hh.read (g :: ctx)
  have hpivot : Context.plug (f :: g :: ctx) (.join g.side c y i a z) =
      Context.plug (g :: ctx) (.join g.side f.color f.sibling f.id f.value
        (.join g.side c y i a z)) := by
    rw [Context.plug_cons, Frame.fill, hside, RbTree.join_other]
  obtain ⟨h', root', hrot, hr⟩ := Holds.rotate (g :: ctx) (hpivot ▸ hh)
  rw [← hpivot] at hr
  have hf' : h' f.id = _ := hr.holds.read (⟨g.side, c, i, a, z⟩ :: g :: ctx)
  have hi' : h' i = _ := hr.holds.read (g :: ctx)
  have htest : (some i == (Node.ofSide f.side f.value (some g.id)
      (RbTree.join g.side c y i a z).root f.sibling.root f.color).child g.side.other) =
        true := by
    rw [← hside, Node.child_ofSide, RbTree.root_join, beq_self_eq_true]
  refine ⟨h', root', ?_, hr⟩
  simp only [OrderedCollection.straighten, Heap.deref_eq hf, ok_bind, htest, if_true, hrot,
    Heap.deref_eq hf', Node.parent_ofSide, placeParent_cons, Heap.deref_eq hi', assert,
    beq_self_eq_true]
  rfl

theorem Holds.lower (hh : Holds h root (Context.plug (f :: g :: ctx) t))
    (hside : f.side = g.side) :
    ∃ h1 h2 h3 root', h.store (some f.id) (Node.setColor .black) = .ok h1 ∧
      h1.store (some g.id) (Node.setColor .red) = .ok h2 ∧
      OrderedCollection.rotate g.side.other h2 (some g.id) root = .ok (h3, root') ∧
      Reshaped h h3 root' (Context.plug (f :: g :: ctx) t)
        (Context.plug (⟨g.side, .black, f.id, f.value,
          .join g.side.other .red g.sibling g.id g.value f.sibling⟩ :: ctx) t) := by
  obtain ⟨h1, hs1, hr1⟩ := hh.setColor (g :: ctx) .black
  obtain ⟨h2, hs2, hr2⟩ := hr1.holds.setColor ctx .red
  have hpivot : Context.plug ctx (.join g.side .red (.join f.side .black t f.id f.value f.sibling)
        g.id g.value g.sibling) =
      Context.plug ctx (.join g.side.other .red g.sibling g.id g.value
        (.join g.side.other .black f.sibling f.id f.value t)) := by
    rw [hside, RbTree.join_other, RbTree.join_other]
  obtain ⟨h3, root', hrot, hr3⟩ := Holds.rotate _ (hpivot ▸ hr2.holds)
  rw [← hpivot] at hr3
  rw [RbTree.join_other] at hr3
  exact ⟨h1, h2, h3, root', hs1, hs2, hrot, (hr1.trans hr2).trans hr3⟩

/-- **The loop of an insertion repairs a red place.** -/
theorem insertLoop_repairs {fuel : Nat} (hfuel : ctx.length < fuel) (hp : RedPlace ctx t n)
    (hh : Holds h root (Context.plug ctx t)) :
    ∃ h' root' t', insertLoop fuel h t.root (placeParent none ctx) root = .ok (h', root') ∧
      Reshaped h h' root' (Context.plug ctx t) t' ∧ (t'.paint .black).IsRedBlack := by
  induction fuel generalizing h root ctx t n with
  | zero => exact absurd hfuel (Nat.not_lt_zero _)
  | succ fuel ih =>
      rw [insertLoop]
      cases ctx with
      | nil =>
          have hroot : (t.root == root) = true := by
            rw [hh.root_eq, Context.plug_nil, beq_self_eq_true]
          rw [hroot, if_pos rfl]
          exact ⟨h, root, t, rfl, .refl hh, hp.at_root⟩
      | cons f ctx =>
          have hf : h f.id = _ := hh.read ctx
          simp only [hh.ne_root, Bool.false_eq_true, if_false, placeParent_cons,
            Heap.deref_eq hf, ok_bind, Node.color_ofSide, Node.parent_ofSide]
          cases hfc : f.color with
          | black =>
              exact ⟨h, root, _, rfl, .refl hh, hp.below_black hfc⟩
          | red =>
              obtain ⟨g, ctx, rfl, hgc⟩ := hp.grandparent hfc
              have hh' : Holds h root (Context.plug ctx (.join g.side g.color
                (.join f.side f.color t f.id f.value f.sibling) g.id g.value g.sibling)) := hh
              have hg := hh'.read _
              have hparent := hh'.siblings_ne _ (Or.inl (RbTree.join_ne_nil _ _ _ _ _ _))
              rw [RbTree.root_join] at hparent hg
              have huncle := (((links_plug _).mp hh.links).1.2.2).2.1.nodeIsNullOrBlack
              have hne : t ≠ .nil := RbTree.ne_nil_of_color_red hp.red
              have hlen : ctx.length + 1 < fuel := by simpa using hfuel
              simp only [bne_self_eq_false, Bool.false_eq_true, if_false, placeParent_cons,
                Heap.deref_eq hg, ok_bind, Node.sideOf_ofSide hparent, Node.child_other_ofSide, huncle]
              cases huc : g.sibling.color with
              | red =>
                  obtain ⟨h1, h2, h3, hs1, hs2, hs3, hr⟩ :=
                    hh.recolor (RbTree.ne_nil_of_color_red huc)
                  have hg3 := hr.holds.read _
                  obtain ⟨h', root', t', hloop, hr', hrb⟩ :=
                    ih (by omega) (hp.recolor hfc hgc huc) hr.holds
                  rw [RbTree.root_join] at hloop
                  refine ⟨h', root', t', ?_, hr.trans hr', hrb⟩
                  simp only [red_beq_black, Bool.not_false, if_true, hs1, hs2, hs3, ok_bind,
                    Heap.deref_eq hg3, Node.parent_ofSide]
                  exact hloop
              | black =>
                  obtain ⟨f', t1, h1, root1, hstraight, hr1, hp1, hfc1, hside1⟩ :
                      ∃ f' t1 h1 root1, straighten g.side h t.root (some f.id) (some g.id) root =
                          .ok (h1, t1.root, some f'.id, root1) ∧
                        Reshaped h h1 root1 (Context.plug (f :: g :: ctx) t)
                          (Context.plug (f' :: g :: ctx) t1) ∧
                        RedPlace (f' :: g :: ctx) t1 n ∧ f'.color = .red ∧ f'.side = g.side := by
                    by_cases hside : f.side = g.side
                    · exact ⟨f, t, h, root, hh.straight hside hne, .refl hh, hp, hfc, hside⟩
                    · have hside' : f.side = g.side.other := by
                        cases hfs : f.side <;> cases hgs : g.side <;> simp_all [Side.other]
                      obtain ⟨c, y, i, a, z, rfl⟩ := RbTree.eq_join_of_ne_nil g.side hne
                      have hc : c = .red := by simpa using hp.red
                      subst hc
                      obtain ⟨h1, root1, hst, hr1⟩ := hh.straighten hside'
                      rw [hfc] at hr1
                      refine ⟨_, _, h1, root1, ?_, hr1, hp.inner hfc hgc, rfl, rfl⟩
                      rw [RbTree.root_join, RbTree.root_join]
                      exact hst
                  obtain ⟨h2, h3, h4, root4, hs2, hs3, hrot, hr2⟩ := hr1.holds.lower hside1
                  obtain ⟨h', root', t', hloop, hr', hrb⟩ :=
                    ih (by simpa using hlen) (hp1.outer hfc1 hgc huc) hr2.holds
                  refine ⟨h', root', t', ?_, (hr1.trans hr2).trans hr', hrb⟩
                  simp only [beq_self_eq_true, Bool.not_true, Bool.false_eq_true, if_false,
                    hstraight, hs2, hs3, ok_bind, hrot]
                  exact hloop

end Loop

section Search

variable {h : Heap α} {compare : α → α → Int} {userStruct : α}

/-- A leaf where the user structure belongs. -/
structure Belongs (compare : α → α → Int) (userStruct : α) (ctx : Context NodeId α) : Prop where
  before : ∀ p ∈ Context.before ctx, compare p.2 userStruct < 0
  after : ∀ p ∈ Context.after ctx, compare userStruct p.2 < 0

/-- How the search for a collision ends. -/
inductive SearchResult (compare : α → α → Int) (userStruct : α) (t : RbTree NodeId α) :
    Ptr × Ptr × Int → Prop
  | collision (i : NodeId) (a : α) (parent : Ptr) (result : Int) (hmem : (i, a) ∈ t.toList)
      (hequal : compare userStruct a = 0) :
      SearchResult compare userStruct t (some i, parent, result)
  | free (ctx : Context NodeId α) (result : Int) (hplug : t = Context.plug ctx .nil)
      (hbelongs : Belongs compare userStruct ctx)
      (hside : ∀ f ∈ ctx.head?, f.side = if result < 0 then .left else .right) :
      SearchResult compare userStruct t (none, placeParent none ctx, result)

/-- The search from a place on. -/
theorem findCollision_spec (ctx : Context NodeId α) (result : Int) (ho : Orders compare)
    {fuel : Nat} {t : RbTree NodeId α} (hfuel : t.toList.length < fuel)
    (hl : Links h (placeParent none ctx) t) (hsorted : Ordered compare (Context.plug ctx t))
    (hbelongs : Belongs compare userStruct ctx)
    (hside : ∀ f ∈ ctx.head?, f.side = if result < 0 then .left else .right) :
    ∃ r, findCollision h compare userStruct fuel t.root (placeParent none ctx) result = .ok r ∧
      SearchResult compare userStruct (Context.plug ctx t) r := by
  induction fuel generalizing t ctx result with
  | zero => exact absurd hfuel (Nat.not_lt_zero _)
  | succ fuel ih =>
      cases t with
      | nil => exact ⟨_, rfl, .free ctx result rfl hbelongs hside⟩
      | node c l i a r =>
          obtain ⟨hi, hll, hlr⟩ := hl
          simp only [RbTree.toList, length_append, length_cons] at hfuel
          have hinfix : Ordered compare (.node c l i a r) := by
            rw [Ordered, Context.toList_plug] at hsorted
            exact (pairwise_append.mp (pairwise_append.mp hsorted).1).2.1
          rw [Ordered, RbTree.toList, pairwise_append, pairwise_cons] at hinfix
          obtain ⟨-, ⟨hright, -⟩, hleft⟩ := hinfix
          simp only [RbTree.root, findCollision, Heap.deref_eq hi, ok_bind]
          rcases lt_trichotomy (compare userStruct a) 0 with hlt | heq | hgt
          · simp only [hlt.ne, if_false, hlt, if_true]
            refine ih (⟨.left, c, i, a, r⟩ :: ctx) _ (by omega) hll hsorted ⟨hbelongs.before, ?_⟩
              (by simp [hlt])
            intro p hp
            simp only [Context.after, mem_append, mem_cons] at hp
            rcases hp with (rfl | hp) | hp
            · exact hlt
            · exact ho.lt_trans hlt (hright p hp)
            · exact hbelongs.after p hp
          · simp only [heq, if_true]
            refine ⟨_, rfl, .collision i a _ _ ?_ heq⟩
            rw [Context.toList_plug]
            simp [RbTree.toList]
          · have hgt' := (ho.swap a userStruct).mpr hgt
            simp only [hgt.ne', if_false, not_lt.mpr hgt.le]
            refine ih (⟨.right, c, i, a, l⟩ :: ctx) _ (by omega) hlr hsorted ⟨?_, hbelongs.after⟩
              (by simp [not_lt.mpr hgt.le])
            intro p hp
            simp only [Context.before, mem_append, mem_singleton] at hp
            rcases hp with hp | hp | rfl
            · exact hbelongs.before p hp
            · exact ho.lt_trans (hleft p hp (i, a) mem_cons_self) hgt'
            · exact hgt'

end Search

section Link

variable {h : Heap α} {root : Ptr} {ctx : Context NodeId α} {t : RbTree NodeId α}
variable {tmp : NodeId} {userStruct : α} {fuel : Nat} {result : Int}

theorem Holds.not_mem_of_free (hh : Holds h root t) (hfree : h tmp = none) : tmp ∉ t.ids := by
  intro hmem
  obtain ⟨⟨i, a⟩, hin, rfl⟩ := mem_map.mp hmem
  obtain ⟨node, hnode, -⟩ := hh.links.exists_node hin
  rw [hfree] at hnode
  cases hnode

theorem redPlace_leaf {f : Frame NodeId α}
    (hrb : (Context.plug (f :: ctx) RbTree.nil).IsRedBlack) :
    RedPlace (f :: ctx) (.node .red .nil tmp userStruct .nil) 0 := by
  obtain ⟨n, hn, hfits⟩ := (Context.balanced_plug _ _).mp hrb.balanced
  obtain rfl : n = 0 := hn
  exact {
    red := rfl
    noRedRed := ⟨fun _ => ⟨rfl, rfl⟩, trivial, trivial⟩
    height := ⟨0, rfl, rfl, rfl⟩
    fits := hfits
    admits := ((Context.noRedRed_plug _ _).mp hrb.noRedRed).2
    rootBlack := (Context.color_plug (by simp) _).mp hrb.root_black }

theorem Holds.link (userStruct : α) {f : Frame NodeId α} (hh : Holds h root (Context.plug (f :: ctx) .nil))
    (hfree : h tmp = none) :
    ∃ h', Heap.store (Function.update h tmp (some ⟨userStruct, some f.id, none, none, .red⟩))
        (some f.id) (Node.setChild f.side (some tmp)) = .ok h' ∧
      Holds h' root (Context.plug (f :: ctx) (.node .red .nil tmp userStruct .nil)) ∧
      ∀ k, k ≠ tmp → k ∉ (Context.plug (f :: ctx) (.nil : RbTree NodeId α)).ids → h' k = h k := by
  have hnot := hh.not_mem_of_free hfree
  obtain ⟨hctx, -⟩ := (links_plug _).mp hh.links
  obtain ⟨-, hndctx, -⟩ := Context.nodup_plug.mp hh.nodup
  rw [Context.mem_ids_plug, not_or] at hnot
  obtain ⟨h', hstore, hctx', hframe⟩ := (hctx.update hnot.2 _).setHole hndctx (some tmp)
  have htmp : tmp ≠ f.id := fun heq => hnot.2 (heq ▸ mem_cons_self)
  refine ⟨h', hstore, ⟨(links_plug _).mpr ⟨hctx', ?_, trivial, trivial⟩, ?_, ?_⟩, ?_⟩
  · rw [hframe tmp htmp, Function.update_self]
    rfl
  · rw [hh.root_eq, Context.root_plug, Context.root_plug, getLast?_eq_getLast_of_ne_nil
      (by simp)]
    rfl
  · refine Context.nodup_plug.mpr ⟨by simp [RbTree.ids, RbTree.toList], hndctx, ?_⟩
    simpa [RbTree.ids, RbTree.toList] using hnot.2
  · intro k hk hmem
    simp only [Context.mem_ids_plug, not_or] at hmem
    have hkf : k ≠ f.id := fun heq => hmem.2 (heq ▸ mem_cons_self)
    rw [hframe k hkf, Function.update_of_ne hk]

/-- A new node at the leaf where it belongs, and the repair. -/
theorem linkNode_spec (userStruct : α) (hh : Holds h root (Context.plug ctx .nil))
    (hrb : (Context.plug ctx (.nil : RbTree NodeId α)).IsRedBlack) (hfree : h tmp = none)
    (hside : ∀ f ∈ ctx.head?, f.side = if result < 0 then .left else .right)
    (hfuel : ctx.length < fuel) :
    ∃ h' root' t', linkNode fuel h root tmp (placeParent none ctx) result userStruct =
        .ok (h', root') ∧ Holds h' root' t' ∧ t'.IsRedBlack ∧
      t'.toList = Context.before ctx ++ (tmp, userStruct) :: Context.after ctx ∧
      ∀ k, k ≠ tmp → k ∉ (Context.plug ctx (.nil : RbTree NodeId α)).ids → h' k = h k := by
  cases ctx with
  | nil =>
      refine ⟨_, _, .node .black .nil tmp userStruct .nil, rfl, ⟨⟨?_, trivial, trivial⟩, rfl, ?_⟩,
        ⟨⟨(fun hred => by cases hred), trivial, trivial⟩, ⟨1, 0, rfl, rfl, rfl⟩, rfl⟩, rfl, ?_⟩
      · rw [Function.update_self]
        rfl
      · simp [RbTree.ids, RbTree.toList]
      · exact fun k hk _ => Function.update_of_ne hk _ _
  | cons f ctx =>
      obtain ⟨h1, hlink, hh1, hframe1⟩ := hh.link userStruct hfree
      obtain ⟨h2, root2, t2, hloop, hr2, hrb2⟩ := insertLoop_repairs hfuel (redPlace_leaf hrb) hh1
      have hlist := hr2.toList_eq
      rw [Context.toList_plug] at hlist
      have hne : t2 ≠ .nil := by
        rintro rfl
        simp [RbTree.toList] at hlist
      obtain ⟨h3, hpaint, hr3⟩ := hr2.holds.paint [] hne .black
      rw [← hr2.holds.root_eq] at hpaint
      refine ⟨h3, root2, t2.paint .black, ?_, hr3.holds, hrb2, ?_, ?_⟩
      · simp only [linkNode, placeParent_cons, ← hside f rfl, hlink, ok_bind]
        rw [placeParent_cons] at hloop
        simp only [RbTree.root] at hloop
        simp only [hloop, ok_bind, hpaint]
        rfl
      · rw [RbTree.toList_paint, hlist]
        simp [RbTree.toList]
      · intro k hk hmem
        have hids : k ∉ (Context.plug (f :: ctx) (.node .red .nil tmp userStruct .nil)).ids := by
          rw [Context.mem_ids_plug, not_or] at hmem ⊢
          exact ⟨by simpa [RbTree.ids, RbTree.toList] using hk, hmem.2⟩
        have hids2 : k ∉ (Context.plug [] t2).ids := by
          rw [Context.plug_nil, hr2.ids_eq]
          exact hids
        rw [hr3.frame k hids2, hr2.frame k hids, hframe1 k hk hmem]

end Link

section Insert

variable {h : Heap α} {tree : Collection α κ} {t : RbTree NodeId α} {userStruct : α}
variable {allocatePool : Ptr}

/-- A new node is in the collection, between the smaller and the larger ones; all other
memory but the nodes of the collection is as before. -/
structure Inserted (h : Heap α) (tree : Collection α κ) (t : RbTree NodeId α) (userStruct : α)
    (i : NodeId) (result : InsertResult α κ) : Prop where
  status : result.status = .success
  node : result.node = some i
  valid : ∃ t', Valid result.heap result.tree t' ∧
    ∃ before after, t.toList = before ++ after ∧ t'.toList = before ++ (i, userStruct) :: after
  userStructCompare : result.tree.userStructCompare = tree.userStructCompare
  keyCompare : result.tree.keyCompare = tree.keyCompare
  frame : ∀ k, k ≠ i → k ∉ t.ids → result.heap k = h k

/-- What an insertion returns and leaves. -/
inductive InsertOutcome (h : Heap α) (tree : Collection α κ) (t : RbTree NodeId α)
    (userStruct : α) (allocatePool : Ptr) : InsertResult α κ → Prop
  | alreadyStarted (i : NodeId) (a : α) (hmem : (i, a) ∈ t.toList)
      (hequal : tree.userStructCompare userStruct a = 0) :
      InsertOutcome h tree t userStruct allocatePool ⟨.alreadyStarted, some i, h, tree⟩
  | outOfResources (hnone : allocatePool = none)
      (hnew : ∀ p ∈ t.toList, tree.userStructCompare userStruct p.2 ≠ 0) :
      InsertOutcome h tree t userStruct allocatePool ⟨.outOfResources, none, h, tree⟩
  | success (i : NodeId) (hsome : allocatePool = some i)
      (hnew : ∀ p ∈ t.toList, tree.userStructCompare userStruct p.2 ≠ 0)
      (result : InsertResult α κ) (hinserted : Inserted h tree t userStruct i result) :
      InsertOutcome h tree t userStruct allocatePool result

theorem Belongs.ne {compare : α → α → Int} {ctx : Context NodeId α} (ho : Orders compare)
    (hb : Belongs compare userStruct ctx) :
    ∀ p ∈ (Context.plug ctx (.nil : RbTree NodeId α)).toList, compare userStruct p.2 ≠ 0 := by
  intro p hp
  rw [Context.toList_plug, RbTree.toList, append_nil, mem_append] at hp
  rcases hp with hp | hp
  · have hlt := (ho.swap p.2 userStruct).mp (hb.before p hp)
    omega
  · have hlt := hb.after p hp
    omega

/-- An insertion returns, and leaves what its status says. -/
theorem orderedCollectionInsert_returns {fuel : Nat} (pcdValidateOrderedCollection : Bool)
    (userStruct : α)
    (ho : Orders tree.userStructCompare) (hv : Valid h tree t)
    (halloc : ∀ i, allocatePool = some i → h i = none) (hfuel : t.toList.length + 1 < fuel) :
    ∃ result, orderedCollectionInsert pcdValidateOrderedCollection fuel allocatePool h tree
        userStruct = .ok result ∧ InsertOutcome h tree t userStruct allocatePool result := by
  obtain ⟨r, hfind, hsearch⟩ := findCollision_spec [] 0 ho
    (by omega : t.toList.length < fuel) hv.holds.links hv.ordered
    ⟨by simp [Context.before], by simp [Context.after]⟩ (by simp)
  rw [placeParent, ← hv.holds.root_eq] at hfind
  rw [Context.plug_nil] at hsearch
  -- `Done`: with the feature flag set the collection is validated
  have hdone : ∀ {h' : Heap α} {tree' : Collection α κ} {t' : RbTree NodeId α} {x : InsertResult α κ},
      Valid h' tree' t' → tree'.userStructCompare = tree.userStructCompare →
      t'.toList.length < fuel →
      (if pcdValidateOrderedCollection then do
          redBlackTreeValidate h' fuel tree'
          pure x
        else pure x) = (.ok x : Except Fault (InsertResult α κ)) := by
    intro h' tree' t' x hv' hcompare hlen
    split_ifs
    · rw [hv'.validate (hcompare ▸ ho) hlen]
      rfl
    · rfl
  cases hsearch with
  | collision i a parent result hmem hequal =>
      refine ⟨⟨.alreadyStarted, some i, h, tree⟩, ?_, .alreadyStarted i a hmem hequal⟩
      simp only [orderedCollectionInsert, hfind, ok_bind, insertAt, Option.isSome_some, if_true]
      exact hdone hv rfl (by omega)
  | free ctx result hplug hbelongs hside =>
      subst hplug
      have hnew := hbelongs.ne ho
      cases halc : allocatePool with
      | none =>
          refine ⟨⟨.outOfResources, none, h, tree⟩, ?_, .outOfResources rfl hnew⟩
          simp only [orderedCollectionInsert, hfind, ok_bind, insertAt, Option.isSome_none,
            Bool.false_eq_true, if_false]
          exact hdone hv rfl (by omega)
      | some i =>
          have hlen := Context.length_toList_plug ctx (.nil : RbTree NodeId α)
          have hctx := Context.length_le_ids ctx
          obtain ⟨h', root', t', hlink, hh', hrb', hlist, hframe⟩ := linkNode_spec
            userStruct hv.holds hv.isRedBlack (halloc i halc) hside
            (by omega : ctx.length < fuel)
          have hold : (Context.plug ctx (.nil : RbTree NodeId α)).toList =
              Context.before ctx ++ Context.after ctx := by
            rw [Context.toList_plug, RbTree.toList, append_nil]
          have hsorted : Ordered tree.userStructCompare t' := by
            have hs := hv.ordered
            rw [Ordered, hold, pairwise_append] at hs
            obtain ⟨hs1, hs2, hs12⟩ := hs
            rw [Ordered, hlist, pairwise_append, pairwise_cons]
            refine ⟨hs1, ⟨hbelongs.after, hs2⟩, ?_⟩
            intro p hp q hq
            rcases mem_cons.mp hq with rfl | hq
            · exact hbelongs.before p hp
            · exact hs12 p hp q hq
          have hv' : Valid h' { tree with root := root' } t' := ⟨hh', hrb', hsorted⟩
          refine ⟨⟨.success, some i, h', { tree with root := root' }⟩, ?_,
            .success i rfl hnew _ ⟨rfl, rfl, ⟨t', hv', _, _, hold, hlist⟩, rfl, rfl, hframe⟩⟩
          simp only [orderedCollectionInsert, hfind, ok_bind, insertAt, Option.isSome_none,
            Bool.false_eq_true, if_false, hlink]
          refine hdone hv' rfl ?_
          have hlen' := congrArg List.length hlist
          have hold' := congrArg List.length hold
          simp only [length_append, length_cons] at hlen' hold'
          omega

/-- **Insertion.**  On a valid collection `OrderedCollectionInsert` meets no fault: no null
pointer is followed and no assertion fails, those of `RedBlackTreeValidate` included. -/
theorem orderedCollectionInsert_correct {fuel : Nat} (pcdValidateOrderedCollection : Bool)
    (ho : Orders tree.userStructCompare) (hv : Valid h tree t)
    (halloc : ∀ i, allocatePool = some i → h i = none) (hfuel : t.toList.length + 1 < fuel) :
    ∃ result, orderedCollectionInsert pcdValidateOrderedCollection fuel allocatePool h tree
        userStruct = .ok result ∧ InsertOutcome h tree t userStruct allocatePool result :=
  orderedCollectionInsert_returns pcdValidateOrderedCollection userStruct ho hv halloc hfuel

/-- A third node goes between the two. -/
theorem orderedCollectionInsert_correct_sample :
    ∃ result, orderedCollectionInsert true 4 (some 2) sampleHeap sampleCollection 4 = .ok result ∧
      InsertOutcome sampleHeap sampleCollection (.node .black (.node .red .nil 1 3 .nil) 0 5 .nil)
        4 (some 2) result :=
  orderedCollectionInsert_correct true orders_sub valid_sample
    (by
      intro i hi
      cases hi
      rfl)
    (by decide)

end Insert

end OrderedCollection
end Udk
