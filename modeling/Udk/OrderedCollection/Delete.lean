import Udk.OrderedCollection.DeleteLoop

/-!
# Deletion

A deletion unlinks the node, or its successor that then takes its place, and repairs
the tree when the unlinked node was black.
-/

namespace Udk
namespace OrderedCollection

open RedBlack List

variable {α κ : Type} {h : Heap α} {root : Ptr} {ctx : Context NodeId α}
variable {t x y l r : RbTree NodeId α} {i j : NodeId} {a b : α} {c c' : Color} {fuel : Nat}

/-- The collection once a node is unlinked: `x` stands where the unlinked node was. -/
structure UnlinkedTree (h : Heap α) (p : NodeId) (t : RbTree NodeId α) (ctx : Context NodeId α)
    (x : RbTree NodeId α) (u : Unlinked α) : Prop where
  child : u.child = x.root
  parent : u.parent = placeParent none ctx
  holds : Holds (Function.update u.heap p none) u.newRoot (Context.plug ctx x)
  node : ∃ node, u.heap p = some node
  red : u.colorOfUnlinked = .red → (Context.plug ctx x).IsRedBlack
  black : u.colorOfUnlinked = .black → ∃ n, LightPlace ctx x n
  frame : ∀ k, k ∉ t.ids → u.heap k = h k

/-- Unlink a node with at most one child. -/
theorem unlinkNode_spec (hh : Holds h root (Context.plug ctx (.node c l i a r)))
    (hrb : (Context.plug ctx (.node c l i a r)).IsRedBlack) (hchild : l = .nil ∨ r = .nil) :
    ∃ x u, unlinkNode h root (some i) ⟨a, placeParent none ctx, l.root, r.root, c⟩ = .ok u ∧
      UnlinkedTree h i (Context.plug ctx (.node c l i a r)) ctx x u ∧
      x.toList = l.toList ++ r.toList := by
  obtain ⟨x, s, hjoin, hx, hlist⟩ : ∃ x s, RbTree.node c l i a r = .join s c x i a .nil ∧
      (if l.root.isSome then l.root else r.root) = x.root ∧ x.toList = l.toList ++ r.toList := by
    rcases hchild with rfl | rfl
    · exact ⟨r, .right, rfl, rfl, rfl⟩
    · refine ⟨l, .left, rfl, ?_, by simp [RbTree.toList]⟩
      cases hl : l.root with
      | none => rfl
      | some k => rfl
  rw [hjoin] at hh hrb ⊢
  obtain ⟨hctx, hnode⟩ := (links_plug _).mp hh.links
  obtain ⟨hi, hlx, -⟩ := (links_join ..).mp hnode
  obtain ⟨hnd, hndctx, hdis⟩ := Context.nodup_plug.mp hh.nodup
  obtain ⟨⟨hix, -⟩, hndx, -⟩ := (RbTree.nodup_ids_join ..).mp hnd
  have hictx : i ∉ Context.ids ctx := hdis ((RbTree.mem_ids_join ..).mpr (Or.inl rfl))
  have hxctx : x.ids.Disjoint (Context.ids ctx) := fun k hk =>
    hdis ((RbTree.mem_ids_join ..).mpr (Or.inr (Or.inl hk)))
  rw [RbTree.root_join] at hctx
  obtain ⟨h1, hadopt, hl1, hframe1⟩ := hlx.adopt hndx (placeParent none ctx)
  have hctx1 : ContextLinks h1 none ctx (some i) :=
    hctx.congr fun k hk => hframe1 k fun hkx => hxctx hkx hk
  obtain ⟨h2, hreplace, hctx2, hframe2⟩ := hctx1.replaceChild hndctx hictx x.root root
  have hl2 : Links h2 (placeParent none ctx) x := hl1.congr fun k hk => hframe2 k (hxctx hk)
  obtain ⟨hred, hblack⟩ := unlink_only hrb
  refine ⟨x, ⟨h2, if ctx = [] then x.root else root, x.root, placeParent none ctx, c⟩, ?_,
    ⟨rfl, rfl, ⟨?_, ?_, ?_⟩, ?_, hred, hblack, ?_⟩, hlist⟩
  · simp only [unlinkNode, hx, hadopt, ok_bind, hreplace]
    rfl
  · exact (links_plug _).mpr ⟨hctx2.update hictx _, hl2.update hix _⟩
  · rw [hh.root_eq, Context.root_plug, Context.root_plug, RbTree.root_join]
    cases ctx with
    | nil => rfl
    | cons f ctx => simp [getLast?_cons]
  · exact Context.nodup_plug.mpr ⟨hndx, hndctx, hxctx⟩
  · exact ⟨_, (hframe2 i hictx).trans ((hframe1 i hix).trans hi)⟩
  · intro k hk
    simp only [Context.mem_ids_plug, RbTree.mem_ids_join, not_or] at hk
    exact (hframe2 k hk.2).trans (hframe1 k hk.1.2.1)

theorem Links.cutFirst {f : Frame NodeId α} {p : Ptr} (hside : f.side = .left)
    (hl : Links h p (Context.plug (f :: ctx) (.node c .nil j b x)))
    (hnd : (Context.plug (f :: ctx) (.node c .nil j b x)).ids.Nodup) :
    ∃ h1 h2, h.store (some f.id) (Node.setChild .left x.root) = .ok h1 ∧
      OrderedCollection.adopt h1 x.root (some f.id) = .ok h2 ∧
      Links h2 p (Context.plug (f :: ctx) x) ∧
      h2 j = some ⟨b, some f.id, none, x.root, c⟩ ∧
      ∀ k, k ∉ (Context.plug (f :: ctx) (.node c .nil j b x)).ids → h2 k = h k := by
  obtain ⟨hctx, hj, -, hx⟩ := (links_plug _).mp hl
  obtain ⟨hndj, hndctx, hdis⟩ := Context.nodup_plug.mp hnd
  have hids := RbTree.mem_ids_join .left c .nil j b x
  obtain ⟨⟨-, hjx⟩, -, hndx, -⟩ := (RbTree.nodup_ids_join .left c .nil j b x).mp hndj
  have hjctx : j ∉ Context.ids (f :: ctx) := hdis ((hids j).mpr (Or.inl rfl))
  have hxctx : x.ids.Disjoint (Context.ids (f :: ctx)) := fun k hk =>
    hdis ((hids k).mpr (Or.inr (Or.inr hk)))
  have hfctx : f.id ∈ Context.ids (f :: ctx) := mem_cons_self
  obtain ⟨h1, hstore, hctx1, hframe1⟩ := hctx.setHole hndctx x.root
  rw [hside] at hstore
  have hne : ∀ k, k ∉ Context.ids (f :: ctx) → k ≠ f.id := fun k hk he => hk (he ▸ hfctx)
  have hx1 : Links h1 (some j) x := hx.congr fun k hk => hframe1 k (hne k (hxctx hk))
  obtain ⟨h2, hadopt, hx2, hframe2⟩ := hx1.adopt hndx (some f.id)
  refine ⟨h1, h2, hstore, hadopt, (links_plug _).mpr ⟨?_, hx2⟩, ?_, ?_⟩
  · exact hctx1.congr fun k hk => hframe2 k fun hkx => hxctx hkx hk
  · rw [hframe2 j hjx, hframe1 j (hne j hjctx), hj]
    rfl
  · intro k hk
    have hk' := fun hmem => hk (Context.mem_ids_plug.mpr hmem)
    have hkx : k ∉ x.ids := fun hmem => hk' (Or.inl ((hids k).mpr (Or.inr (Or.inr hmem))))
    rw [hframe2 k hkx, hframe1 k (hne k fun hmem => hk' (Or.inr hmem))]

/-- **Unlink the successor**, the first node of the right subtree: it then has the rest of
that subtree on its right. -/
theorem unlinkSuccessor_spec (hl : Links h (some i) r) (hnd : r.ids.Nodup) (hne : r ≠ .nil)
    (hfuel : r.toList.length ≤ fuel) :
    ∃ h' lctx j b x c p, r = Context.plug lctx (.node c .nil j b x) ∧
      (∀ f ∈ lctx, f.side = .left) ∧
      unlinkSuccessor fuel h r.root = .ok (h', some j, x.root, placeParent (some j) lctx) ∧
      Links h' (some j) (Context.plug lctx x) ∧
      h' j = some ⟨b, p, none, (Context.plug lctx x).root, c⟩ ∧ ∀ k, k ∉ r.ids → h' k = h k := by
  cases r with
  | nil => exact absurd rfl hne
  | node c l j a r =>
      obtain ⟨hj, hll, hlr⟩ := hl
      by_cases hl0 : l = .nil
      · subst hl0
        refine ⟨h, [], j, a, r, c, some i, rfl, by simp, ?_, hlr, hj, fun _ _ => rfl⟩
        simp only [unlinkSuccessor, RbTree.root_node, Heap.deref_eq hj, ok_bind]
        rfl
      · obtain ⟨lctx, c', k, b, x, hplug, hleft⟩ := Context.exists_plug_first hl0
        have hdesc : descend h .left fuel l.root = .ok (some k) := by
          simp only [RbTree.toList, length_append] at hfuel
          refine (descend_spec (s := .right) (by omega) hll hl0).trans (congrArg Except.ok ?_)
          rw [RbTree.listTo, hplug, Context.toList_plug, Context.before_eq_nil hleft]
          rfl
        have hsome : l.root.isNone = false := by
          cases hl1 : l.root with
          | none => exact absurd (RbTree.root_eq_none.mp hl1) hl0
          | some m => rfl
        -- the frames above the successor, up to the root of the subtree
        obtain ⟨f, ctx, hctx⟩ : ∃ f ctx, lctx ++ [⟨.left, c, j, a, r⟩] = f :: ctx := by
          cases lctx with
          | nil | cons f lctx => exact ⟨_, _, rfl⟩
        have hall : ∀ g ∈ f :: ctx, g.side = .left := by
          rw [← hctx]
          intro g hg
          rcases mem_append.mp hg with hg | hg
          · exact hleft g hg
          · rw [mem_singleton.mp hg]
        have hwhole : ∀ t, Context.plug (f :: ctx) t = .node c (Context.plug lctx t) j a r := by
          intro t
          rw [← hctx, Context.plug_append]
          rfl
        have hr : RbTree.node c l j a r = Context.plug (f :: ctx) (.node c' .nil k b x) := by
          rw [hwhole, ← hplug]
        have hlinks : Links h (some i) (.node c l j a r) := ⟨hj, hll, hlr⟩
        rw [hr] at hlinks hnd
        obtain ⟨-, hk, -⟩ := (links_plug _).mp hlinks
        obtain ⟨h1, h2, hstore, hadopt, hl2, hk2, hframe2⟩ := hlinks.cutFirst (hall f (by simp)) hnd
        have hids := RbTree.mem_ids_join .left c' .nil k b x
        obtain ⟨hndk, hndctx, hdis⟩ := Context.nodup_plug.mp hnd
        obtain ⟨⟨-, hkx⟩, -, hndx, -⟩ := (RbTree.nodup_ids_join .left c' .nil k b x).mp hndk
        have hkrest : k ∉ (Context.plug (f :: ctx) x).ids := by
          rw [Context.mem_ids_plug, not_or]
          exact ⟨hkx, hdis ((hids k).mpr (Or.inl rfl))⟩
        have hndrest : (Context.plug (f :: ctx) x).ids.Nodup :=
          Context.nodup_plug.mpr ⟨hndx, hndctx, fun m hm =>
            hdis ((hids m).mpr (Or.inr (Or.inr hm)))⟩
        obtain ⟨h4, hadopt4, hl4, hframe4⟩ := (hl2.update hkrest
          (some ⟨b, some f.id, none, some j, c'⟩)).adopt hndrest (some k)
        have hroot : (Context.plug (f :: ctx) x).root = some j := by
          rw [hwhole]
          rfl
        rw [adopt, hroot, Option.isSome_some, if_pos rfl] at hadopt4
        refine ⟨h4, f :: ctx, k, b, x, c', some f.id, hr, hall, ?_, hl4, ?_, ?_⟩
        · simp only [unlinkSuccessor, RbTree.root_node, Heap.deref_eq hj, ok_bind, hsome,
            Bool.false_eq_true, if_false, hdesc, Heap.deref_eq hk, placeParent_cons, hstore, hadopt,
            Heap.store_eq hk2]
          exact congrArg (· >>= _) hadopt4
        · rw [hframe4 k hkrest, Function.update_self, hroot]
        · intro m hm
          rw [hr] at hm
          have hmk : m ≠ k := fun he =>
            hm (Context.mem_ids_plug.mpr (Or.inl ((hids m).mpr (Or.inl he))))
          have hmrest : m ∉ (Context.plug (f :: ctx) x).ids := by
            intro hmem
            refine hm (Context.mem_ids_plug.mpr ?_)
            rcases Context.mem_ids_plug.mp hmem with hmx | hmctx
            · exact Or.inl ((hids m).mpr (Or.inr (Or.inr hmx)))
            · exact Or.inr hmctx
          rw [hframe4 m hmrest, Function.update_of_ne hmk, hframe2 m hm]

/-- **Put the successor into the place of a node with two children.** -/
theorem relinkSuccessor_spec (hh : Holds h root (Context.plug ctx (.node c l i a r)))
    (hrb : (Context.plug ctx (.node c l i a r)).IsRedBlack) (hl0 : l ≠ .nil) (hr0 : r ≠ .nil)
    (hfuel : r.toList.length ≤ fuel) :
    ∃ ctx' x u, relinkSuccessor fuel h root (some i)
        ⟨a, placeParent none ctx, l.root, r.root, c⟩ = .ok u ∧
      UnlinkedTree h i (Context.plug ctx (.node c l i a r)) ctx' x u ∧
      (Context.plug ctx' x).toList =
        Context.before ctx ++ (l.toList ++ r.toList) ++ Context.after ctx := by
  obtain ⟨hctx, hi, hll, hlr⟩ := (links_plug _).mp hh.links
  obtain ⟨hnd, hndctx, hdis⟩ := Context.nodup_plug.mp hh.nodup
  have hids := RbTree.mem_ids_join .left c l i a r
  obtain ⟨⟨hil, hir⟩, hndl, hndr, hlr'⟩ := (RbTree.nodup_ids_join .left c l i a r).mp hnd
  obtain ⟨h1, lctx, j, b, x, cj, p, hplug, hleft, hunlink, hrest, hj1, hframe1⟩ :=
    unlinkSuccessor_spec hlr hndr hr0 hfuel
  have hidsj := RbTree.mem_ids_join .left cj .nil j b x
  have hjr : j ∈ r.ids := by
    rw [hplug]
    exact Context.mem_ids_plug.mpr (Or.inl ((hidsj j).mpr (Or.inl rfl)))
  have hrestr : ∀ k ∈ (Context.plug lctx x).ids, k ∈ r.ids := by
    intro k hk
    rw [hplug]
    rcases Context.mem_ids_plug.mp hk with hkx | hkctx
    · exact Context.mem_ids_plug.mpr (Or.inl ((hidsj k).mpr (Or.inr (Or.inr hkx))))
    · exact Context.mem_ids_plug.mpr (Or.inr hkctx)
  obtain ⟨hndrest, hjrest⟩ : (Context.plug lctx x).ids.Nodup ∧ j ∉ (Context.plug lctx x).ids := by
    rw [hplug] at hndr
    obtain ⟨hndj, hndl, hdisj⟩ := Context.nodup_plug.mp hndr
    obtain ⟨⟨-, hjx⟩, -, hndx, -⟩ := (RbTree.nodup_ids_join .left cj .nil j b x).mp hndj
    refine ⟨Context.nodup_plug.mpr ⟨hndx, hndl, fun k hk =>
      hdisj ((hidsj k).mpr (Or.inr (Or.inr hk)))⟩, ?_⟩
    rw [Context.mem_ids_plug, not_or]
    exact ⟨hjx, hdisj ((hidsj j).mpr (Or.inl rfl))⟩
  have hjl : j ∉ l.ids := fun hm => hlr' hm hjr
  have hctxr : ∀ k ∈ r.ids, k ∉ Context.ids ctx := fun k hk =>
    hdis ((hids k).mpr (Or.inr (Or.inr hk)))
  have hctxl : ∀ k ∈ l.ids, k ∉ Context.ids ctx := fun k hk =>
    hdis ((hids k).mpr (Or.inr (Or.inl hk)))
  have hictx : i ∉ Context.ids ctx := hdis ((hids i).mpr (Or.inl rfl))
  have hij : i ≠ j := fun he => hir (he ▸ hjr)
  -- the left subtree goes to the successor
  have hl2 : Links (Function.update h1 j (some
      ⟨b, p, l.root, (Context.plug lctx x).root, cj⟩)) (some i) l :=
    (hll.congr fun k hk => hframe1 k fun hm => hlr' hk hm).update hjl _
  obtain ⟨h3, hadopt, hl3, hframe3⟩ := hl2.adopt hndl (some j)
  have hlsome : l.root.isSome = true := by
    cases hl1 : l.root with
    | none => exact absurd (RbTree.root_eq_none.mp hl1) hl0
    | some m => rfl
  rw [adopt, hlsome, if_pos rfl] at hadopt
  have hj3 : h3 j = some ⟨b, p, l.root, (Context.plug lctx x).root, cj⟩ := by
    rw [hframe3 j hjl, Function.update_self]
  have hi3 : h3 i = some ⟨a, placeParent none ctx, l.root, r.root, c⟩ := by
    rw [hframe3 i hil, Function.update_of_ne hij, hframe1 i hir, hi]
  -- the successor gets the color and the parent of the node
  obtain ⟨h5, hh5⟩ : ∃ h5, h5 = Function.update (Function.update h3 j (some
      ⟨b, p, l.root, (Context.plug lctx x).root, c⟩)) j (some
      ⟨b, placeParent none ctx, l.root, (Context.plug lctx x).root, c⟩) := ⟨_, rfl⟩
  have hframe5 : ∀ k, k ≠ j → h5 k = h3 k := by
    intro k hk
    rw [hh5, Function.update_of_ne hk, Function.update_of_ne hk]
  have hctx5 : ContextLinks h5 none ctx (some i) := by
    refine hctx.congr fun k hk => ?_
    have hkj : k ≠ j := fun he => hctxr k (he ▸ hjr) hk
    have hkl : k ∉ l.ids := fun hm => hctxl k hm hk
    have hkr : k ∉ r.ids := fun hm => hctxr k hm hk
    rw [hframe5 k hkj, hframe3 k hkl, Function.update_of_ne hkj, hframe1 k hkr]
  obtain ⟨h6, hreplace, hctx6, hframe6⟩ := hctx5.replaceChild hndctx hictx (some j) root
  obtain ⟨hred, hblack⟩ : (cj = .red →
        (Context.plug (lctx ++ ⟨.right, c, j, b, l⟩ :: ctx) x).IsRedBlack) ∧
      (cj = .black → ∃ n, LightPlace (lctx ++ ⟨.right, c, j, b, l⟩ :: ctx) x n) := by
    refine unlink_only (s := .right) (i := j) (a := b) ?_
    rw [hplug] at hrb
    rw [Context.plug_append]
    exact relabel hrb j b
  have hwhole : ∀ t, Context.plug (lctx ++ ⟨.right, c, j, b, l⟩ :: ctx) t =
      Context.plug ctx (.node c l j b (Context.plug lctx t)) := by
    intro t
    rw [Context.plug_append]
    rfl
  refine ⟨lctx ++ ⟨.right, c, j, b, l⟩ :: ctx, x,
    ⟨h6, if ctx = [] then some j else root, x.root, placeParent (some j) lctx, cj⟩, ?_,
    ⟨rfl, ?_, ?_, ?_, hred, hblack, ?_⟩, ?_⟩
  · simp only [relinkSuccessor, hunlink, ok_bind, Heap.store_eq hj1]
    rw [show Node.setChild .left l.root ⟨b, p, none, (Context.plug lctx x).root, cj⟩ =
      ⟨b, p, l.root, (Context.plug lctx x).root, cj⟩ from rfl, hadopt]
    simp only [ok_bind, Heap.deref_eq hj3, Heap.deref_eq hi3, Heap.store_eq hj3]
    rw [Heap.store_eq (Function.update_self ..), ok_bind]
    rw [hh5] at hreplace
    exact congrArg (· >>= _) hreplace
  · cases lctx with
    | nil => rfl
    | cons f lctx => rfl
  · have hj6 : h6 j = some ⟨b, placeParent none ctx, l.root, (Context.plug lctx x).root, c⟩ := by
      rw [hframe6 j (hctxr j hjr), hh5, Function.update_self]
    have hl6 : Links h6 (some j) l := hl3.congr fun k hk => by
      rw [hframe6 k (hctxl k hk), hframe5 k fun he => hjl (he ▸ hk)]
    have hrest6 : Links h6 (some j) (Context.plug lctx x) := hrest.congr fun k hk => by
      have hkr := hrestr k hk
      have hkj : k ≠ j := fun he => hjrest (he ▸ hk)
      rw [hframe6 k (hctxr k hkr), hframe5 k hkj, hframe3 k fun hm => hlr' hm hkr,
        Function.update_of_ne hkj]
    rw [hwhole]
    refine ⟨(links_plug _).mpr ⟨hctx6.update hictx _, ?_, hl6.update hil _,
      hrest6.update (fun hm => hir (hrestr i hm)) _⟩, ?_, Context.nodup_plug.mpr ⟨?_, hndctx, ?_⟩⟩
    · exact (Function.update_of_ne (Ne.symm hij) _ _).trans hj6
    · rw [hh.root_eq, Context.root_plug, Context.root_plug]
      cases ctx with
      | nil => rfl
      | cons f ctx => simp [getLast?_cons]
    · exact (RbTree.nodup_ids_join .left c l j b _).mpr ⟨⟨hjl, hjrest⟩, hndl, hndrest, fun k hk hm =>
        hlr' hk (hrestr k hm)⟩
    · intro k hk
      rcases (RbTree.mem_ids_join .left c l j b _ k).mp hk with rfl | hkl | hkr
      · exact hctxr k hjr
      · exact hctxl k hkl
      · exact hctxr k (hrestr k hkr)
  · exact ⟨_, (hframe6 i hictx).trans ((hframe5 i hij).trans hi3)⟩
  · intro k hk
    rw [Context.mem_ids_plug, not_or] at hk
    have hk' := fun hm => hk.1 ((hids k).mpr hm)
    have hkr : k ∉ r.ids := fun hm => hk' (Or.inr (Or.inr hm))
    have hkj : k ≠ j := fun he => hkr (he ▸ hjr)
    refine (hframe6 k hk.2).trans ?_
    rw [hframe5 k hkj, hframe3 k fun hm => hk' (Or.inr (Or.inl hm)), Function.update_of_ne hkj,
      hframe1 k hkr]
  · rw [hwhole, Context.toList_plug, hplug]
    simp [RbTree.toList, Context.toList_plug, Context.before_eq_nil hleft]

theorem UnlinkedTree.repair {p : NodeId} {u : Unlinked α} (hu : UnlinkedTree h p t ctx x u)
    (hfuel : ctx.length < fuel) :
    ∃ h' root' t', repair fuel (Function.update u.heap p none) u = .ok (h', root') ∧
      Reshaped (Function.update u.heap p none) h' root' (Context.plug ctx x) t' ∧
      t'.IsRedBlack := by
  cases hc : u.colorOfUnlinked with
  | red =>
      refine ⟨_, u.newRoot, _, ?_, .refl hu.holds, hu.red hc⟩
      rw [OrderedCollection.repair, hc]
      rfl
  | black =>
      obtain ⟨n, hp⟩ := hu.black hc
      obtain ⟨h1, child, h2, root', t', hloop, hpaint, hr, hrb⟩ :=
        deleteLoop_repairs hp (Or.inl hfuel) hu.holds
      refine ⟨h2, root', t', ?_, hr, hrb⟩
      simp only [OrderedCollection.repair, hc, beq_self_eq_true, if_true, hu.child, hu.parent,
        hloop, ok_bind, hpaint]
      rfl

/-- The node is gone from the collection and its memory released; the other nodes keep their
identity and user structure; all other memory is as before. -/
structure Deleted (h : Heap α) (tree : Collection α κ) (t : RbTree NodeId α) (i : NodeId) (a : α)
    (result : DeleteResult α κ) : Prop where
  userStruct : result.userStruct = a
  valid : ∃ t', Valid result.heap result.tree t' ∧
    ∃ before after, t.toList = before ++ (i, a) :: after ∧ t'.toList = before ++ after
  userStructCompare : result.tree.userStructCompare = tree.userStructCompare
  keyCompare : result.tree.keyCompare = tree.keyCompare
  released : result.heap i = none
  frame : ∀ k, k ∉ t.ids → result.heap k = h k

/-- A deletion returns, and the node is gone. -/
theorem orderedCollectionDelete_returns {tree : Collection α κ} (pcdValidateOrderedCollection : Bool)
    (ho : Orders tree.userStructCompare) (hv : Valid h tree t) (hmem : (i, a) ∈ t.toList)
    (hfuel : t.toList.length < fuel) :
    ∃ result, orderedCollectionDelete pcdValidateOrderedCollection fuel h tree (some i) =
        .ok result ∧ Deleted h tree t i a result := by
  obtain ⟨ctx, c, l, r, rfl⟩ := Context.exists_plug hmem
  have hi := hv.holds.read (s := .left) (x := l) (y := r) ctx
  have hlen : (Context.plug ctx (.node c l i a r)).toList.length =
      l.toList.length + (r.toList.length + 1) + (Context.ids ctx).length := by
    rw [Context.length_toList_plug]
    simp [RbTree.toList]
  obtain ⟨ctx', x, u, hunlink, hu, hlist⟩ : ∃ ctx' x u,
      (if l.root.isNone || r.root.isNone then
        unlinkNode h tree.root (some i) ⟨a, placeParent none ctx, l.root, r.root, c⟩
      else relinkSuccessor fuel h tree.root (some i)
        ⟨a, placeParent none ctx, l.root, r.root, c⟩) = .ok u ∧
      UnlinkedTree h i (Context.plug ctx (.node c l i a r)) ctx' x u ∧
      (Context.plug ctx' x).toList =
        Context.before ctx ++ (l.toList ++ r.toList) ++ Context.after ctx := by
    split_ifs with hnone
    · have hchild : l = .nil ∨ r = .nil := by
        simp only [Bool.or_eq_true, Option.isNone_iff_eq_none, RbTree.root_eq_none] at hnone
        exact hnone
      obtain ⟨x, u, hunlink, hu, hx⟩ := unlinkNode_spec hv.holds hv.isRedBlack hchild
      exact ⟨ctx, x, u, hunlink, hu, by rw [Context.toList_plug, hx]⟩
    · simp only [Bool.or_eq_true, Option.isNone_iff_eq_none, RbTree.root_eq_none, not_or] at hnone
      exact relinkSuccessor_spec hv.holds hv.isRedBlack hnone.1 hnone.2 (by omega)
  have hlen' : ctx'.length < fuel := by
    have hle := Context.length_le_ids ctx'
    have hplug := Context.length_toList_plug ctx' x
    have hsize := congrArg List.length hlist
    have hold := congrArg List.length (Context.toList_plug ctx (.node c l i a r))
    simp only [RbTree.toList, length_append, length_cons] at hsize hold
    omega
  obtain ⟨h', root', t', hrepair, hr, hrb⟩ := hu.repair hlen'
  obtain ⟨node, hnode⟩ := hu.node
  have hold := Context.toList_plug ctx (.node c l i a r)
  have hnew : t'.toList = (Context.before ctx ++ l.toList) ++ (r.toList ++ Context.after ctx) := by
    rw [hr.toList_eq, hlist]
    simp
  have hsplit : (Context.plug ctx (.node c l i a r)).toList =
      (Context.before ctx ++ l.toList) ++ (i, a) :: (r.toList ++ Context.after ctx) := by
    rw [hold, RbTree.toList]
    simp
  have hgone : i ∉ (Context.plug ctx' x).ids := by
    have hnd := hv.holds.nodup
    rw [RbTree.ids, hsplit, map_append, map_cons, nodup_middle, nodup_cons,
      ← map_append, ← hnew, hr.toList_eq] at hnd
    exact hnd.1
  have hv' : Valid h' { tree with root := root' } t' := by
    refine ⟨hr.holds, hrb, ?_⟩
    have hs := hv.ordered
    rw [Ordered, hsplit] at hs
    rw [Ordered, hnew]
    exact hs.sublist ((sublist_cons_self _ _).append_left _)
  refine ⟨⟨a, h', { tree with root := root' }⟩, ?_, rfl, ⟨t', hv', _, _, hsplit, hnew⟩, rfl, rfl,
    ?_, ?_⟩
  · have hlen'' : t'.toList.length < fuel := by
      have hsize := congrArg List.length hnew
      have hsize' := congrArg List.length hsplit
      simp only [length_append, length_cons] at hsize hsize'
      omega
    simp only [orderedCollectionDelete, Heap.deref_eq hi, ok_bind]
    refine (congrArg (· >>= _) hunlink).trans ?_
    simp only [ok_bind, Heap.free_eq hnode, hrepair]
    split_ifs
    · rw [hv'.validate ho hlen'']
      rfl
    · rfl
  · exact (hr.frame i hgone).trans (Function.update_self ..)
  · intro k hk
    have hki : k ≠ i := by
      rintro rfl
      exact hk (mem_map.mpr ⟨(k, a), hmem, rfl⟩)
    have hkx : k ∉ (Context.plug ctx' x).ids := by
      intro hm
      refine hk ?_
      rw [RbTree.ids, ← hr.toList_eq, hnew] at hm
      rw [RbTree.ids, hsplit]
      simp only [map_append, map_cons, mem_append, mem_cons] at hm ⊢
      tauto
    exact (hr.frame k hkx).trans ((Function.update_of_ne hki _ _).trans (hu.frame k hk))

/-- **Deletion.**  On a node of a valid collection `OrderedCollectionDelete` meets no fault:
no null pointer or released node is followed and no assertion fails, those of
`RedBlackTreeValidate` included. -/
theorem orderedCollectionDelete_correct {tree : Collection α κ} (pcdValidateOrderedCollection : Bool)
    (ho : Orders tree.userStructCompare) (hv : Valid h tree t) (hmem : (i, a) ∈ t.toList)
    (hfuel : t.toList.length < fuel) :
    ∃ result, orderedCollectionDelete pcdValidateOrderedCollection fuel h tree (some i) =
        .ok result ∧ Deleted h tree t i a result :=
  orderedCollectionDelete_returns pcdValidateOrderedCollection ho hv hmem hfuel

/-- The root gives way to its child. -/
theorem orderedCollectionDelete_correct_sample :
    ∃ result, orderedCollectionDelete true 3 sampleHeap sampleCollection (some 0) = .ok result ∧
      Deleted sampleHeap sampleCollection (.node .black (.node .red .nil 1 3 .nil) 0 5 .nil)
        0 5 result :=
  orderedCollectionDelete_correct true orders_sub valid_sample (by decide) (by decide)

end OrderedCollection
end Udk
