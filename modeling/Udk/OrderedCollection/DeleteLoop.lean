import Udk.OrderedCollection.Iterate
import Udk.OrderedCollection.Links
import Udk.RedBlackRepair

/-!
# The repair after a deletion

The loop of a deletion repairs a light place: each round makes the sibling black, and
then recolors and moves up, or rotates and is done.
-/

namespace Udk
namespace OrderedCollection

open RedBlack

variable {α : Type} {h : Heap α} {root : Ptr} {ctx : Context NodeId α} {f : Frame NodeId α}
variable {t w x y z : RbTree NodeId α} {i j k : NodeId} {a b d : α} {n : Nat} {s : Side}
variable {c c' c1 c2 : Color}

theorem Holds.paintSibling (hh : Holds h root (Context.plug ctx (.join s c x i a y)))
    (hne : y ≠ .nil) (c' : Color) :
    ∃ h', h.store y.root (Node.setColor c') = .ok h' ∧
      Reshaped h h' root (Context.plug ctx (.join s c x i a y))
        (Context.plug ctx (.join s c x i a (y.paint c'))) := by
  rw [Context.plug_sibling] at hh
  obtain ⟨h', hstore, hr⟩ := hh.paint _ hne c'
  refine ⟨h', hstore, ?_⟩
  rwa [Context.plug_sibling, Context.plug_sibling]

theorem Holds.readSibling (ctx : Context NodeId α)
    (hh : Holds h root (Context.plug ctx (.join s c1 x i a (.join s c2 y j b z)))) :
    h j = some (Node.ofSide s b (some i) y.root z.root c2) := by
  rw [Context.plug_sibling] at hh
  exact hh.read _

theorem Holds.nephewColors
    (hh : Holds h root (Context.plug ctx (.join s c1 x i a (.join s c2 y j b z)))) :
    nodeIsNullOrBlack h y.root = .ok (y.color == .black) ∧
      nodeIsNullOrBlack h z.root = .ok (z.color == .black) := by
  rw [Context.plug_sibling] at hh
  obtain ⟨-, hnode⟩ := (links_plug _).mp hh.links
  obtain ⟨-, hy, hz⟩ := (links_join ..).mp hnode
  exact ⟨hy.nodeIsNullOrBlack, hz.nodeIsNullOrBlack⟩

section Step

theorem Holds.blackenSibling_black
    (hh : Holds h root (Context.plug ctx (.join s c t i a (.join s .black y j b z)))) :
    blackenSibling s h (some i) (some j) root = .ok (h, some j, root) := by
  simp only [blackenSibling, Heap.deref_eq (hh.readSibling _), ok_bind, Node.color_ofSide]
  rfl

theorem Holds.blackenSibling_red
    (hh : Holds h root (Context.plug ctx (.join s c t i a (.join s .red y j b z))))
    (hy : y ≠ .nil) :
    ∃ h' root', blackenSibling s h (some i) (some j) root = .ok (h', y.root, root') ∧
      Reshaped h h' root' (Context.plug ctx (.join s c t i a (.join s .red y j b z)))
        (Context.plug (⟨s, .black, j, b, z⟩ :: ctx) (.join s .red t i a y)) := by
  obtain ⟨h1, hs1, hr1⟩ := hh.paintSibling (RbTree.join_ne_nil _ _ _ _ _ _) .black
  rw [RbTree.root_join] at hs1
  rw [RbTree.paint_join] at hr1
  obtain ⟨h2, hs2, hr2⟩ := hr1.holds.setColor _ .red
  obtain ⟨h3, root', hrot, hr3⟩ := hr2.holds.rotate _
  have hi : h3 i = _ := hr3.holds.read (⟨s, .black, j, b, z⟩ :: ctx)
  have hsome : y.root.isSome = true := by
    cases hy0 : y.root with
    | none => exact absurd (RbTree.root_eq_none.mp hy0) hy
    | some l => rfl
  refine ⟨h3, root', ?_, (hr1.trans hr2).trans hr3⟩
  simp only [blackenSibling, Heap.deref_eq (hh.readSibling _), ok_bind, Node.color_ofSide,
    beq_self_eq_true, if_true, hs1, hs2, hrot, Heap.deref_eq hi, Node.child_other_ofSide, assert,
    hsome]
  rfl

theorem Holds.reddenNephew_red
    (hh : Holds h root (Context.plug ctx (.join s c t i a (.join s c' y j b z))))
    (hz : z.color = .red) :
    reddenNephew s h (some i) (some j) y.root z.root root = .ok (h, some j, z.root, root) := by
  simp only [reddenNephew, hh.nephewColors.2, hz, ok_bind]
  rfl

theorem Holds.reddenNephew_black
    (hh : Holds h root
      (Context.plug ctx (.join s c t i a (.join s c' (.join s .red w k d x) j b z))))
    (hz : z.color = .black) :
    ∃ h' root', reddenNephew s h (some i) (some j) (some k) z.root root =
        .ok (h', some k, some j, root') ∧
      Reshaped h h' root'
        (Context.plug ctx (.join s c t i a (.join s c' (.join s .red w k d x) j b z)))
        (Context.plug ctx (.join s c t i a (.join s .black w k d (.join s .red x j b z)))) := by
  have hh1 := hh
  rw [Context.plug_sibling] at hh1
  obtain ⟨h1, hs1, hr1⟩ := hh1.setColor
    (⟨s, c', j, b, z⟩ :: ⟨s.other, c, i, a, t⟩ :: ctx) .black
  obtain ⟨h2, hs2, hr2⟩ := hr1.holds.setColor (⟨s.other, c, i, a, t⟩ :: ctx) .red
  have hpivot : RbTree.join s .red (.join s .black w k d x) j b z =
      .join s.other .red z j b (.join s.other .black x k d w) := by
    rw [RbTree.join_other, RbTree.join_other]
  obtain ⟨h3, root', hrot, hr3⟩ := Holds.rotate _ (hpivot ▸ hr2.holds)
  rw [← hpivot, RbTree.join_other, RbTree.join_other] at hr3
  have hr := (hr1.trans hr2).trans hr3
  have hr' : Reshaped h h3 root'
      (Context.plug ctx (.join s c t i a (.join s c' (.join s .red w k d x) j b z)))
      (Context.plug ctx (.join s c t i a (.join s .black w k d (.join s .red x j b z)))) := by
    rw [Context.plug_sibling ctx s c t (.join s c' _ j b z),
      Context.plug_sibling ctx s c t (.join s .black w k d _)]
    exact hr
  refine ⟨h3, root', ?_, hr'⟩
  simp only [reddenNephew, hh.nephewColors.2, hz, beq_self_eq_true, ok_bind, if_true, hs1, hs2,
    hrot, Heap.deref_eq (hr'.holds.read _), Node.child_other_ofSide, RbTree.root_join,
    Heap.deref_eq (hr'.holds.readSibling _)]
  rfl

theorem Holds.finish
    (hh : Holds h root (Context.plug ctx (.join s c t i a (.join s c' y j b z))))
    (hz : z ≠ .nil) :
    ∃ h1 h2 h3 h4 root', h.store (some j) (Node.setColor c) = .ok h1 ∧
      h1.store (some i) (Node.setColor .black) = .ok h2 ∧
      h2.store z.root (Node.setColor .black) = .ok h3 ∧
      OrderedCollection.rotate s h3 (some i) root = .ok (h4, root') ∧
      Reshaped h h4 root' (Context.plug ctx (.join s c t i a (.join s c' y j b z)))
        (Context.plug ctx (.join s c (.join s .black t i a y) j b (z.paint .black))) := by
  obtain ⟨h1, hs1, hr1⟩ := hh.paintSibling (RbTree.join_ne_nil _ _ _ _ _ _) c
  rw [RbTree.root_join] at hs1
  rw [RbTree.paint_join] at hr1
  obtain ⟨h2, hs2, hr2⟩ := hr1.holds.setColor _ .black
  have heq := Context.plug_sibling ctx s .black t (.join s c y j b z) i a
  obtain ⟨h3, hs3, hr3⟩ := Holds.paintSibling (heq ▸ hr2.holds) hz .black
  rw [← heq, ← Context.plug_sibling] at hr3
  obtain ⟨h4, root', hrot, hr4⟩ := hr3.holds.rotate _
  exact ⟨h1, h2, h3, h4, root', hs1, hs2, hs3, hrot, ((hr1.trans hr2).trans hr3).trans hr4⟩

end Step

section Loop

/-- What a round leaves: a light place of color `c` further up or a red one, or a
red-black tree. -/
inductive RoundResult (h : Heap α) (ctx : Context NodeId α) (t : RbTree NodeId α) (c : Color) :
    Heap α × Ptr × Ptr × Ptr → Prop
  | moved (h' : Heap α) (root' : Ptr) (ctx' : Context NodeId α) (t' : RbTree NodeId α) (n' : Nat)
      (hp : LightPlace ctx' t' n') (hcolor : t'.color = c)
      (hlen : ctx'.length < ctx.length ∨ c = .red)
      (hr : Reshaped h h' root' (Context.plug ctx t) (Context.plug ctx' t')) :
      RoundResult h ctx t c (h', t'.root, placeParent none ctx', root')
  | finished (h' : Heap α) (parent root' : Ptr) (t' : RbTree NodeId α)
      (hr : Reshaped h h' root' (Context.plug ctx t) t') (hrb : t'.IsRedBlack) :
      RoundResult h ctx t c (h', root', parent, root')

theorem color_eq_red (h : c ≠ .black) : c = .red := by
  cases c with
  | red => rfl
  | black => exact absurd rfl h

theorem settle_finish (hp : LightPlace (f :: ctx) t n)
    (hs : f.sibling = .join f.side .black y j b z) (ht : t.color = .black) (hz : z.color = .red)
    (hh : Holds h root (Context.plug (f :: ctx) t)) :
    ∃ h1 h2 h3 h4 root', h.store (some j) (Node.setColor f.color) = .ok h1 ∧
      h1.store (some f.id) (Node.setColor .black) = .ok h2 ∧
      h2.store z.root (Node.setColor .black) = .ok h3 ∧
      rotate f.side h3 (some f.id) root = .ok (h4, root') ∧
      ∃ t', Reshaped h h4 root' (Context.plug (f :: ctx) t) t' ∧ t'.IsRedBlack := by
  rw [Context.plug_cons, Frame.fill, hs] at hh ⊢
  obtain ⟨h1, h2, h3, h4, root', hs1, hs2, hs3, hrot, hr⟩ :=
    hh.finish (RbTree.ne_nil_of_color_red hz)
  exact ⟨h1, h2, h3, h4, root', hs1, hs2, hs3, hrot, _, hr, hp.outerNephew hs ht hz⟩

/-- **The rest of a round repairs or moves up.** -/
theorem settle_spec (hp : LightPlace (f :: ctx) t n)
    (hs : f.sibling = .join f.side .black y j b z) (ht : t.color = .black)
    (hh : Holds h root (Context.plug (f :: ctx) t)) :
    ∃ r, settle f.side h (some f.id) (some j) root = .ok r ∧
      RoundResult h (f :: ctx) t f.color r := by
  have hh' : Holds h root (Context.plug ctx
      (.join f.side f.color t f.id f.value (.join f.side .black y j b z))) := by
    rw [← hs]
    exact hh
  obtain ⟨hny, hnz⟩ := hh'.nephewColors
  simp only [settle, Heap.deref_eq (hh'.readSibling _), ok_bind, Node.color_ofSide,
    Node.child_ofSide, Node.child_other_ofSide, hny, hnz, assert, beq_self_eq_true, if_true]
  by_cases hyz : y.color = .black ∧ z.color = .black
  · obtain ⟨hy, hz⟩ := hyz
    obtain ⟨h1, hs1, hr1⟩ := hh'.paintSibling (RbTree.join_ne_nil _ _ _ _ _ _) .red
    rw [RbTree.root_join] at hs1
    rw [RbTree.paint_join] at hr1
    have hread := hr1.holds.read _
    refine ⟨(h1, some f.id, placeParent none ctx, root), ?_, ?_⟩
    · simp only [hy, hz, beq_self_eq_true, if_true, ok_bind, hs1, Heap.deref_eq hread,
        Node.parent_ofSide]
      rfl
    · rw [← hs] at hr1
      have hmoved : RoundResult h (f :: ctx) t f.color _ :=
        .moved h1 root ctx _ _ (hp.blackNephews hs ht hy hz) (RbTree.color_join ..)
          (Or.inl (Nat.lt_succ_self _)) hr1
      rwa [RbTree.root_join] at hmoved
  · have hbranch : (if (y.color == .black) = true then
        (.ok (z.color == .black) : Except Fault Bool) else .ok false) = .ok false := by
      by_cases hy : y.color = .black
      · rw [hy, color_eq_red fun hz => hyz ⟨hy, hz⟩]
        rfl
      · rw [color_eq_red hy]
        rfl
    simp only [hbranch, ok_bind, Bool.false_eq_true, if_false]
    by_cases hz : z.color = .black
    · have hy : y.color = .red := color_eq_red fun hy => hyz ⟨hy, hz⟩
      obtain ⟨c, w, k, d, x, rfl⟩ :=
        RbTree.eq_join_of_ne_nil f.side (RbTree.ne_nil_of_color_red hy)
      obtain rfl : c = .red := by simpa using hy
      obtain ⟨h1, root1, hredden, hr1⟩ := hh'.reddenNephew_black hz
      rw [← hs] at hr1
      obtain ⟨h2, h3, h4, h5, root', hs2, hs3, hs4, hrot, t', hr2, hrb⟩ :=
        settle_finish (hp.innerNephew hs hz) rfl ht (RbTree.color_join ..) hr1.holds
      have hsib := hr1.holds.readSibling ctx
      have hfar := hr1.holds
      rw [Context.plug_sibling] at hfar
      have hfar' := hfar.readSibling _
      have hread := hr1.holds.read ctx
      refine ⟨_, ?_, .finished h5 (some f.id) root' t' (hr1.trans hr2) hrb⟩
      rw [RbTree.root_join] at hs4 ⊢
      simp only [hredden, ok_bind, Option.isSome_some, if_true, Heap.deref_eq hfar',
        Node.color_ofSide, beq_self_eq_true, Heap.deref_eq hsib, Heap.deref_eq hread, hs2, hs3,
        hs4, hrot]
      rfl
    · have hz := color_eq_red hz
      obtain ⟨h2, h3, h4, h5, root', hs2, hs3, hs4, hrot, t', hr2, hrb⟩ :=
        settle_finish hp hs ht hz hh
      obtain ⟨c, w, k, d, x, rfl⟩ :=
        RbTree.eq_join_of_ne_nil f.side (RbTree.ne_nil_of_color_red hz)
      obtain rfl : c = .red := by simpa using hz
      have hfar := hh'
      rw [Context.plug_sibling] at hfar
      refine ⟨_, ?_, .finished h5 (some f.id) root' t' hr2 hrb⟩
      have hredden := hh'.reddenNephew_red hz
      rw [RbTree.root_join] at hs4 hredden ⊢
      simp only [hredden, ok_bind, Option.isSome_some, if_true, Heap.deref_eq (hfar.readSibling _),
        Node.color_ofSide, beq_self_eq_true, Heap.deref_eq (hh'.readSibling _),
        Heap.deref_eq (hh'.read _), hs2, hs3, hs4, hrot]
      rfl

/-- **A round repairs or moves the damage.** -/
theorem deleteRound_spec (hp : LightPlace (f :: ctx) t n) (ht : t.color = .black)
    (hh : Holds h root (Context.plug (f :: ctx) t)) :
    ∃ c r, deleteRound h t.root (some f.id) root = .ok r ∧ RoundResult h (f :: ctx) t c r := by
  have hread := hh.read ctx
  have hsides := hh.siblings_ne ctx (Or.inr hp.sibling_ne_nil)
  obtain ⟨c, y, j, b, z, hs⟩ := RbTree.eq_join_of_ne_nil f.side hp.sibling_ne_nil
  have hh' : Holds h root (Context.plug ctx
      (.join f.side f.color t f.id f.value (.join f.side c y j b z))) := by
    rw [← hs]
    exact hh
  rw [hs, RbTree.root_join] at hread hsides
  simp only [deleteRound, Heap.deref_eq hread, ok_bind, Node.sideOf_ofSide hsides,
    Node.child_other_ofSide, Option.isSome_some, assert, if_true]
  cases c with
  | black =>
      rw [hh'.blackenSibling_black]
      exact ⟨f.color, settle_spec hp hs ht hh⟩
  | red =>
      obtain ⟨_, hp1, hy⟩ := hp.redSibling hs
      have hyne : y ≠ .nil := hp1.sibling_ne_nil
      obtain ⟨h1, root1, hblacken, hr1⟩ := hh'.blackenSibling_red hyne
      rw [← hs] at hr1
      obtain ⟨c, y1, j1, b1, z1, hs1⟩ := RbTree.eq_join_of_ne_nil f.side hyne
      obtain rfl : c = .black := by simpa [hs1] using hy
      obtain ⟨r, hsettle, hres⟩ := settle_spec hp1 hs1 ht hr1.holds
      have hroot : y.root = some j1 := by rw [hs1, RbTree.root_join]
      refine ⟨.red, r, ?_, ?_⟩
      · rw [hblacken, hroot]
        exact hsettle
      · -- the parent is red now, so it ends the loop
        cases hres with
        | moved h' root' ctx' t' n' hp' hcolor hlen hr' =>
            exact .moved h' root' ctx' t' n' hp' hcolor (Or.inr rfl) (hr1.trans hr')
        | finished h' parent root' t' hr' hrb =>
            exact .finished h' parent root' t' (hr1.trans hr') hrb

theorem Holds.blacken (ctx : Context NodeId α) (hh : Holds h root (Context.plug ctx t)) :
    ∃ h', (if t.root.isSome then h.store t.root (Node.setColor .black) else .ok h) = .ok h' ∧
      Reshaped h h' root (Context.plug ctx t) (Context.plug ctx (t.paint .black)) := by
  cases ht : t.root with
  | none =>
      obtain rfl := RbTree.root_eq_none.mp ht
      exact ⟨h, rfl, .refl hh⟩
  | some i =>
      have hne : t ≠ .nil := fun he => by rw [he] at ht; cases ht
      obtain ⟨h', hstore, hr⟩ := hh.paint _ hne .black
      rw [ht] at hstore
      exact ⟨h', hstore, hr⟩

/-- **The loop of a deletion repairs a light place.** -/
theorem deleteLoop_repairs {fuel : Nat} (hp : LightPlace ctx t n)
    (hfuel : ctx.length < fuel ∨ t.color = .red ∧ 0 < fuel)
    (hh : Holds h root (Context.plug ctx t)) :
    ∃ h1 child h2 root' t', deleteLoop fuel h t.root (placeParent none ctx) root =
        .ok (h1, child, root') ∧
      (if child.isSome then h1.store child (Node.setColor .black) else .ok h1) = .ok h2 ∧
      Reshaped h h2 root' (Context.plug ctx t) t' ∧ t'.IsRedBlack := by
  induction fuel generalizing h root ctx t n with
  | zero => exact absurd hfuel (by simp)
  | succ fuel ih =>
      obtain ⟨h', hstore, hr⟩ := hh.blacken _
      obtain ⟨-, hnode⟩ := (links_plug _).mp hh.links
      rw [deleteLoop, hnode.nodeIsNullOrBlack]
      cases ctx with
      | nil =>
          have hroot : (t.root == root) = true := by
            rw [hh.root_eq, Context.plug_nil, beq_self_eq_true]
          rw [hroot, if_pos rfl]
          exact ⟨h, t.root, h', root, _, rfl, hstore, hr, hp.at_root⟩
      | cons f ctx =>
          simp only [hh.ne_root, Bool.false_eq_true, if_false, ok_bind]
          cases htc : t.color with
          | red => exact ⟨h, t.root, h', root, _, rfl, hstore, hr, hp.red htc⟩
          | black =>
              have hlen : (f :: ctx).length < fuel + 1 := by
                rcases hfuel with hlt | ⟨hred, -⟩
                · exact hlt
                · rw [htc] at hred
                  cases hred
              have hlt : 0 < fuel := by
                simp only [List.length_cons] at hlen
                omega
              obtain ⟨c, r, hround, hres⟩ := deleteRound_spec hp htc hh
              simp only [beq_self_eq_true, Bool.not_true, Bool.false_eq_true, if_false,
                placeParent_cons, hround, ok_bind]
              cases hres with
              | moved h1 root1 ctx' t1 n' hp' hcolor hshort hr1 =>
                  have hfuel' : ctx'.length < fuel ∨ t1.color = .red ∧ 0 < fuel := by
                    rcases hshort with hshort | hred
                    · exact Or.inl (by omega)
                    · exact Or.inr ⟨hcolor.trans hred, hlt⟩
                  obtain ⟨h2, child, h3, root', t', hloop, hpaint, hr2, hrb⟩ :=
                    ih hp' hfuel' hr1.holds
                  exact ⟨h2, child, h3, root', t', hloop, hpaint, hr1.trans hr2, hrb⟩
              | finished h1 parent root1 t1 hr1 hrb =>
                  obtain ⟨h2, hpaint, hr2⟩ := hr1.holds.blacken []
                  rw [← hr1.holds.root_eq] at hpaint
                  obtain ⟨fuel, rfl⟩ : ∃ m, fuel = m + 1 := ⟨fuel - 1, by omega⟩
                  refine ⟨h1, root1, h2, root1, t1.paint .black, ?_, hpaint, hr1.trans hr2, ?_⟩
                  · rw [deleteLoop, beq_self_eq_true, if_pos rfl]
                    rfl
                  · rw [← hrb.root_black, RbTree.paint_color_self]
                    exact hrb

end Loop

end OrderedCollection
end Udk
