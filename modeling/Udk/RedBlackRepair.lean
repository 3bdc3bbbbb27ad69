import Udk.RedBlackTree

/-!
# Repairing red-black trees

The two kinds of damage a red-black tree can have at one place, and the local
changes that move the damage up or remove it:

* `RedPlace`: the red subtree in the place may have a red parent;
* `LightPlace`: the paths through the place have one black node too few.
-/

namespace Udk
namespace RedBlack

universe u v

variable {ι : Type u} {α : Type v} {f g : Frame ι α} {ctx : Context ι α} {t : RbTree ι α} {n : Nat}
variable {w x y z : RbTree ι α} {i j k : ι} {a b d : α} {s : Side} {c : Color}

open Context

theorem HasHeight.join {s : Side} {c : Color} (hx : x.HasHeight n) (hy : y.HasHeight n) :
    (RbTree.join s c x i a y).HasHeight (n + c.weight) :=
  (RbTree.hasHeight_join s c x i a y _).mpr ⟨n, hx, hy, rfl⟩

theorem NoRedRed.join_red {s : Side} (hx : x.NoRedRed) (hy : y.NoRedRed)
    (hxb : x.color = .black) (hyb : y.color = .black) :
    (RbTree.join s .red x i a y).NoRedRed :=
  (RbTree.noRedRed_join ..).mpr ⟨fun _ => ⟨hxb, hyb⟩, hx, hy⟩

theorem NoRedRed.join_black {s : Side} (hx : x.NoRedRed) (hy : y.NoRedRed) :
    (RbTree.join s .black x i a y).NoRedRed :=
  (RbTree.noRedRed_join ..).mpr ⟨(fun h => by cases h), hx, hy⟩

theorem paint_color {c : Color} (h : t ≠ .nil) : (t.paint c).color = c := by
  cases t with
  | nil => exact absurd rfl h
  | node c' l i a r => rfl

theorem RootBlack.cons (h : RootBlack ctx) (hf : f.color = .black) : RootBlack (f :: ctx) := by
  cases ctx with
  | nil => simpa [RootBlack] using hf
  | cons g ctx => simpa [RootBlack, List.getLast?_cons_cons] using h

/-- A plugged tree with the red-black properties but for the color of its root. -/
theorem isRedBlack_paint_plug (hred : t.NoRedRed) (hadmits : Admits ctx t.color)
    (hheight : t.HasHeight n) (hfits : Fits ctx n) : ((plug ctx t).paint .black).IsRedBlack := by
  obtain ⟨m, hm⟩ := (balanced_plug ctx t).mpr ⟨n, hheight, hfits⟩
  exact .of_paint ((noRedRed_plug ctx t).mpr ⟨hred, hadmits⟩) hm

section Red

/-- A red subtree in its place; only the edge to its parent may be red on both ends. -/
structure RedPlace (ctx : Context ι α) (t : RbTree ι α) (n : Nat) : Prop where
  red : t.color = .red
  noRedRed : t.NoRedRed
  height : t.HasHeight n
  fits : Fits ctx n
  admits : Admits ctx .black
  rootBlack : RootBlack ctx

namespace RedPlace

/-- At the root nothing is left to repair. -/
theorem at_root (h : RedPlace [] t n) : (t.paint .black).IsRedBlack :=
  .of_paint h.noRedRed h.height

/-- Below a black parent nothing is left to repair. -/
theorem below_black (h : RedPlace (f :: ctx) t n) (hf : f.color = .black) :
    ((plug (f :: ctx) t).paint .black).IsRedBlack := by
  refine isRedBlack_paint_plug h.noRedRed ⟨fun hred => ?_, h.admits.2⟩ h.height h.fits
  rw [hf] at hred
  cases hred

/-- A red parent has a black parent itself. -/
theorem grandparent (h : RedPlace (f :: ctx) t n) (hf : f.color = .red) :
    ∃ g ctx', ctx = g :: ctx' ∧ g.color = .black := by
  cases ctx with
  | nil => exact absurd rfl (h.rootBlack.ne_nil hf)
  | cons g ctx =>
      refine ⟨g, ctx, rfl, ?_⟩
      obtain ⟨-, -, hg, -⟩ := h.admits
      cases hgc : g.color with
      | black => rfl
      | red =>
          have hblack := (hg hgc).1
          rw [hf] at hblack
          cases hblack

/-- The uncle is red: the damage moves up by two nodes. -/
theorem recolor (h : RedPlace (f :: g :: ctx) t n) (hf : f.color = .red) (hg : g.color = .black)
    (huncle : g.sibling.color = .red) :
    RedPlace ctx (RbTree.join g.side .red (RbTree.join f.side .black t f.id f.value f.sibling)
      g.id g.value (g.sibling.paint .black)) (n + 1) := by
  obtain ⟨-, hnf, -, hng, hadmits⟩ := h.admits
  obtain ⟨hhf, hhg, hfits⟩ := h.fits
  simp only [hf, hg, Color.weight, Nat.add_zero] at hhg hfits
  rw [hg] at hadmits
  exact {
    red := RbTree.color_join ..
    noRedRed := NoRedRed.join_red (NoRedRed.join_black h.noRedRed hnf) hng.paint_black
      (RbTree.color_join ..) (paint_color (RbTree.ne_nil_of_color_red huncle))
    height := HasHeight.join (c := .red) (HasHeight.join (c := .black) h.height hhf)
      (hhg.paint_black huncle)
    fits := hfits
    admits := hadmits
    rootBlack := h.rootBlack.tail.tail }

/-- The subtree is an inner grandchild: a rotation around its parent makes it an outer one. -/
theorem inner (h : RedPlace (f :: g :: ctx) (RbTree.join g.side .red y i a z) n)
    (hf : f.color = .red) (hg : g.color = .black) :
    RedPlace (⟨g.side, .red, i, a, z⟩ :: g :: ctx)
      (RbTree.join g.side .red f.sibling f.id f.value y) n := by
  obtain ⟨hfs, hnf, -, hng, hadmits⟩ := h.admits
  obtain ⟨hhf, hfits⟩ := h.fits
  obtain ⟨hblack, hny, hnz⟩ := (RbTree.noRedRed_join ..).mp h.noRedRed
  obtain ⟨m, hhy, hhz, hm⟩ := (RbTree.hasHeight_join ..).mp h.height
  obtain rfl : n = m := hm
  rw [hf] at hfits
  refine {
    red := RbTree.color_join ..
    noRedRed := NoRedRed.join_red hnf hny (hfs hf).2 (hblack rfl).1
    height := HasHeight.join (c := .red) hhf hhy
    fits := ⟨hhz, hfits⟩
    admits := ⟨fun _ => ⟨rfl, (hblack rfl).2⟩, hnz, ?_, hng, hadmits⟩
    rootBlack := ?_ }
  · intro hred
    rw [hg] at hred
    cases hred
  · have hroot := h.rootBlack.tail
    simpa [RootBlack, List.getLast?_cons_cons] using hroot

/-- The uncle is black and the subtree an outer grandchild: a rotation around its
grandparent removes the damage. -/
theorem outer (h : RedPlace (f :: g :: ctx) t n) (hf : f.color = .red) (hg : g.color = .black)
    (huncle : g.sibling.color = .black) :
    RedPlace (⟨g.side, .black, f.id, f.value,
      RbTree.join g.side.other .red g.sibling g.id g.value f.sibling⟩ :: ctx) t n := by
  obtain ⟨hfs, hnf, -, hng, hadmits⟩ := h.admits
  obtain ⟨hhf, hhg, hfits⟩ := h.fits
  simp only [hf, hg, Color.weight, Nat.add_zero] at hhg hfits
  rw [hg] at hadmits
  exact {
    red := h.red
    noRedRed := h.noRedRed
    height := h.height
    fits := ⟨HasHeight.join (c := .red) hhg hhf, hfits⟩
    admits := ⟨(fun hred => by cases hred), NoRedRed.join_red hng hnf huncle (hfs hf).2, hadmits⟩
    rootBlack := RootBlack.cons h.rootBlack.tail.tail rfl }

end RedPlace

end Red

section Light

/-- A subtree in its place whose paths have one black node too few; its root may be red
with red children. -/
structure LightPlace (ctx : Context ι α) (t : RbTree ι α) (n : Nat) : Prop where
  noRedRed : (t.paint .black).NoRedRed
  height : t.HasHeight n
  fits : Fits ctx (n + 1)
  admits : Admits ctx .black
  rootBlack : RootBlack ctx

namespace LightPlace

/-- At the root nothing is missing. -/
theorem at_root (h : LightPlace [] t n) : (t.paint .black).IsRedBlack where
  noRedRed := h.noRedRed
  balanced := h.height.paint_exists .black
  root_black := by cases t <;> rfl

/-- A red subtree is painted black. -/
theorem red (h : LightPlace ctx t n) (ht : t.color = .red) :
    (plug ctx (t.paint .black)).IsRedBlack where
  noRedRed := by
    rw [noRedRed_plug, paint_color (RbTree.ne_nil_of_color_red ht)]
    exact ⟨h.noRedRed, h.admits⟩
  balanced := (balanced_plug ..).mpr ⟨n + 1, h.height.paint_black ht, h.fits⟩
  root_black := by
    cases ctx with
    | nil => exact paint_color (RbTree.ne_nil_of_color_red ht)
    | cons f ctx => exact (color_plug (by simp) _).mpr h.rootBlack

/-- There is a sibling. -/
theorem sibling_ne_nil (h : LightPlace (f :: ctx) t n) : f.sibling ≠ .nil :=
  h.fits.1.ne_nil

/-- The sibling is red: a rotation around the parent gives a black one. -/
theorem redSibling (h : LightPlace (f :: ctx) t n)
    (hs : f.sibling = RbTree.join f.side .red y j b z) :
    f.color = .black ∧
      LightPlace (⟨f.side, .red, f.id, f.value, y⟩ :: ⟨f.side, .black, j, b, z⟩ :: ctx) t n ∧
      y.color = .black := by
  obtain ⟨hf, hns, hadmits⟩ := h.admits
  obtain ⟨hhs, hfits⟩ := h.fits
  have hfc : f.color = .black := by
    cases hfc : f.color with
    | black => rfl
    | red =>
        have hblack := (hf hfc).2
        rw [hs, RbTree.color_join] at hblack
        cases hblack
  rw [hs] at hns hhs
  obtain ⟨hblack, hny, hnz⟩ := (RbTree.noRedRed_join ..).mp hns
  obtain ⟨m, hhy, hhz, hm⟩ := (RbTree.hasHeight_join ..).mp hhs
  obtain rfl : n + 1 = m := hm
  rw [hfc] at hadmits hfits
  refine ⟨hfc, ?_, (hblack rfl).1⟩
  exact {
    noRedRed := h.noRedRed
    height := h.height
    fits := ⟨hhy, hhz, hfits⟩
    admits := ⟨fun _ => ⟨rfl, (hblack rfl).1⟩, hny, (fun hred => by cases hred), hnz, hadmits⟩
    rootBlack := by
      have hroot := RootBlack.cons (f := ⟨f.side, .black, j, b, z⟩) h.rootBlack.tail rfl
      simpa [RootBlack, List.getLast?_cons_cons] using hroot }

section BlackSibling

variable (h : LightPlace (f :: ctx) t n) (hs : f.sibling = RbTree.join f.side .black y j b z)
include h hs

/-- The nephews have the height of the subtree. -/
theorem nephews : y.NoRedRed ∧ z.NoRedRed ∧ y.HasHeight n ∧ z.HasHeight n := by
  obtain ⟨-, hns, -⟩ := h.admits
  obtain ⟨hhs, -⟩ := h.fits
  rw [hs] at hns hhs
  obtain ⟨-, hny, hnz⟩ := (RbTree.noRedRed_join ..).mp hns
  obtain ⟨m, hhy, hhz, hm⟩ := (RbTree.hasHeight_join ..).mp hhs
  obtain rfl : n = m := by simpa [Color.weight] using hm
  exact ⟨hny, hnz, hhy, hhz⟩

/-- Both nephews are black: the parent takes a black node from its children. -/
theorem blackNephews (ht : t.color = .black) (hy : y.color = .black) (hz : z.color = .black) :
    LightPlace ctx (RbTree.join f.side f.color t f.id f.value (RbTree.join f.side .red y j b z))
      (n + f.color.weight) := by
  obtain ⟨hny, hnz, hhy, hhz⟩ := h.nephews hs
  obtain ⟨-, -, hadmits⟩ := h.admits
  obtain ⟨-, hfits⟩ := h.fits
  have hnt := h.noRedRed
  rw [← ht, RbTree.paint_color_self] at hnt
  refine {
    noRedRed := ?_
    height := HasHeight.join h.height (HasHeight.join (c := .red) hhy hhz)
    fits := ?_
    admits := hadmits.black
    rootBlack := h.rootBlack.tail }
  · rw [RbTree.paint_join]
    exact NoRedRed.join_black hnt (NoRedRed.join_red hny hnz hy hz)
  · rw [Nat.add_right_comm]
    exact hfits

end BlackSibling

/-- Only the inner nephew is red: a rotation around the sibling gives a red outer one. -/
theorem innerNephew (h : LightPlace (f :: ctx) t n)
    (hs : f.sibling = RbTree.join f.side .black (RbTree.join f.side .red w k d x) j b z)
    (hz : z.color = .black) :
    LightPlace ({ f with
      sibling := RbTree.join f.side .black w k d (RbTree.join f.side .red x j b z) } :: ctx) t n := by
  obtain ⟨hny, hnz, hhy, hhz⟩ := h.nephews hs
  obtain ⟨hblack, hnw, hnx⟩ := (RbTree.noRedRed_join ..).mp hny
  obtain ⟨m, hhw, hhx, hm⟩ := (RbTree.hasHeight_join ..).mp hhy
  obtain rfl : n = m := hm
  exact {
    noRedRed := h.noRedRed
    height := h.height
    fits := ⟨HasHeight.join (c := .black) hhw (HasHeight.join (c := .red) hhx hhz), h.fits.2⟩
    admits := ⟨fun _ => ⟨rfl, RbTree.color_join ..⟩,
      NoRedRed.join_black hnw (NoRedRed.join_red hnx hnz (hblack rfl).2 hz), h.admits.2.2⟩
    rootBlack := by
      have hroot := h.rootBlack
      cases ctx with
      | nil => simpa [RootBlack] using hroot
      | cons g ctx => simpa [RootBlack, List.getLast?_cons_cons] using hroot }

/-- The outer nephew is red: a rotation around the parent ends the repair. -/
theorem outerNephew (h : LightPlace (f :: ctx) t n)
    (hs : f.sibling = RbTree.join f.side .black y j b z) (ht : t.color = .black)
    (hz : z.color = .red) :
    (plug ctx (RbTree.join f.side f.color (RbTree.join f.side .black t f.id f.value y) j b
      (z.paint .black))).IsRedBlack := by
  obtain ⟨hny, hnz, hhy, hhz⟩ := h.nephews hs
  obtain ⟨-, -, hadmits⟩ := h.admits
  obtain ⟨-, hfits⟩ := h.fits
  have hnt := h.noRedRed
  rw [← ht, RbTree.paint_color_self] at hnt
  refine ⟨?_, (balanced_plug ..).mpr ⟨_, HasHeight.join (HasHeight.join (c := .black) h.height hhy)
    (hhz.paint_black hz), hfits⟩, ?_⟩
  · simp only [noRedRed_plug, RbTree.noRedRed_join, RbTree.color_join]
    refine ⟨⟨fun _ => ⟨trivial, paint_color (RbTree.ne_nil_of_color_red hz)⟩,
      ⟨(fun hred => by cases hred), hnt, hny⟩, hnz.paint_black⟩, hadmits⟩
  · cases ctx with
    | nil =>
        rw [plug_nil, RbTree.color_join]
        exact h.rootBlack f rfl
    | cons g ctx => exact (color_plug (by simp) _).mpr h.rootBlack.tail

end LightPlace

/-- A node with one child at most gives way to it: the place keeps its black count if the
node was red, and is light if it was black. -/
theorem unlink_only (h : (plug ctx (.join s c x i a .nil)).IsRedBlack) :
    (c = .red → (plug ctx x).IsRedBlack) ∧ (c = .black → ∃ n, LightPlace ctx x n) := by
  obtain ⟨n, hn, hfits⟩ := (balanced_plug ..).mp h.balanced
  obtain ⟨hred, hadmits⟩ := (noRedRed_plug ..).mp h.noRedRed
  obtain ⟨m, hx, -, rfl⟩ := (RbTree.hasHeight_join ..).mp hn
  obtain ⟨hblack, hnx, -⟩ := (RbTree.noRedRed_join ..).mp hred
  rw [RbTree.color_join] at hadmits
  have hroot : RootBlack ctx := by
    cases ctx with
    | nil => simp [RootBlack]
    | cons f ctx => exact (color_plug (by simp) _).mp h.root_black
  constructor
  · rintro rfl
    obtain ⟨hxb, -⟩ := hblack rfl
    refine ⟨(noRedRed_plug ..).mpr ⟨hnx, hxb ▸ hadmits.black⟩,
      (balanced_plug ..).mpr ⟨m, hx, hfits⟩, ?_⟩
    cases ctx with
    | nil => exact hxb
    | cons f ctx => exact (color_plug (by simp) _).mpr hroot
  · rintro rfl
    exact ⟨m, hnx.paint_black, hx, hfits, hadmits, hroot⟩

/-- The name of a node does not matter. -/
theorem relabel {l r : RbTree ι α} (h : (plug ctx (.node c l i a r)).IsRedBlack) (j : ι) (b : α) :
    (plug ctx (.node c l j b r)).IsRedBlack where
  noRedRed := (noRedRed_plug ..).mpr ((noRedRed_plug ctx (.node c l i a r)).mp h.noRedRed)
  balanced := (balanced_plug ..).mpr ((balanced_plug ctx (.node c l i a r)).mp h.balanced)
  root_black := by
    cases ctx with
    | nil => exact h.root_black
    | cons f ctx => exact (color_plug (by simp) _).mpr ((color_plug (by simp) _).mp h.root_black)

end Light

end RedBlack
end Udk
