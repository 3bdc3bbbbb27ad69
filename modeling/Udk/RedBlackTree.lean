import Mathlib.Data.List.Basic
import Mathlib.Tactic

/-!
# Red-black trees and their contexts

Binary trees whose nodes have an identity, and the red-black properties of them.
A place in a tree is a list of frames, from the place up to the root, and `plug`
puts a subtree there.  Every property of the plugged tree splits into one of the
subtree and one of the frames, so that a local change is judged locally.

Left and right are values of `Side`, and `join` builds a node from the child on a
given side and the other one, so that one argument covers both mirror images.
-/

namespace Udk
namespace RedBlack

open List

universe u v

variable {ι : Type u} {α : Type v}

inductive Color where
  | red
  | black
deriving DecidableEq, Repr

/-- What a node of the color adds to the black count of a path. -/
def Color.weight : Color → Nat
  | .red => 0
  | .black => 1

inductive Side where
  | left
  | right
deriving DecidableEq, Repr

def Side.other : Side → Side
  | .left => .right
  | .right => .left

@[simp] theorem Side.other_other (s : Side) : s.other.other = s := by
  cases s <;> rfl

/-- A binary tree with an identity and a value in each node. -/
inductive RbTree (ι : Type u) (α : Type v) where
  | nil
  | node (color : Color) (left : RbTree ι α) (id : ι) (value : α) (right : RbTree ι α)

namespace RbTree

variable {t : RbTree ι α} {n : Nat}

/-- The node whose child on side `s` is `x` and whose other child is `y`. -/
def join (s : Side) (c : Color) (x : RbTree ι α) (i : ι) (a : α) (y : RbTree ι α) : RbTree ι α :=
  match s with
  | .left => node c x i a y
  | .right => node c y i a x

/-- A leaf is black. -/
def color : RbTree ι α → Color
  | nil => .black
  | node c _ _ _ _ => c

/-- The identity of the root. -/
def root : RbTree ι α → Option ι
  | nil => none
  | node _ _ i _ _ => some i

@[simp] theorem root_node (c : Color) (l : RbTree ι α) (i : ι) (a : α) (r : RbTree ι α) :
    (node c l i a r).root = some i :=
  rfl

/-- The tree with its root in another color. -/
def paint (c : Color) : RbTree ι α → RbTree ι α
  | nil => nil
  | node _ l i a r => node c l i a r

/-- The nodes in order. -/
def toList : RbTree ι α → List (ι × α)
  | nil => []
  | node _ l i a r => l.toList ++ (i, a) :: r.toList

def ids (t : RbTree ι α) : List ι :=
  t.toList.map Prod.fst

/-- The nodes in the order towards side `s`. -/
def listTo (s : Side) (t : RbTree ι α) : List (ι × α) :=
  match s with
  | .left => t.toList.reverse
  | .right => t.toList

/-- A red node has two black children. -/
def NoRedRed : RbTree ι α → Prop
  | nil => True
  | node c l _ _ r =>
      (c = .red → l.color = .black ∧ r.color = .black) ∧ l.NoRedRed ∧ r.NoRedRed

/-- Every path from the root to a leaf has `n` black nodes. -/
def HasHeight : RbTree ι α → Nat → Prop
  | nil, n => n = 0
  | node c l _ _ r, n => ∃ m, l.HasHeight m ∧ r.HasHeight m ∧ n = m + c.weight

/-- The red-black properties; that a node is red or black and a leaf black holds of
every tree here. -/
structure IsRedBlack (t : RbTree ι α) : Prop where
  noRedRed : t.NoRedRed
  balanced : ∃ n, t.HasHeight n
  root_black : t.color = .black

section Join

variable (s : Side) (c : Color) (x : RbTree ι α) (i : ι) (a : α) (y : RbTree ι α)

@[simp] theorem color_join : (join s c x i a y).color = c := by
  cases s <;> rfl

@[simp] theorem root_join : (join s c x i a y).root = some i := by
  cases s <;> rfl

theorem join_ne_nil : join s c x i a y ≠ nil := by
  cases s <;> exact fun h => by cases h

@[simp] theorem paint_join (c' : Color) : (join s c x i a y).paint c' = join s c' x i a y := by
  cases s <;> rfl

theorem join_other : join s.other c x i a y = join s c y i a x := by
  cases s <;> rfl

theorem listTo_join :
    (join s c x i a y).listTo s = y.listTo s ++ (i, a) :: x.listTo s := by
  cases s <;> simp [join, listTo, toList]

theorem listTo_other_join :
    (join s c x i a y).listTo s.other = x.listTo s.other ++ (i, a) :: y.listTo s.other := by
  cases s <;> simp [join, listTo, toList, Side.other]

/-- A rotation keeps the order. -/
theorem toList_rotate (c' : Color) (z : RbTree ι α) (j : ι) (b : α) :
    (join s c' (join s c x i a y) j b z).toList = (join s c x i a (join s c' y j b z)).toList := by
  cases s <;> simp [join, toList]

theorem noRedRed_join :
    (join s c x i a y).NoRedRed ↔
      (c = .red → x.color = .black ∧ y.color = .black) ∧ x.NoRedRed ∧ y.NoRedRed := by
  cases s with
  | left => rfl
  | right =>
      simp only [join, NoRedRed]
      tauto

theorem hasHeight_join (n : Nat) :
    (join s c x i a y).HasHeight n ↔ ∃ m, x.HasHeight m ∧ y.HasHeight m ∧ n = m + c.weight := by
  cases s with
  | left => rfl
  | right =>
      simp only [join, HasHeight]
      constructor
      · rintro ⟨m, hy, hx, hn⟩
        exact ⟨m, hx, hy, hn⟩
      · rintro ⟨m, hx, hy, hn⟩
        exact ⟨m, hy, hx, hn⟩

/-- The nodes of a join, up to order. -/
theorem ids_join_perm : (join s c x i a y).ids.Perm (i :: (x.ids ++ y.ids)) := by
  cases s with
  | left =>
      simp only [join, ids, toList, map_append, map_cons]
      exact perm_middle
  | right =>
      simp only [join, ids, toList, map_append, map_cons]
      exact perm_middle.trans (perm_append_comm.cons i)

theorem mem_ids_join (j : ι) :
    j ∈ (join s c x i a y).ids ↔ j = i ∨ j ∈ x.ids ∨ j ∈ y.ids := by
  rw [(ids_join_perm s c x i a y).mem_iff, mem_cons, mem_append]

theorem nodup_ids_join :
    (join s c x i a y).ids.Nodup ↔
      (i ∉ x.ids ∧ i ∉ y.ids) ∧ x.ids.Nodup ∧ y.ids.Nodup ∧ x.ids.Disjoint y.ids := by
  rw [(ids_join_perm s c x i a y).nodup_iff, nodup_cons, mem_append, not_or,
    nodup_append']

end Join

/-- A tree that is not a leaf, seen from a side. -/
theorem eq_join_of_ne_nil (s : Side) (h : t ≠ nil) :
    ∃ c x i a y, t = join s c x i a y := by
  cases t with
  | nil => exact absurd rfl h
  | node c l i a r =>
      cases s with
      | left => exact ⟨c, l, i, a, r, rfl⟩
      | right => exact ⟨c, r, i, a, l, rfl⟩

@[simp] theorem ids_nil : (nil : RbTree ι α).ids = [] :=
  rfl

@[simp] theorem listTo_nil (s : Side) : (nil : RbTree ι α).listTo s = [] := by
  cases s <;> rfl

theorem length_listTo (s : Side) (t : RbTree ι α) : (t.listTo s).length = t.toList.length := by
  cases s
  · exact length_reverse
  · rfl

theorem mem_listTo {s : Side} {t : RbTree ι α} {p : ι × α} : p ∈ t.listTo s ↔ p ∈ t.toList := by
  cases s
  · exact mem_reverse
  · rfl

theorem nodup_listTo (s : Side) (h : t.ids.Nodup) :
    ((t.listTo s).map Prod.fst).Nodup := by
  cases s
  · rw [listTo, map_reverse]
    exact nodup_reverse.mpr h
  · exact h

theorem listTo_eq_nil {s : Side} (h : t.listTo s = []) : t = nil := by
  cases t with
  | nil => rfl
  | node c l i a r => cases s <;> simp [listTo, toList] at h

theorem root_eq_none : t.root = none ↔ t = nil := by
  cases t <;> simp [root]

theorem mem_ids_of_root {i : ι} (h : t.root = some i) : i ∈ t.ids := by
  cases t with
  | nil => cases h
  | node c l j a r =>
      cases h
      simp [ids, toList]

@[simp] theorem toList_paint (c : Color) (t : RbTree ι α) : (t.paint c).toList = t.toList := by
  cases t <;> rfl

@[simp] theorem root_paint (c : Color) (t : RbTree ι α) : (t.paint c).root = t.root := by
  cases t <;> rfl

@[simp] theorem ids_paint (c : Color) (t : RbTree ι α) : (t.paint c).ids = t.ids := by
  cases t <;> rfl

theorem paint_color_self (t : RbTree ι α) : t.paint t.color = t := by
  cases t <;> rfl

/-- A red tree is no leaf. -/
theorem ne_nil_of_color_red (h : t.color = .red) : t ≠ nil := by
  rintro rfl
  cases h

/-- A tree with a black node on each path is no leaf. -/
theorem HasHeight.ne_nil (h : t.HasHeight (n + 1)) : t ≠ nil := by
  rintro rfl
  cases h

/-- A red root painted black keeps the paths equal. -/
theorem HasHeight.paint_black (h : t.HasHeight n)
    (hred : t.color = .red) : (t.paint .black).HasHeight (n + 1) := by
  cases t with
  | nil => cases hred
  | node c l i a r =>
      cases hred
      obtain ⟨m, hl, hr, rfl⟩ := h
      exact ⟨_, hl, hr, rfl⟩

theorem NoRedRed.paint_black (h : t.NoRedRed) : (t.paint .black).NoRedRed := by
  cases t with
  | nil => exact h
  | node c l i a r => exact ⟨(fun hred => by cases hred), h.2⟩

theorem HasHeight.paint_exists (h : t.HasHeight n) (c : Color) :
    ∃ m, (t.paint c).HasHeight m := by
  cases t with
  | nil => exact ⟨n, h⟩
  | node c' l i a r =>
      obtain ⟨m, hl, hr, -⟩ := h
      exact ⟨_, m, hl, hr, rfl⟩

/-- Any tree becomes a red-black one by painting its root. -/
theorem IsRedBlack.of_paint (hred : t.NoRedRed) (hn : t.HasHeight n) :
    (t.paint .black).IsRedBlack where
  noRedRed := hred.paint_black
  balanced := hn.paint_exists .black
  root_black := by cases t <;> rfl

end RbTree

/-- One step from a place to its parent: the node above with its child on the other side. -/
structure Frame (ι : Type u) (α : Type v) where
  side : Side
  color : Color
  id : ι
  value : α
  sibling : RbTree ι α

/-- The node of a frame with `t` in the place. -/
def Frame.fill (f : Frame ι α) (t : RbTree ι α) : RbTree ι α :=
  RbTree.join f.side f.color t f.id f.value f.sibling

/-- The frames from a place up to the root. -/
abbrev Context (ι : Type u) (α : Type v) := List (Frame ι α)

namespace Context

variable {ctx : Context ι α} {t : RbTree ι α}

/-- The tree with `t` in the place. -/
def plug (ctx : Context ι α) (t : RbTree ι α) : RbTree ι α :=
  ctx.foldl (fun t f => f.fill t) t

@[simp] theorem plug_nil (t : RbTree ι α) : plug [] t = t :=
  rfl

@[simp] theorem plug_cons (f : Frame ι α) (ctx : Context ι α) (t : RbTree ι α) :
    plug (f :: ctx) t = plug ctx (f.fill t) :=
  rfl

/-- The other child of a node, seen as a place. -/
theorem plug_sibling (ctx : Context ι α) (s : Side) (c : Color) (x y : RbTree ι α) (i : ι)
    (a : α) :
    plug ctx (RbTree.join s c x i a y) = plug (⟨s.other, c, i, a, x⟩ :: ctx) y := by
  rw [plug_cons, Frame.fill, RbTree.join_other]

theorem plug_append (c1 c2 : Context ι α) (t : RbTree ι α) :
    plug (c1 ++ c2) t = plug c2 (plug c1 t) :=
  foldl_append

/-- The nodes of the frames. -/
def ids : Context ι α → List ι
  | [] => []
  | f :: ctx => f.id :: (f.sibling.ids ++ ids ctx)

/-- The nodes before the place. -/
def before : Context ι α → List (ι × α)
  | [] => []
  | f :: ctx =>
      match f.side with
      | .left => before ctx
      | .right => before ctx ++ (f.sibling.toList ++ [(f.id, f.value)])

/-- The nodes behind the place. -/
def after : Context ι α → List (ι × α)
  | [] => []
  | f :: ctx =>
      match f.side with
      | .left => ((f.id, f.value) :: f.sibling.toList) ++ after ctx
      | .right => after ctx

/-- The nodes beyond the place, in the order towards side `s`. -/
def beyond (s : Side) : Context ι α → List (ι × α)
  | [] => []
  | f :: ctx =>
      if f.side = s then beyond s ctx
      else (f.id, f.value) :: f.sibling.listTo s ++ beyond s ctx

theorem listTo_plug (s : Side) (ctx : Context ι α) (t : RbTree ι α) :
    ∃ passed, (plug ctx t).listTo s = passed ++ t.listTo s ++ beyond s ctx := by
  induction ctx generalizing t with
  | nil => exact ⟨[], by simp [beyond]⟩
  | cons f ctx ih =>
      obtain ⟨passed, hpassed⟩ := ih (f.fill t)
      rw [plug_cons, hpassed, Frame.fill, beyond]
      by_cases hs : f.side = s
      · subst hs
        refine ⟨passed ++ (f.sibling.listTo f.side ++ [(f.id, f.value)]), ?_⟩
        rw [RbTree.listTo_join, if_pos rfl]
        simp
      · have hother : s = f.side.other := by
          cases s <;> cases hf : f.side <;> simp_all [Side.other]
        subst hother
        refine ⟨passed, ?_⟩
        rw [RbTree.listTo_other_join, if_neg hs]
        simp

theorem toList_plug (ctx : Context ι α) (t : RbTree ι α) :
    (plug ctx t).toList = before ctx ++ t.toList ++ after ctx := by
  induction ctx generalizing t with
  | nil => simp [before, after]
  | cons f ctx ih =>
      rw [plug_cons, ih]
      cases hs : f.side <;>
        simp [Frame.fill, RbTree.join, RbTree.toList, before, after, hs]

/-- Nothing comes before a place on the left edge. -/
theorem before_eq_nil (h : ∀ f ∈ ctx, f.side = .left) : before ctx = [] := by
  induction ctx with
  | nil => rfl
  | cons f ctx ih =>
      rw [before, h f mem_cons_self]
      exact ih fun g hg => h g (mem_cons_of_mem _ hg)

theorem ids_plug_perm (ctx : Context ι α) (t : RbTree ι α) :
    (plug ctx t).ids.Perm (t.ids ++ ids ctx) := by
  induction ctx generalizing t with
  | nil => simp [ids]
  | cons f ctx ih =>
      rw [plug_cons]
      refine (ih _).trans ?_
      have hfill := RbTree.ids_join_perm f.side f.color t f.id f.value f.sibling
      refine (hfill.append_right _).trans ?_
      simp only [ids, cons_append, append_assoc]
      exact perm_middle.symm

theorem mem_ids_plug {i : ι} :
    i ∈ (plug ctx t).ids ↔ i ∈ t.ids ∨ i ∈ ids ctx := by
  rw [(ids_plug_perm ctx t).mem_iff, mem_append]

theorem length_le_ids (ctx : Context ι α) : ctx.length ≤ (ids ctx).length := by
  induction ctx with
  | nil => simp
  | cons f ctx ih =>
      simp only [ids, length_cons, length_append]
      omega

theorem length_toList_plug (ctx : Context ι α) (t : RbTree ι α) :
    (plug ctx t).toList.length = t.toList.length + (ids ctx).length := by
  have hlen := (ids_plug_perm ctx t).length_eq
  rwa [RbTree.ids, RbTree.ids, length_append, length_map, length_map] at hlen

theorem nodup_plug :
    (plug ctx t).ids.Nodup ↔ t.ids.Nodup ∧ (ids ctx).Nodup ∧ t.ids.Disjoint (ids ctx) := by
  rw [(ids_plug_perm ctx t).nodup_iff, nodup_append']

/-- The root of a tree lies in its outermost frame. -/
theorem root_plug (ctx : Context ι α) (t : RbTree ι α) :
    (plug ctx t).root = (ctx.getLast?.map Frame.id).or t.root := by
  induction ctx generalizing t with
  | nil => rfl
  | cons f ctx ih =>
      rw [plug_cons, ih]
      cases ctx with
      | nil => simp [Frame.fill]
      | cons g ctx =>
          rw [getLast?_cons_cons]
          cases h : (g :: ctx).getLast? with
          | none => simp at h
          | some last => rfl

/-- The color of the parent and the colors further up are right for a place of color `c`. -/
def Admits : Context ι α → Color → Prop
  | [], _ => True
  | f :: ctx, c =>
      (f.color = .red → c = .black ∧ f.sibling.color = .black) ∧ f.sibling.NoRedRed ∧
        Admits ctx f.color

theorem noRedRed_plug (ctx : Context ι α) (t : RbTree ι α) :
    (plug ctx t).NoRedRed ↔ t.NoRedRed ∧ Admits ctx t.color := by
  induction ctx generalizing t with
  | nil => simp [Admits]
  | cons f ctx ih =>
      rw [plug_cons, ih, Frame.fill, RbTree.noRedRed_join, RbTree.color_join, Admits]
      tauto

/-- A black place is admitted wherever any is. -/
theorem Admits.black {c : Color} (h : Admits ctx c) : Admits ctx .black := by
  cases ctx with
  | nil => trivial
  | cons f ctx => exact ⟨fun hred => ⟨rfl, (h.1 hred).2⟩, h.2⟩

/-- A tree of height `n` in the place makes all paths equal. -/
def Fits : Context ι α → Nat → Prop
  | [], _ => True
  | f :: ctx, n => f.sibling.HasHeight n ∧ Fits ctx (n + f.color.weight)

theorem balanced_plug (ctx : Context ι α) (t : RbTree ι α) :
    (∃ N, (plug ctx t).HasHeight N) ↔ ∃ n, t.HasHeight n ∧ Fits ctx n := by
  induction ctx generalizing t with
  | nil => simp [Fits]
  | cons f ctx ih =>
      rw [plug_cons, ih]
      constructor
      · rintro ⟨n, hn, hfits⟩
        rw [Frame.fill, RbTree.hasHeight_join] at hn
        obtain ⟨m, ht, hs, rfl⟩ := hn
        exact ⟨m, ht, hs, hfits⟩
      · rintro ⟨m, ht, hs, hfits⟩
        refine ⟨_, ?_, hfits⟩
        rw [Frame.fill, RbTree.hasHeight_join]
        exact ⟨m, ht, hs, rfl⟩

/-- The outermost node is black. -/
def RootBlack (ctx : Context ι α) : Prop :=
  ∀ f ∈ ctx.getLast?, f.color = .black

theorem color_plug (hne : ctx ≠ []) (t : RbTree ι α) :
    (plug ctx t).color = .black ↔ RootBlack ctx := by
  induction ctx generalizing t with
  | nil => exact absurd rfl hne
  | cons f ctx ih =>
      rw [plug_cons]
      cases ctx with
      | nil => simp [Frame.fill, RootBlack]
      | cons g ctx =>
          rw [ih (by simp)]
          simp [RootBlack, getLast?_cons_cons]

theorem RootBlack.tail {f : Frame ι α} {ctx : Context ι α} (h : RootBlack (f :: ctx)) :
    RootBlack ctx := by
  cases ctx with
  | nil => simp [RootBlack]
  | cons g ctx => simpa [RootBlack, getLast?_cons_cons] using h

/-- A red parent is not the root. -/
theorem RootBlack.ne_nil {f : Frame ι α} (h : RootBlack (f :: ctx))
    (hred : f.color = .red) : ctx ≠ [] := by
  rintro rfl
  have hblack : f.color = .black := h f rfl
  rw [hred] at hblack
  cases hblack

/-- The frames of the path to a node. -/
theorem exists_plug {i : ι} {a : α} (h : (i, a) ∈ t.toList) :
    ∃ ctx c l r, t = plug ctx (.node c l i a r) := by
  induction t with
  | nil => simp [RbTree.toList] at h
  | node c l j b r ihl ihr =>
      simp only [RbTree.toList, mem_append, mem_cons, Prod.mk.injEq] at h
      rcases h with hl | ⟨rfl, rfl⟩ | hr
      · obtain ⟨ctx, c', l', r', heq⟩ := ihl hl
        refine ⟨ctx ++ [⟨.left, c, j, b, r⟩], c', l', r', ?_⟩
        rw [plug_append, ← heq]
        rfl
      · exact ⟨[], c, l, r, rfl⟩
      · obtain ⟨ctx, c', l', r', heq⟩ := ihr hr
        refine ⟨ctx ++ [⟨.right, c, j, b, l⟩], c', l', r', ?_⟩
        rw [plug_append, ← heq]
        rfl

/-- The frames passed on the way down to the first node. -/
theorem exists_plug_first (h : t ≠ .nil) :
    ∃ ctx c i a r, t = plug ctx (.node c .nil i a r) ∧ ∀ f ∈ ctx, f.side = .left := by
  induction t with
  | nil => exact absurd rfl h
  | node c l j a r ihl _ =>
      by_cases hl : l = .nil
      · subst hl
        exact ⟨[], c, j, a, r, rfl, by simp⟩
      · obtain ⟨ctx, c', i', a', r', heq, hleft⟩ := ihl hl
        refine ⟨ctx ++ [⟨.left, c, j, a, r⟩], c', i', a', r', ?_, ?_⟩
        · rw [plug_append, ← heq]
          rfl
        · intro f hf
          rcases mem_append.mp hf with hf | hf
          · exact hleft f hf
          · rw [mem_singleton.mp hf]

end Context

section Depth

namespace RbTree

variable {t : RbTree ι α}

/-- The nodes on the longest path from the root. -/
def depth : RbTree ι α → Nat
  | nil => 0
  | node _ l _ _ r => max l.depth r.depth + 1

theorem depth_le_length (t : RbTree ι α) : t.depth ≤ t.toList.length := by
  induction t with
  | nil => exact Nat.zero_le _
  | node c l i a r ihl ihr =>
      simp only [depth, toList, length_append, length_cons]
      omega

/-- Every other node of a path is black, if no red node has a red child. -/
theorem HasHeight.depth_le {n : Nat} (h : t.HasHeight n) (hred : t.NoRedRed) :
    t.depth ≤ 2 * n + (1 - t.color.weight) := by
  induction t generalizing n with
  | nil => exact Nat.zero_le _
  | node c l i a r ihl ihr =>
      obtain ⟨m, hl, hr, rfl⟩ := h
      obtain ⟨hblack, hredl, hredr⟩ := hred
      have hdl := ihl hl hredl
      have hdr := ihr hr hredr
      cases c with
      | red =>
          rw [(hblack rfl).1] at hdl
          rw [(hblack rfl).2] at hdr
          simp only [depth, color, Color.weight] at hdl hdr ⊢
          omega
      | black =>
          simp only [depth, color, Color.weight] at hdl hdr ⊢
          omega

/-- A tree of black height `n` has a full tree of that height inside. -/
theorem HasHeight.pow_le_length {n : Nat} (h : t.HasHeight n) :
    2 ^ n ≤ t.toList.length + 1 := by
  induction t generalizing n with
  | nil =>
      obtain rfl : n = 0 := h
      exact le_refl 1
  | node c l i a r ihl ihr =>
      obtain ⟨m, hl, hr, rfl⟩ := h
      have hsl := ihl hl
      have hsr := ihr hr
      have hpow : 2 ^ (m + c.weight) ≤ 2 * 2 ^ m := by
        cases c with
        | red => exact Nat.le_mul_of_pos_left _ Nat.two_pos
        | black => exact (pow_succ' 2 m).le
      simp only [toList, length_append, length_cons]
      omega

/-- **The depth of a red-black tree is logarithmic in its size.** -/
theorem IsRedBlack.pow_depth_le (h : t.IsRedBlack) :
    2 ^ t.depth ≤ (t.toList.length + 1) ^ 2 := by
  obtain ⟨n, hn⟩ := h.balanced
  have hdepth : t.depth ≤ n * 2 := by
    have hle := hn.depth_le h.noRedRed
    rw [h.root_black, Color.weight] at hle
    omega
  calc 2 ^ t.depth ≤ 2 ^ (n * 2) := Nat.pow_le_pow_right Nat.two_pos hdepth
    _ = (2 ^ n) ^ 2 := pow_mul 2 n 2
    _ ≤ (t.toList.length + 1) ^ 2 := Nat.pow_le_pow_left hn.pow_le_length 2

end RbTree

end Depth

end RedBlack
end Udk
