import Mathlib.Data.List.Nodup
import Mathlib.Data.List.Flatten
import Mathlib.Tactic

/-!
# Linked allocation tables

A table has a slot for each place; the slot says that the place is free, or which place comes
behind it in its chain, or that it is the last one.  Here is how chains are cut, extended and
freed by changes of single slots.
-/

namespace Udk

open List

universe u

/-- What the table says about a place. -/
inductive Slot (α : Type u)
  | free
  | link (next : α)
  | last

namespace LinkedTable

variable {α : Type u} {t t' : α → Slot α} {place : α → Prop} {l front back : List α}
  {chains chains' : List (List α)} {a b : α}

/-- Each place of the list leads to the one behind it. -/
def Linked (t : α → Slot α) : List α → Prop
  | [] => True
  | [_] => True
  | a :: b :: l => t a = .link b ∧ Linked t (b :: l)

/-- A linked list with an end mark. -/
def Chain (t : α → Slot α) (l : List α) : Prop :=
  Linked t l ∧ ∀ a, l.getLast? = some a → t a = .last

/-- The chains are apart, and all other places are free. -/
structure Occupies (t : α → Slot α) (place : α → Prop) (chains : List (List α)) : Prop where
  chain : ∀ l ∈ chains, Chain t l
  nodup : chains.flatten.Nodup
  inside : ∀ a ∈ chains.flatten, place a
  free : ∀ a, place a → a ∉ chains.flatten → t a = .free

/-- As before, but one list has no end mark yet. -/
structure Growing (t : α → Slot α) (place : α → Prop) (l : List α) (chains : List (List α)) :
    Prop where
  linked : Linked t l
  chain : ∀ l ∈ chains, Chain t l
  nodup : (l ++ chains.flatten).Nodup
  inside : ∀ a ∈ l ++ chains.flatten, place a
  free : ∀ a, place a → a ∉ l ++ chains.flatten → t a = .free

section Linked

theorem linked_congr
    (hsame : ∀ a ∈ l, t' a = t a)
    (hlinked : Linked t l) :
    Linked t' l := by
  induction l with
  | nil => trivial
  | cons a l ih =>
      cases l with
      | nil => trivial
      | cons b l =>
          refine ⟨(hsame a mem_cons_self).trans hlinked.1, ih ?_ hlinked.2⟩
          exact fun c hc => hsame c (mem_cons_of_mem a hc)

/-- The last slot does not matter. -/
theorem linked_congr_concat
    (hsame : ∀ a ∈ l, t' a = t a)
    (hlinked : Linked t (l ++ [b])) :
    Linked t' (l ++ [b]) := by
  induction l with
  | nil => trivial
  | cons a l ih =>
      cases l with
      | nil => exact ⟨(hsame a mem_cons_self).trans hlinked.1, trivial⟩
      | cons c l =>
          refine ⟨(hsame a mem_cons_self).trans hlinked.1, ih ?_ hlinked.2⟩
          exact fun d hd => hsame d (mem_cons_of_mem a hd)

theorem linked_append
    (hlinked : Linked t (front ++ back)) :
    Linked t front ∧ Linked t back := by
  induction front with
  | nil => exact ⟨trivial, hlinked⟩
  | cons a front ih =>
      cases front with
      | nil =>
          refine ⟨trivial, ?_⟩
          cases back with
          | nil => trivial
          | cons b back => exact hlinked.2
      | cons c front =>
          obtain ⟨hfront, hback⟩ := ih hlinked.2
          exact ⟨⟨hlinked.1, hfront⟩, hback⟩

theorem linked_concat
    (hlinked : Linked t (l ++ [a]))
    (hlink : t a = .link b) :
    Linked t (l ++ [a] ++ [b]) := by
  induction l with
  | nil => exact ⟨hlink, trivial⟩
  | cons c l ih =>
      cases l with
      | nil => exact ⟨hlinked.1, hlink, trivial⟩
      | cons d l => exact ⟨hlinked.1, ih hlinked.2⟩

/-- What stands behind a part of a chain. -/
theorem Linked.next
    (hlinked : Linked t (front ++ a :: b :: back)) :
    t a = .link b :=
  (linked_append hlinked).2.1

theorem Chain.congr
    (hsame : ∀ a ∈ l, t' a = t a)
    (hchain : Chain t l) :
    Chain t' l :=
  ⟨linked_congr hsame hchain.1, fun a ha =>
    (hsame a (mem_of_getLast? ha)).trans (hchain.2 a ha)⟩

theorem Chain.tail
    (hchain : Chain t (a :: l)) :
    Chain t l := by
  refine ⟨(@linked_append α t [a] l hchain.1).2, fun b hb => hchain.2 b ?_⟩
  rw [getLast?_cons, hb]
  rfl

theorem Chain.drop
    (hchain : Chain t l)
    (n : Nat) :
    Chain t (l.drop n) := by
  induction n generalizing l with
  | zero => exact hchain
  | succ n ih =>
      cases l with
      | nil => exact hchain
      | cons a l => exact ih hchain.tail

/-- A place of a chain is not free. -/
theorem Chain.not_free
    (hchain : Chain t l)
    (ha : a ∈ l) :
    t a ≠ .free := by
  obtain ⟨front, back, rfl⟩ := append_of_mem ha
  cases back with
  | nil =>
      rw [hchain.2 a (by rw [getLast?_append, getLast?_singleton]; rfl)]
      exact nofun
  | cons b back =>
      rw [Linked.next hchain.1]
      exact nofun

end Linked

section Occupies

theorem Occupies.congr
    (hsame : ∀ a, place a → t' a = t a)
    (hocc : Occupies t place chains) :
    Occupies t' place chains :=
  ⟨fun l hl => (hocc.chain l hl).congr fun a ha =>
      hsame a (hocc.inside a (mem_flatten.mpr ⟨l, hl, ha⟩)), hocc.nodup, hocc.inside,
    fun a ha hnot => (hsame a ha).trans (hocc.free a ha hnot)⟩

theorem Occupies.perm
    (hperm : chains'.Perm chains)
    (hocc : Occupies t place chains) :
    Occupies t place chains' := by
  have hflat := hperm.flatten
  exact ⟨fun l hl => hocc.chain l (hperm.mem_iff.mp hl), hflat.nodup_iff.mpr hocc.nodup,
    fun a ha => hocc.inside a (hflat.mem_iff.mp ha),
    fun a ha hnot => hocc.free a ha fun hmem => hnot (hflat.mem_iff.mpr hmem)⟩

/-- An empty chain occupies nothing. -/
theorem occupies_nil_cons :
    Occupies t place ([] :: chains) ↔ Occupies t place chains := by
  constructor
  case mp =>
    intro hocc
    exact ⟨fun l hl => hocc.chain l (mem_cons_of_mem _ hl), hocc.nodup, hocc.inside, hocc.free⟩
  case mpr =>
    intro hocc
    refine ⟨fun l hl => ?_, hocc.nodup, hocc.inside, hocc.free⟩
    rcases mem_cons.mp hl with rfl | hl
    · exact ⟨trivial, nofun⟩
    · exact hocc.chain l hl

theorem Occupies.growing
    (hocc : Occupies t place (l :: chains)) :
    Growing t place l chains :=
  ⟨(hocc.chain l mem_cons_self).1, fun c hc => hocc.chain c (mem_cons_of_mem l hc),
    hocc.nodup, hocc.inside, hocc.free⟩

theorem Growing.congr
    (hsame : ∀ a, place a → t' a = t a)
    (hgrow : Growing t place l chains) :
    Growing t' place l chains :=
  ⟨linked_congr (fun a ha => hsame a (hgrow.inside a (mem_append_left _ ha))) hgrow.linked,
    fun c hc => (hgrow.chain c hc).congr fun a ha => hsame a
      (hgrow.inside a (mem_append_right _ (mem_flatten.mpr ⟨c, hc, ha⟩))),
    hgrow.nodup, hgrow.inside, fun a ha hnot => (hsame a ha).trans (hgrow.free a ha hnot)⟩

/-- An empty list needs no end mark. -/
theorem Growing.occupies
    (hgrow : Growing t place [] chains) :
    Occupies t place ([] :: chains) :=
  occupies_nil_cons.mpr ⟨hgrow.chain, hgrow.nodup, hgrow.inside, hgrow.free⟩

/-- A free place becomes the first one of an empty list. -/
theorem Growing.start
    (hgrow : Growing t place [] chains)
    (hb : place b)
    (hfree : b ∉ chains.flatten) :
    Growing t place [b] chains := by
  refine ⟨trivial, hgrow.chain, nodup_cons.mpr ⟨hfree, hgrow.nodup⟩, fun a ha => ?_,
    fun a ha hnot => hgrow.free a ha fun hmem => hnot (mem_cons_of_mem b hmem)⟩
  rcases mem_cons.mp ha with rfl | ha
  · exact hb
  · exact hgrow.inside a ha

variable [DecidableEq α]

section

variable (hgrow : Growing t place (l ++ [a]) chains)
include hgrow

/-- The slot of the last place has no meaning. -/
theorem Growing.setLast
    (slot : Slot α) :
    Growing (Function.update t a slot) place (l ++ [a]) chains := by
  have hnodup := hgrow.nodup
  have ha : a ∈ l ++ [a] := mem_append_right l (mem_singleton_self a)
  refine ⟨linked_congr_concat (fun b hb => Function.update_of_ne ?_ ..) hgrow.linked,
    fun c hc => (hgrow.chain c hc).congr fun b hb => Function.update_of_ne ?_ .., hnodup,
    hgrow.inside, fun b hb hnot => ?_⟩
  case refine_1 =>
    rintro rfl
    exact disjoint_of_nodup_append (List.Nodup.of_append_left hnodup) hb
      (mem_singleton_self b)
  case refine_2 =>
    rintro rfl
    exact disjoint_of_nodup_append hnodup ha (mem_flatten.mpr ⟨c, hc, hb⟩)
  case refine_3 =>
    rw [Function.update_of_ne]
    · exact hgrow.free b hb hnot
    · rintro rfl
      exact hnot (mem_append_left _ ha)

/-- The list gets its end mark. -/
theorem Growing.close :
    Occupies (Function.update t a .last) place ((l ++ [a]) :: chains) := by
  have hset := hgrow.setLast .last
  refine ⟨fun c hc => ?_, hset.nodup, hset.inside, hset.free⟩
  rcases mem_cons.mp hc with hc | hold
  · rw [hc]
    refine ⟨hset.linked, fun b hb => ?_⟩
    rw [getLast?_append, getLast?_singleton] at hb
    cases hb
    exact Function.update_self ..
  · exact hset.chain c hold

/-- A free place is put behind the last one. -/
theorem Growing.extend
    (hb : place b)
    (hfree : b ∉ l ++ [a] ++ chains.flatten) :
    Growing (Function.update t a (.link b)) place (l ++ [a] ++ [b]) chains := by
  have hset := hgrow.setLast (.link b)
  have hmem : ∀ c, c ∈ l ++ [a] ++ [b] ++ chains.flatten ↔
      c = b ∨ c ∈ l ++ [a] ++ chains.flatten := by
    intro c
    simp only [mem_append, mem_singleton]
    tauto
  refine ⟨linked_concat hset.linked (Function.update_self ..), hset.chain, ?_, fun c hc => ?_,
    fun c hc hnot => hset.free c hc fun h => hnot ((hmem c).mpr (Or.inr h))⟩
  case refine_1 =>
    rw [append_assoc]
    exact nodup_middle.mpr (nodup_cons.mpr ⟨hfree, hset.nodup⟩)
  case refine_2 =>
    rcases (hmem c).mp hc with rfl | hc
    · exact hb
    · exact hset.inside c hc

end

/-- A chain is cut behind one of its places. -/
theorem Occupies.cut
    (hocc : Occupies t place ((front ++ [a] ++ back) :: chains)) :
    Occupies (Function.update t a .last) place ((front ++ [a]) :: back :: chains) := by
  have hchain := hocc.chain _ mem_cons_self
  obtain ⟨hfront, hback⟩ := linked_append hchain.1
  have hflat : front ++ [a] ++ (back :: chains).flatten =
      ((front ++ [a] ++ back) :: chains).flatten := by
    simp only [flatten_cons, append_assoc]
  have hgrow : Growing t place (front ++ [a]) (back :: chains) := by
    refine ⟨hfront, fun c hc => ?_, hflat ▸ hocc.nodup, fun b hb => hocc.inside b (hflat ▸ hb),
      fun b hb hnot => hocc.free b hb (hflat ▸ hnot)⟩
    rcases mem_cons.mp hc with rfl | hc
    · refine ⟨hback, fun b hb => hchain.2 b ?_⟩
      rw [getLast?_append, hb]
      rfl
    · exact hocc.chain c (mem_cons_of_mem _ hc)
  exact hgrow.close

/-- The first place of a chain is freed. -/
theorem Occupies.freeHead
    (hocc : Occupies t place ((a :: l) :: chains)) :
    Occupies (Function.update t a .free) place (l :: chains) := by
  obtain ⟨hnot, hnodup⟩ : a ∉ l ++ chains.flatten ∧ (l ++ chains.flatten).Nodup :=
    nodup_cons.mp hocc.nodup
  have hsame : ∀ b ∈ l ++ chains.flatten, Function.update t a .free b = t b := by
    intro b hb
    refine Function.update_of_ne ?_ ..
    rintro rfl
    exact hnot hb
  have hchain := hocc.chain _ mem_cons_self
  refine ⟨fun c hc => ?_, hnodup, fun b hb => hocc.inside b (mem_cons_of_mem a hb),
    fun b hb hfree => ?_⟩
  case refine_1 =>
    rcases mem_cons.mp hc with hc | hold
    · rw [hc]
      exact Chain.congr (fun b hb => hsame b (mem_append_left _ hb)) hchain.tail
    · exact (hocc.chain c (mem_cons_of_mem _ hold)).congr fun b hb =>
        hsame b (mem_append_right _ (mem_flatten.mpr ⟨c, hold, hb⟩))
  case refine_2 =>
    by_cases hab : b = a
    · rw [hab]
      exact Function.update_self ..
    · rw [Function.update_of_ne hab]
      refine hocc.free b hb fun hmem => ?_
      rcases mem_cons.mp hmem with rfl | hmem
      · exact hab rfl
      · exact hfree hmem

end Occupies

end LinkedTable
end Udk
