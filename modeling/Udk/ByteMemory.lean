import Mathlib.Data.List.Range
import Mathlib.Data.List.Flatten
import Mathlib.Tactic

/-!
# Byte memory and strings in pieces

A memory has a byte at every address.  A string that lies in it in pieces is the
concatenation of what is read at them; a substring of it is read piece by piece.
-/

namespace Udk

open List

universe u v

/-- The byte at each address. -/
abbrev Memory := Nat → UInt8

/-- The bytes from an address on. -/
def peek (mem : Memory) (addr len : Nat) : List UInt8 :=
  (List.range len).map fun k => mem (addr + k)

/-- `CopyMem`: the bytes at another place, as if all of them were read first. -/
def moveBytes (mem : Memory) (dest src len : Nat) : Memory := fun addr =>
  if dest ≤ addr ∧ addr < dest + len then mem (src + (addr - dest)) else mem addr

/-- Memory with a string written to it. -/
def storeBytes (mem : Memory) (addr : Nat) (data : List UInt8) : Memory := fun a =>
  if addr ≤ a ∧ a < addr + data.length then data.getD (a - addr) 0 else mem a

/-- No address of the first range is in the second one. -/
def Apart (addr len addr' len' : Nat) : Prop :=
  ∀ k < len, addr + k < addr' ∨ addr' + len' ≤ addr + k

section Memory

variable {mem mem' : Memory} {addr addr' len len' a b dest src : Nat}

@[simp] theorem length_peek : (peek mem addr len).length = len := by
  rw [peek, length_map, length_range]

theorem getElem?_peek
    (hlt : a < len) :
    (peek mem addr len)[a]? = some (mem (addr + a)) := by
  rw [peek, getElem?_map, getElem?_range hlt]
  rfl

theorem peek_add : peek mem addr (a + b) = peek mem addr a ++ peek mem (addr + a) b := by
  rw [peek, range_add, map_append, map_map, peek, peek]
  congr 1
  refine map_congr_left fun k _ => ?_
  rw [Function.comp_apply, Nat.add_assoc]

theorem take_peek
    (hle : a ≤ len) :
    (peek mem addr len).take a = peek mem addr a := by
  have hsum : len = a + (len - a) := by omega
  rw [hsum, peek_add]
  exact take_left' length_peek

theorem drop_peek
    (hle : a ≤ len) :
    (peek mem addr len).drop a = peek mem (addr + a) (len - a) := by
  have hsum : len = a + (len - a) := by omega
  conv_lhs => rw [hsum, peek_add]
  exact drop_left' length_peek

theorem peek_congr
    (hsame : ∀ k < len, mem (addr + k) = mem' (addr + k)) :
    peek mem addr len = peek mem' addr len :=
  map_congr_left fun k hk => hsame k (List.mem_range.mp hk)

theorem moveBytes_outside
    (hout : addr < dest ∨ dest + len ≤ addr) :
    moveBytes mem dest src len addr = mem addr := by
  rw [moveBytes, if_neg (by omega)]

/-- What has been copied is read back at the new place. -/
theorem peek_moveBytes : peek (moveBytes mem dest src len) dest len = peek mem src len := by
  refine map_congr_left fun k hk => ?_
  have hlt := List.mem_range.mp hk
  rw [moveBytes, if_pos (by omega), Nat.add_sub_cancel_left]

/-- A copy does not change what lies apart from its destination. -/
theorem peek_moveBytes_apart
    (hapart : Apart addr len dest len') :
    peek (moveBytes mem dest src len') addr len = peek mem addr len :=
  peek_congr fun k hk => moveBytes_outside (hapart k hk)

theorem Apart.part
    (hapart : Apart addr len addr' len')
    (hle : a + b ≤ len) :
    Apart (addr + a) b addr' len' := by
  intro k hk
  have h := hapart (a + k) (by omega)
  omega

theorem Apart.shrink
    (hapart : Apart addr len addr' len')
    (hle : a + b ≤ len') :
    Apart addr len (addr' + a) b := by
  intro k hk
  have h := hapart k hk
  omega

theorem Apart.symm
    (hapart : Apart addr len addr' len') :
    Apart addr' len' addr len := by
  intro k hk
  by_contra hin
  push Not at hin
  have h := hapart (addr' + k - addr) (by omega)
  omega

end Memory

/-- A memory that differs from another one by a string written to it. -/
structure Written (mem mem' : Memory) (dest : Nat) (data : List UInt8) : Prop where
  content : peek mem' dest data.length = data
  frame : ∀ addr, addr < dest ∨ dest + data.length ≤ addr → mem' addr = mem addr

section Written

variable {mem mem₁ mem₂ : Memory} {dest src len addr : Nat} {data data' : List UInt8}

theorem Written.nil : Written mem mem dest [] :=
  ⟨rfl, fun _ _ => rfl⟩

theorem written_moveBytes : Written mem (moveBytes mem dest src len) dest (peek mem src len) := by
  constructor
  case content => rw [length_peek, peek_moveBytes]
  case frame =>
    intro addr hout
    rw [length_peek] at hout
    exact moveBytes_outside hout

theorem written_storeBytes : Written mem (storeBytes mem dest data) dest data := by
  constructor
  case content =>
    apply ext_getElem?
    intro i
    by_cases hi : i < data.length
    · rw [getElem?_peek hi, storeBytes, if_pos (by omega), Nat.add_sub_cancel_left,
        getD_eq_getElem?_getD, getElem?_eq_getElem hi, Option.getD_some]
    · rw [getElem?_eq_none (by rw [length_peek]; omega), getElem?_eq_none (by omega)]
  case frame =>
    intro a hout
    rw [storeBytes, if_neg (by omega)]

/-- What lies apart from a written string is as before. -/
theorem Written.peek_apart
    (hwritten : Written mem mem₁ dest data)
    (hapart : Apart addr len dest data.length) :
    peek mem₁ addr len = peek mem addr len :=
  peek_congr fun k hk => hwritten.frame _ (hapart k hk)

/-- Two strings written one behind the other. -/
theorem Written.append
    (hfirst : Written mem mem₁ dest data)
    (hsecond : Written mem₁ mem₂ (dest + data.length) data') :
    Written mem mem₂ dest (data ++ data') := by
  constructor
  case content =>
    have hkept : peek mem₂ dest data.length = peek mem₁ dest data.length :=
      hsecond.peek_apart fun k hk => Or.inl (by omega)
    rw [length_append, peek_add, hkept, hfirst.content, hsecond.content]
  case frame =>
    intro addr hout
    rw [length_append] at hout
    rw [hsecond.frame addr (by omega), hfirst.frame addr (by omega)]

end Written

section Pieces

variable {α : Type u} {before middle after : List (List α)} {first last : List α} {offset len : Nat}

theorem drop_flatten
    (hlow : before.flatten.length ≤ offset)
    (hhigh : offset ≤ before.flatten.length + first.length) :
    (before ++ first :: after).flatten.drop offset =
      first.drop (offset - before.flatten.length) ++ after.flatten := by
  have hsplit : offset = before.flatten.length + (offset - before.flatten.length) := by omega
  rw [flatten_append, flatten_cons]
  conv_lhs => rw [hsplit]
  rw [drop_length_add_append, drop_append_of_le_length (by omega)]

/-- A search that passes over the elements in front of an offset comes to the one that
holds it. -/
theorem search_reaches
    {β : Type v} {l : List α}
    (size : α → Nat) (search : List α → Nat → Nat → β)
    (index cur : Nat)
    (hpass : ∀ x xs index cur, cur + size x ≤ offset →
      search (x :: xs) index cur = search xs (index + 1) (cur + size x))
    (hlow : cur ≤ offset)
    (hhigh : offset < cur + (l.map size).sum) :
    ∃ before x after, l = before ++ x :: after ∧ cur + (before.map size).sum ≤ offset ∧
      offset < cur + (before.map size).sum + size x ∧
      search l index cur =
        search (x :: after) (index + before.length) (cur + (before.map size).sum) := by
  induction l generalizing index cur with
  | nil => exact absurd hhigh (Nat.not_lt_of_le hlow)
  | cons x l ih =>
      by_cases hhere : offset < cur + size x
      · exact ⟨[], x, l, rfl, hlow, hhere, rfl⟩
      · have hpassed : cur + size x ≤ offset := Nat.le_of_not_lt hhere
        rw [map_cons, sum_cons, ← Nat.add_assoc] at hhigh
        obtain ⟨before, y, after, rfl, hstart, hstop, hsearch⟩ := ih (index + 1) _ hpassed hhigh
        refine ⟨x :: before, y, after, rfl, ?_⟩
        rw [hpass x _ index cur hpassed, hsearch, map_cons, sum_cons, ← Nat.add_assoc,
          length_cons, Nat.add_right_comm index 1, Nat.add_assoc index]
        exact ⟨hstart, hstop, rfl⟩

end Pieces

end Udk
