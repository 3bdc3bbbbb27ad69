import Udk.ByteMemory
import Udk.Bytes

/-!
# Words of a memory and independent updates

A word is a little-endian number at an address.  An update carries the places it works on: it
changes nothing else, and what it writes depends on nothing else.  Updates that work on different
places do not see each other, so a list of them has the effect of each one alone.
-/

namespace Udk

universe u v

section Words

/-- The number of `width` bytes at an address. -/
def word (mem : Memory) (addr width : Nat) : Nat :=
  ofLE (peek mem addr width)

/-- Memory with a number of `width` bytes written to an address. -/
def setWord (mem : Memory) (addr width value : Nat) : Memory :=
  storeBytes mem addr (toLE width value)

variable {mem mem' : Memory} {addr addr' width width' value a : Nat}

theorem word_lt : word mem addr width < 256 ^ width := by
  have h := ofLE_lt (peek mem addr width)
  rwa [length_peek] at h

theorem word_congr
    (hsame : ∀ k < width, mem (addr + k) = mem' (addr' + k)) :
    word mem addr width = word mem' addr' width := by
  rw [word, word]
  congr 1
  exact List.map_congr_left fun k hk => hsame k (List.mem_range.mp hk)

theorem setWord_outside
    (hout : a < addr ∨ addr + width ≤ a) :
    setWord mem addr width value a = mem a := by
  rw [setWord, storeBytes, toLE_length, if_neg (by omega)]

@[simp] theorem word_setWord : word (setWord mem addr width value) addr width =
    value % 256 ^ width := by
  have hcontent := (@written_storeBytes mem addr (toLE width value)).content
  rw [toLE_length] at hcontent
  rw [word, setWord, hcontent, ofLE_toLE]

theorem word_setWord_apart
    (hapart : Apart addr width addr' width') :
    word (setWord mem addr' width' value) addr width = word mem addr width :=
  word_congr fun k hk => setWord_outside (hapart k hk)

/-- Inside the word that is written the old content does not matter. -/
theorem setWord_inside
    (hlow : addr ≤ a) (hhigh : a < addr + width) :
    setWord mem addr width value a = setWord mem' addr width value a := by
  rw [setWord, setWord, storeBytes, storeBytes, toLE_length, if_pos ⟨hlow, hhigh⟩,
    if_pos ⟨hlow, hhigh⟩]

end Words

/-- An update of a store together with the places it works on. -/
structure Update (α : Type u) (β : Type v) where
  apply : (α → β) → α → β
  foot : α → Prop
  frame : ∀ s a, ¬ foot a → apply s a = s a
  congr : ∀ s s', (∀ a, foot a → s a = s' a) → ∀ a, foot a → apply s a = apply s' a

namespace Update

variable {α : Type u} {β : Type v} {us : List (Update α β)} {u : Update α β} {s : α → β} {a : α}

/-- Updates one after the other. -/
def applyAll (us : List (Update α β)) (s : α → β) : α → β :=
  us.foldl (fun s u => u.apply s) s

@[simp] theorem applyAll_cons : applyAll (u :: us) s = applyAll us (u.apply s) := rfl

/-- No place is worked on by two of the updates. -/
def Independent (us : List (Update α β)) : Prop :=
  us.Pairwise fun u v => ∀ a, u.foot a → ¬ v.foot a

theorem applyAll_outside
    (hout : ∀ u ∈ us, ¬ u.foot a) :
    applyAll us s a = s a := by
  induction us generalizing s with
  | nil => rfl
  | cons u us ih =>
      rw [applyAll_cons, ih fun v hv => hout v (List.mem_cons_of_mem _ hv),
        u.frame s a (hout u List.mem_cons_self)]

/-- Where one of the updates works, the result is that of this update alone. -/
theorem applyAll_inside
    (hindependent : Independent us)
    (hmem : u ∈ us)
    (hfoot : u.foot a) :
    applyAll us s a = u.apply s a := by
  induction us generalizing s with
  | nil => exact absurd hmem List.not_mem_nil
  | cons v us ih =>
      obtain ⟨hhead, htail⟩ := List.pairwise_cons.mp hindependent
      rw [applyAll_cons]
      rcases List.mem_cons.mp hmem with rfl | hmem
      · exact applyAll_outside fun w hw => hhead w hw a hfoot
      · rw [ih htail hmem]
        refine u.congr _ _ (fun b hb => ?_) a hfoot
        exact v.frame s b fun hv => hhead u hmem b hv hb

end Update

end Udk
