import Udk.Runs
import Udk.SmmLockBoxLib.LockBox

/-!
# Lock boxes as a vault

What lock boxes are for: a map from names to byte strings, with the attributes and the
original address of each.  The queue and the memory represent such a map.
-/

namespace Udk
namespace LockBox

open List

universe u

structure Entry where
  content : List UInt8
  attributes : BitVec 64
  home : Nat

abbrev Vault (Guid : Type u) := Guid → Option Entry

/-- A string with the bytes from an offset on replaced. -/
def splice (old : List UInt8) (offset : Nat) (new : List UInt8) : List UInt8 :=
  old.take offset ++ new ++ old.drop (offset + new.length)

theorem peek_moveBytes_splice
    {mem : Memory} {addr len src offset n : Nat}
    (hle : offset + n ≤ len) :
    peek (moveBytes mem (addr + offset) src n) addr len =
      splice (peek mem addr len) offset (peek mem src n) := by
  have hsplit : len = offset + (n + (len - (offset + n))) := by omega
  have hbelow : peek (moveBytes mem (addr + offset) src n) addr offset =
      (peek mem addr len).take offset := by
    rw [take_peek (by omega)]
    exact peek_moveBytes_apart fun k hk => Or.inl (by omega)
  have habove : peek (moveBytes mem (addr + offset) src n) (addr + offset + n)
      (len - (offset + n)) = (peek mem addr len).drop (offset + n) := by
    rw [drop_peek hle, ← Nat.add_assoc]
    exact peek_moveBytes_apart fun k _ => Or.inr (by omega)
  conv_lhs => rw [hsplit, peek_add, peek_add]
  rw [hbelow, habove, peek_moveBytes, splice, length_peek, append_assoc]

section Vault

variable {Guid : Type u} [DecidableEq Guid]

/-- The entry that a box holds. -/
def LockBoxData.entry (mem : Memory) (box : LockBoxData Guid) : Entry :=
  ⟨peek mem box.smramBuffer box.length, box.attributes, box.buffer⟩

/-- The map that the boxes of a state represent. -/
def State.vault (s : State Guid) : Vault Guid := fun guid =>
  (internalFindLockBoxByGuid s.lockBoxQueue guid).map (LockBoxData.entry s.memory)

/-- What a successful event does to the map; `mem` has the buffers of the callers. -/
def Event.effect (mem : Memory) (vault : Vault Guid) : Event Guid → Vault Guid
  | .save (some guid) buffer length _ _ =>
      Function.update vault guid (some ⟨peek mem buffer length, 0, buffer⟩)
  | .setAttributes (some guid) attributes =>
      Function.update vault guid
        ((vault guid).map fun entry => { entry with attributes := attributes })
  | .update (some guid) offset buffer length =>
      Function.update vault guid
        ((vault guid).map fun entry =>
          { entry with content := splice entry.content offset (peek mem buffer length) })
  | _ => vault

/-- The map after an event. -/
def vaultAfter (w : Nat) (s : State Guid) (vault : Vault Guid) (e : Event Guid) : Vault Guid :=
  if (perform w s e).status = .success then e.effect s.memory vault else vault

/-- The map that the successful calls of a trace make, from an empty one. -/
def replay (w : Nat) (trace : List (State Guid × Event Guid)) : Vault Guid :=
  trace.foldl (fun vault x => vaultAfter w x.1 vault x.2) fun _ => none

/-- A call does to SMRAM and to memory what it does to the map, and reaches no byte of SMRAM
but those of the pages for its name. -/
structure Faithful (w : Nat) (s : State Guid) (e : Event Guid) : Prop where
  inside : ∀ access ∈ (perform w s e).accesses,
    ∃ box ∈ (perform w s e).state.lockBoxQueue, box.guid = access.guid ∧
      box.smramBuffer ≤ access.address ∧
      access.address + access.length ≤ box.smramBuffer + box.room
  vault : (perform w s e).state.vault = vaultAfter w s s.vault e
  fits : ∀ guid offset buffer length, e = .update (some guid) offset buffer length →
    (perform w s e).status = .success →
    ∃ entry, s.vault guid = some entry ∧ offset + length ≤ entry.content.length
  restored : ∀ guid buffer length, e = .restore (some guid) buffer length →
    (perform w s e).status = .success →
    ∃ entry, s.vault guid = some entry ∧
      Written s.memory (perform w s e).state.memory
        (if buffer ≠ 0 then buffer else entry.home) entry.content

/-- The sum of `UpdateLockBox` wraps around and passes the check of the length. -/
def Event.Wraps (w : Nat) (s : State Guid) : Event Guid → Prop
  | .update (some guid) offset buffer length =>
      buffer ≠ 0 ∧ 2 ^ w ≤ offset + length ∧
        ∃ box, internalFindLockBoxByGuid s.lockBoxQueue guid = some box ∧
          (offset + length) % 2 ^ w ≤ box.length
  | _ => False

/-- Boxes have names and pages of their own, and their buffers are outside SMRAM. -/
structure StateOk (w : Nat) (smram : Nat → Prop) (s : State Guid) : Prop where
  below : ∀ box ∈ s.lockBoxQueue, box.smramBuffer + box.room ≤ 2 ^ w
  inside : ∀ box ∈ s.lockBoxQueue, ∀ k < box.room, smram (box.smramBuffer + k)
  home : ∀ box ∈ s.lockBoxQueue, Clear w smram box.buffer box.length
  apart : s.lockBoxQueue.Pairwise fun box box' =>
    box.guid ≠ box'.guid ∧ Apart box.smramBuffer box.room box'.smramBuffer box'.room

end Vault

section Queue

variable {Guid : Type u} [DecidableEq Guid] {w : Nat} {smram : Nat → Prop}
variable {s : State Guid} {queue : List (LockBoxData Guid)} {box box' : LockBoxData Guid}
variable {guid guid' : Guid} {attributes : BitVec 64} {mem : Memory} {length : Nat}

theorem le_room : length ≤ 4096 * efiSizeToPages length := by
  rw [efiSizeToPages]
  split_ifs with h <;> omega

theorem LockBoxData.length_le : box.length ≤ box.room := le_room

theorem find_some
    (hfind : internalFindLockBoxByGuid queue guid = some box) :
    box ∈ queue ∧ box.guid = guid :=
  ⟨mem_of_find?_eq_some hfind, by simpa using find?_some hfind⟩

theorem find_append :
    internalFindLockBoxByGuid (queue ++ [box]) guid =
      (internalFindLockBoxByGuid queue guid).or (if box.guid = guid then some box else none) := by
  rw [internalFindLockBoxByGuid, find?_append, ← internalFindLockBoxByGuid]
  congr 1
  by_cases h : box.guid = guid <;> simp [h]

theorem StateOk.kept_outside
    (hok : StateOk w smram s) {dest src n : Nat}
    (hclear : Clear w smram dest n)
    (hbox : box ∈ s.lockBoxQueue) :
    ∀ k < box.room, moveBytes mem dest src n (box.smramBuffer + k) =
      mem (box.smramBuffer + k) := by
  intro k hk
  refine moveBytes_outside ?_
  by_contra hin
  push Not at hin
  have hsmram := hok.inside box hbox k hk
  refine hclear.outside (box.smramBuffer + k - dest) (by omega) ?_
  rwa [Nat.add_sub_cancel' hin.1]

theorem entry_congr {mem' : Memory}
    (hsame : ∀ k < box.room, mem' (box.smramBuffer + k) = mem (box.smramBuffer + k)) :
    box.entry mem' = box.entry mem := by
  rw [LockBoxData.entry, LockBoxData.entry]
  congr 1
  exact peek_congr fun k hk => hsame k (lt_of_lt_of_le hk LockBoxData.length_le)

theorem vault_congr {mem' : Memory}
    (hsame : ∀ box ∈ s.lockBoxQueue, ∀ k < box.room,
      mem' (box.smramBuffer + k) = s.memory (box.smramBuffer + k)) :
    ({ s with memory := mem' } : State Guid).vault = s.vault := by
  funext guid
  rw [State.vault, State.vault]
  refine Option.map_congr fun box hfind => ?_
  exact entry_congr (hsame box (find_some hfind).1)

omit [DecidableEq Guid] in
theorem StateOk.apart_of_ne
    (hok : StateOk w smram s)
    (hbox : box ∈ s.lockBoxQueue) (hbox' : box' ∈ s.lockBoxQueue)
    (hne : box.guid ≠ box'.guid) :
    Apart box.smramBuffer box.room box'.smramBuffer box'.room := by
  have hsymm : Std.Symm fun a b : LockBoxData Guid =>
      a.guid ≠ b.guid ∧ Apart a.smramBuffer a.room b.smramBuffer b.room :=
    ⟨fun _ _ h => ⟨h.1.symm, h.2.symm⟩⟩
  have hforall := hok.apart.forall hbox hbox' (fun h => hne (h ▸ rfl))
  exact hforall.2

theorem forall_assignAttributes {P : LockBoxData Guid → Prop}
    (hP : ∀ box : LockBoxData Guid, P box → P { box with attributes := attributes })
    (hall : ∀ box ∈ queue, P box) :
    ∀ box ∈ assignAttributes guid attributes queue, P box := by
  induction queue with
  | nil => exact hall
  | cons box queue ih =>
      have hrest := ih fun box hbox => hall box (mem_cons_of_mem _ hbox)
      have hfirst := hall box mem_cons_self
      rw [assignAttributes]
      split_ifs with h
      · exact forall_mem_cons.mpr ⟨hP _ hfirst, (forall_mem_cons.mp hall).2⟩
      · exact forall_mem_cons.mpr ⟨hfirst, hrest⟩

theorem pairwise_assignAttributes {R : LockBoxData Guid → LockBoxData Guid → Prop}
    (hleft : ∀ a b : LockBoxData Guid, R a b → R { a with attributes := attributes } b)
    (hright : ∀ a b : LockBoxData Guid, R a b → R a { b with attributes := attributes })
    (hall : queue.Pairwise R) :
    (assignAttributes guid attributes queue).Pairwise R := by
  induction queue with
  | nil => exact hall
  | cons box queue ih =>
      obtain ⟨hfirst, hrest⟩ := pairwise_cons.mp hall
      rw [assignAttributes]
      split_ifs with h
      · exact pairwise_cons.mpr ⟨fun b hb => hleft _ _ (hfirst b hb), hrest⟩
      · exact pairwise_cons.mpr
          ⟨forall_assignAttributes (hright box) hfirst, ih hrest⟩

theorem find_assignAttributes :
    internalFindLockBoxByGuid (assignAttributes guid attributes queue) guid' =
      if guid' = guid then
        (internalFindLockBoxByGuid queue guid).map fun box =>
          { box with attributes := attributes }
      else
        internalFindLockBoxByGuid queue guid' := by
  induction queue with
  | nil =>
      rw [assignAttributes]
      split_ifs <;> rfl
  | cons box queue ih =>
      rw [assignAttributes]
      by_cases hbox : box.guid = guid
      · rw [if_pos hbox]
        by_cases hguid : guid' = guid
        · simp [internalFindLockBoxByGuid, hbox, hguid]
        · have hne : ¬ guid = guid' := fun h => hguid h.symm
          simp [internalFindLockBoxByGuid, hbox, hguid, hne]
      · rw [if_neg hbox]
        simp only [internalFindLockBoxByGuid, find?_cons] at ih ⊢
        by_cases hguid : guid' = guid
        · subst hguid
          simp only [hbox, decide_false, if_true] at ih ⊢
          exact ih
        · simp only [hguid, if_false] at ih ⊢
          by_cases hbox' : box.guid = guid'
          · simp only [hbox', decide_true]
          · simp only [hbox', decide_false, ih]

end Queue

end LockBox
end Udk
