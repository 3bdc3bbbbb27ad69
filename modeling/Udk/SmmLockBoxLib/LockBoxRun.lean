import Udk.SmmLockBoxLib.Vault

/-!
# Runs of the lock box calls

One theorem for each call, and for a run of any calls: every call is faithful exactly when no
`UpdateLockBox` is accepted with an offset and a length whose sum wraps around.
-/

namespace Udk
namespace LockBox

open List

universe u

section Calls

variable {Guid : Type u} [DecidableEq Guid] {w : Nat} {smram : Nat → Prop} {s : State Guid}
  {e : Event Guid} {guid : Option Guid}

/-- An event without accesses that leaves the map alone is faithful when it is neither an
update nor a restore that succeeds. -/
theorem Faithful.quiet
    (haccesses : (perform w s e).accesses = [])
    (hvault : (perform w s e).state.vault = vaultAfter w s s.vault e)
    (hupdate : ∀ guid offset buffer length, e = .update (some guid) offset buffer length →
      (perform w s e).status ≠ .success)
    (hrestore : ∀ guid buffer length, e = .restore (some guid) buffer length →
      (perform w s e).status ≠ .success) :
    Faithful w s e := by
  constructor
  case inside =>
    intro access hmem
    rw [haccesses] at hmem
    cases hmem
  case vault => exact hvault
  case fits =>
    intro guid offset buffer length he hstatus
    exact absurd hstatus (hupdate _ _ _ _ he)
  case restored =>
    intro guid buffer length he hstatus
    exact absurd hstatus (hrestore _ _ _ he)

theorem failed_ok {status : EfiStatus} {left : Option Nat}
    (hok : StateOk w smram s)
    (hrun : perform w s e = ⟨status, s, [], left⟩)
    (hstatus : status ≠ .success) :
    Faithful w s e ∧ StateOk w smram (perform w s e).state := by
  have hfail : (perform w s e).status ≠ .success := by rwa [hrun]
  constructor
  · refine Faithful.quiet ?_ ?_ (fun _ _ _ _ _ => hfail) fun _ _ _ _ => hfail
    · rw [hrun]
    · rw [vaultAfter, if_neg hfail, hrun]
  · rwa [hrun]

section Save

variable {guid : Guid} {buffer length address : Nat}

/-- The state after a box has been put on the queue. -/
theorem StateOk.save
    (hok : StateOk w smram s)
    (hclear : Clear w smram buffer length)
    (hfresh : FreshPages w smram s address length)
    (hnone : internalFindLockBoxByGuid s.lockBoxQueue guid = none) :
    StateOk w smram
      { memory := moveBytes s.memory address buffer length
        lockBoxQueue := s.lockBoxQueue ++ [⟨guid, buffer, length, 0, address⟩] } := by
  constructor
  case below =>
    intro box hbox
    rcases mem_append.mp hbox with hold | hnew
    · exact hok.below box hold
    · rw [mem_singleton.mp hnew]
      exact hfresh.below
  case inside =>
    intro box hbox
    rcases mem_append.mp hbox with hold | hnew
    · exact hok.inside box hold
    · rw [mem_singleton.mp hnew]
      exact hfresh.inside
  case home =>
    intro box hbox
    rcases mem_append.mp hbox with hold | hnew
    · exact hok.home box hold
    · rw [mem_singleton.mp hnew]
      exact hclear
  case apart =>
    refine pairwise_append.mpr ⟨hok.apart, pairwise_singleton _ _, ?_⟩
    intro box hold box' hnew
    rw [mem_singleton.mp hnew]
    constructor
    · have hother := find?_eq_none.mp hnone box hold
      simpa using hother
    · exact (hfresh.apart box hold).symm

theorem save_vault
    (hfresh : FreshPages w smram s address length)
    (hnone : internalFindLockBoxByGuid s.lockBoxQueue guid = none) :
    State.vault
        { memory := moveBytes s.memory address buffer length
          lockBoxQueue := s.lockBoxQueue ++ [⟨guid, buffer, length, 0, address⟩] } =
      Function.update s.vault guid (some ⟨peek s.memory buffer length, 0, buffer⟩) := by
  funext guid'
  rw [State.vault, find_append]
  by_cases hguid : guid' = guid
  · subst hguid
    rw [hnone, Option.none_or, if_pos rfl, Function.update_self, Option.map_some,
      LockBoxData.entry, peek_moveBytes]
  · rw [if_neg fun h => hguid h.symm, Option.or_none, Function.update_of_ne hguid, State.vault]
    refine Option.map_congr fun box hfind => ?_
    refine entry_congr fun k hk => moveBytes_outside ?_
    have hle : length ≤ 4096 * efiSizeToPages length := le_room
    have hapart := (hfresh.apart box (find_some hfind).1).symm k hk
    omega

end Save

theorem save_ok {buffer length : Nat} {pages : Option Nat} {pool : Bool}
    (hok : StateOk w smram s)
    (hallowed : (Event.save guid buffer length pages pool).Allowed w smram s) :
    Faithful w s (.save guid buffer length pages pool) ∧
      StateOk w smram (perform w s (.save guid buffer length pages pool)).state := by
  obtain ⟨-, hclear, hfresh⟩ := hallowed
  rcases guid with - | guid
  · exact failed_ok hok rfl (by decide)
  by_cases hargs : buffer = 0 ∨ length = 0
  · exact failed_ok hok (if_pos hargs) (by decide)
  by_cases hfound : (internalFindLockBoxByGuid s.lockBoxQueue guid).isSome
  · exact failed_ok hok ((if_neg hargs).trans (if_pos hfound)) (by decide)
  rcases pages with - | address
  · exact failed_ok hok ((if_neg hargs).trans (if_neg hfound)) (by decide)
  rcases pool with - | -
  · exact failed_ok hok ((if_neg hargs).trans (if_neg hfound)) (by decide)
  have hrun : perform w s (.save (some guid) buffer length (some address) true) =
      ⟨.success,
        { memory := moveBytes s.memory address buffer length
          lockBoxQueue := s.lockBoxQueue ++ [⟨guid, buffer, length, 0, address⟩] },
        [⟨guid, address, length⟩], none⟩ := (if_neg hargs).trans (if_neg hfound)
  have hnone : internalFindLockBoxByGuid s.lockBoxQueue guid = none := by
    simpa using hfound
  have hpages := hfresh address rfl
  have hclear' := hclear fun h => hargs (Or.inl h)
  constructor
  · constructor
    case inside =>
      rw [hrun]
      intro access hmem
      rw [mem_singleton.mp hmem]
      refine ⟨⟨guid, buffer, length, 0, address⟩, mem_append_right _
        (mem_singleton.mpr rfl), rfl, le_refl _, ?_⟩
      exact Nat.add_le_add_left le_room _
    case vault =>
      rw [vaultAfter, hrun]
      exact save_vault hpages hnone
    case fits => intro _ _ _ _ he; cases he
    case restored => intro _ _ _ he; cases he
  · rw [hrun]
    exact hok.save hclear' hpages hnone

theorem StateOk.assignAttributes
    (hok : StateOk w smram s) (guid : Guid) (attributes : BitVec 64) :
    StateOk w smram
      { s with lockBoxQueue := assignAttributes guid attributes s.lockBoxQueue } where
  below := forall_assignAttributes (fun _ h => h) hok.below
  inside := forall_assignAttributes (fun _ h => h) hok.inside
  home := forall_assignAttributes (fun _ h => h) hok.home
  apart := pairwise_assignAttributes (fun _ _ h => h) (fun _ _ h => h) hok.apart

theorem setAttributes_ok {attributes : BitVec 64}
    (hok : StateOk w smram s) :
    Faithful w s (.setAttributes guid attributes) ∧
      StateOk w smram (perform w s (.setAttributes guid attributes)).state := by
  rcases guid with - | guid
  · exact failed_ok hok rfl (by decide)
  by_cases hargs : attributes &&& ~~~lockBoxAttributeRestoreInPlace ≠ 0
  · exact failed_ok hok (if_pos hargs) (by decide)
  rcases hfind : internalFindLockBoxByGuid s.lockBoxQueue guid with - | box
  · exact failed_ok hok (by rw [perform, setLockBoxAttributes, if_neg hargs, hfind]) (by decide)
  have hrun : perform w s (.setAttributes (some guid) attributes) =
      ⟨.success, { s with lockBoxQueue := assignAttributes guid attributes s.lockBoxQueue },
        [], none⟩ := by
    rw [perform, setLockBoxAttributes, if_neg hargs, hfind]
  constructor
  · refine Faithful.quiet ?_ ?_ ?_ ?_
    · rw [hrun]
    · rw [vaultAfter, hrun, if_pos rfl]
      funext guid'
      rw [State.vault, find_assignAttributes]
      by_cases hguid : guid' = guid
      · subst hguid
        rw [if_pos rfl, Event.effect, Function.update_self, State.vault, Option.map_map,
          Option.map_map]
        rfl
      · rw [if_neg hguid, Event.effect, Function.update_of_ne hguid, State.vault]
    · intro _ _ _ _ he
      cases he
    · intro _ _ _ he
      cases he
  · rw [hrun]
    exact hok.assignAttributes guid attributes

section Memory

variable {mem : Memory}

theorem StateOk.ofMemory
    (hok : StateOk w smram s) :
    StateOk w smram { s with memory := mem } :=
  ⟨hok.below, hok.inside, hok.home, hok.apart⟩

end Memory

section Update

variable {guid : Guid} {offset buffer length : Nat} {box : LockBoxData Guid}

theorem update_vault
    (hok : StateOk w smram s)
    (hfind : internalFindLockBoxByGuid s.lockBoxQueue guid = some box)
    (hfits : offset + length ≤ box.length) :
    State.vault
        { s with memory := moveBytes s.memory (box.smramBuffer + offset) buffer length } =
      Function.update s.vault guid ((s.vault guid).map fun entry =>
        { entry with content := splice entry.content offset (peek s.memory buffer length) }) := by
  obtain ⟨hbox, hguid⟩ := find_some hfind
  funext guid'
  by_cases hsame : guid' = guid
  · subst hsame
    rw [Function.update_self, State.vault, State.vault, hfind, Option.map_some, Option.map_some,
      Option.map_some, LockBoxData.entry, LockBoxData.entry, peek_moveBytes_splice hfits]
  · rw [Function.update_of_ne hsame, State.vault, State.vault]
    refine Option.map_congr fun box' hfind' => ?_
    obtain ⟨hbox', hguid'⟩ := find_some hfind'
    have hne : box'.guid ≠ box.guid := fun h => hsame (hguid' ▸ hguid ▸ h)
    refine entry_congr fun k hk => moveBytes_outside ?_
    have hle : box.length ≤ box.room := LockBoxData.length_le
    have hapart := hok.apart_of_ne hbox' hbox hne k hk
    omega

theorem update_accepted
    (hbuffer : buffer ≠ 0) (hlength : length ≠ 0)
    (hfind : internalFindLockBoxByGuid s.lockBoxQueue guid = some box)
    (hle : (offset + length) % 2 ^ w ≤ box.length) :
    perform w s (.update (some guid) offset buffer length) =
      ⟨.success,
        { s with
          memory := moveBytes s.memory ((box.smramBuffer + offset) % 2 ^ w) buffer length },
        [⟨guid, (box.smramBuffer + offset) % 2 ^ w, length⟩], none⟩ := by
  rw [perform, updateLockBox, if_neg (not_or.mpr ⟨hbuffer, hlength⟩), hfind]
  exact if_neg (not_lt.mpr hle)

theorem update_ok {guid : Option Guid}
    (hok : StateOk w smram s)
    (hallowed : (Event.update guid offset buffer length).Allowed w smram s)
    (hwraps : ¬ (Event.update guid offset buffer length).Wraps w s) :
    Faithful w s (.update guid offset buffer length) ∧
      StateOk w smram (perform w s (.update guid offset buffer length)).state := by
  obtain ⟨_, -, _⟩ := hallowed
  rcases guid with - | guid
  · exact failed_ok hok rfl (by decide)
  by_cases hargs : buffer = 0 ∨ length = 0
  · exact failed_ok hok (if_pos hargs) (by decide)
  rcases hfind : internalFindLockBoxByGuid s.lockBoxQueue guid with - | box
  · exact failed_ok hok (by rw [perform, updateLockBox, if_neg hargs, hfind]) (by decide)
  by_cases hlong : box.length < (offset + length) % 2 ^ w
  · have hrun : perform w s (.update (some guid) offset buffer length) =
        ⟨.bufferTooSmall, s, [], none⟩ := by
      rw [perform, updateLockBox, if_neg hargs, hfind]
      exact if_pos hlong
    exact failed_ok hok hrun (by decide)
  obtain ⟨hbuffer, hlength⟩ := not_or.mp hargs
  have hrun := update_accepted hbuffer hlength hfind (not_lt.mp hlong)
  obtain ⟨hbox, hguid⟩ := find_some hfind
  -- without a wrap the check is the one in whole numbers
  have hsum : offset + length < 2 ^ w := by
    by_contra hge
    exact hwraps ⟨hbuffer, not_lt.mp hge, box, hfind, not_lt.mp hlong⟩
  have hfits : offset + length ≤ box.length := by
    rw [Nat.mod_eq_of_lt hsum] at hlong
    exact not_lt.mp hlong
  have hroom : box.length ≤ box.room := LockBoxData.length_le
  have hbelow := hok.below box hbox
  rw [Nat.mod_eq_of_lt (by omega : box.smramBuffer + offset < 2 ^ w)] at hrun
  constructor
  · constructor
    case inside =>
      rw [hrun]
      intro access hmem
      rw [mem_singleton.mp hmem]
      refine ⟨box, hbox, hguid, Nat.le_add_right _ _, ?_⟩
      rw [Nat.add_assoc]
      exact Nat.add_le_add_left (le_trans hfits hroom) _
    case vault =>
      rw [vaultAfter, hrun]
      exact update_vault hok hfind hfits
    case fits =>
      intro guid' offset' buffer' length' he _
      injection he with hg ho hb hl
      injection hg with hg
      subst hg ho hb hl
      refine ⟨box.entry s.memory, by rw [State.vault, hfind, Option.map_some], ?_⟩
      rw [LockBoxData.entry, length_peek]
      exact hfits
    case restored => intro _ _ _ he; cases he
  · rw [hrun]
    exact hok.ofMemory

theorem update_outside
    (hok : StateOk w smram s)
    (hallowed : (Event.update (some guid) offset buffer length).Allowed w smram s)
    (hwraps : (Event.update (some guid) offset buffer length).Wraps w s) :
    ¬ Faithful w s (.update (some guid) offset buffer length) := by
  obtain ⟨hoffset, _, hclear⟩ := hallowed
  obtain ⟨hbuffer, hge, box, hfind, hle⟩ := hwraps
  obtain ⟨hbox, hguid⟩ := find_some hfind
  have hrun := update_accepted hbuffer (by omega) hfind hle
  intro hfaithful
  have hinside := hfaithful.inside
  rw [hrun] at hinside
  obtain ⟨box', hbox', hguid', hlow, hhigh⟩ := hinside _ (mem_singleton.mpr rfl)
  have hsame : box' = box := by
    by_contra hne
    have hsymm : Std.Symm fun a b : LockBoxData Guid => a.guid ≠ b.guid :=
      ⟨fun _ _ h => h.symm⟩
    have hdistinct := (hok.apart.imp fun h => h.1).forall hbox' hbox hne
    exact hdistinct (hguid'.trans hguid.symm)
  subst hsame
  have hbelow := hok.below box' hbox
  simp only at hlow hhigh
  rcases lt_or_ge (box'.smramBuffer + offset) (2 ^ w) with hlt | hge'
  · rw [Nat.mod_eq_of_lt hlt] at hlow hhigh
    -- a box with all addresses leaves none for the buffer
    have hall : box'.smramBuffer = 0 ∧ box'.room = 2 ^ w := by omega
    have hclear' := hclear hbuffer
    have hend := hclear'.below
    have hsmram := hok.inside box' hbox buffer (by omega)
    rw [hall.1, Nat.zero_add] at hsmram
    exact hclear'.outside 0 (by omega) hsmram
  · rw [Nat.mod_eq_sub_mod hge', Nat.mod_eq_of_lt (by omega)] at hlow hhigh
    omega

end Update

theorem restore_ok {buffer : Nat} {length : Option Nat}
    (hok : StateOk w smram s)
    (hallowed : (Event.restore guid buffer length).Allowed w smram s) :
    Faithful w s (.restore guid buffer length) ∧
      StateOk w smram (perform w s (.restore guid buffer length)).state := by
  rcases guid with - | guid
  · exact failed_ok hok rfl (by decide)
  by_cases hargs : (buffer = 0 ∧ length.isSome) ∨ (buffer ≠ 0 ∧ length.isNone)
  · exact failed_ok hok (if_pos hargs) (by decide)
  rcases hfind : internalFindLockBoxByGuid s.lockBoxQueue guid with - | box
  · exact failed_ok hok (by rw [perform, restoreLockBox, if_neg hargs, hfind]) (by decide)
  by_cases hprotected : buffer = 0 ∧ box.attributes &&& lockBoxAttributeRestoreInPlace = 0
  · have hrun : perform w s (.restore (some guid) buffer length) =
        ⟨.writeProtected, s, [], length⟩ := by
      rw [perform, restoreLockBox, if_neg hargs, hfind]
      exact if_pos hprotected
    exact failed_ok hok hrun (by decide)
  by_cases hsmall : ∃ given ∈ length, given < box.length
  · obtain ⟨given, hgiven, hlt⟩ := hsmall
    obtain rfl := Option.mem_def.mp hgiven
    have hrun : perform w s (.restore (some guid) buffer (some given)) =
        ⟨.bufferTooSmall, s, [], some box.length⟩ := by
      rw [perform, restoreLockBox, if_neg hargs, hfind]
      exact (if_neg hprotected).trans (if_pos hlt)
    exact failed_ok hok hrun (by decide)
  obtain ⟨hbox, hguid⟩ := find_some hfind
  have hrun : perform w s (.restore (some guid) buffer length) =
      ⟨.success,
        { s with
          memory := moveBytes s.memory (if buffer ≠ 0 then buffer else box.buffer)
            box.smramBuffer box.length },
        [⟨guid, box.smramBuffer, box.length⟩], length.map fun _ => box.length⟩ := by
    rw [perform, restoreLockBox, if_neg hargs, hfind]
    refine (if_neg hprotected).trans ?_
    rcases length with - | given
    · rfl
    · exact if_neg fun hlt => hsmall ⟨given, rfl, hlt⟩
  -- the bytes go to the caller's buffer or to where they came from
  have hdest : Clear w smram (if buffer ≠ 0 then buffer else box.buffer) box.length := by
    by_cases hbuffer : buffer = 0
    · rw [if_neg (not_not.mpr hbuffer)]
      exact hok.home box hbox
    · rw [if_pos hbuffer]
      rcases length with - | given
      · exact absurd (Or.inr ⟨hbuffer, rfl⟩) hargs
      · have hclear := (hallowed given rfl).2 hbuffer
        have hle : box.length ≤ given := by
          by_contra hlt
          exact hsmall ⟨given, rfl, not_le.mp hlt⟩
        exact ⟨le_trans (Nat.add_le_add_left hle _) hclear.below,
          fun k hk => hclear.outside k (lt_of_lt_of_le hk hle)⟩
  constructor
  · constructor
    case inside =>
      rw [hrun]
      intro access hmem
      rw [mem_singleton.mp hmem]
      exact ⟨box, hbox, hguid, le_refl _, Nat.add_le_add_left LockBoxData.length_le _⟩
    case vault =>
      rw [vaultAfter, hrun]
      exact vault_congr fun box' hbox' => hok.kept_outside hdest hbox'
    case fits => intro _ _ _ _ he; cases he
    case restored =>
      intro guid' buffer' length' he _
      injection he with hg hb hl
      injection hg with hg
      subst hg hb hl
      refine ⟨box.entry s.memory, by rw [State.vault, hfind, Option.map_some], ?_⟩
      rw [hrun]
      exact written_moveBytes
  · rw [hrun]
    exact hok.ofMemory

theorem StateOk.kept_all
    (hok : StateOk w smram s) {queue : List (LockBoxData Guid)} {mem : Memory}
    (hqueue : ∀ box ∈ queue, box ∈ s.lockBoxQueue) {box : LockBoxData Guid}
    (hbox : box ∈ s.lockBoxQueue) :
    ∀ k < box.room, queue.foldl restoreInPlace mem (box.smramBuffer + k) =
      mem (box.smramBuffer + k) := by
  induction queue generalizing mem with
  | nil => exact fun _ _ => rfl
  | cons first queue ih =>
      intro k hk
      have hfirst := hqueue first mem_cons_self
      rw [foldl_cons, ih (fun b hb => hqueue b (mem_cons_of_mem _ hb)) k hk,
        restoreInPlace]
      split_ifs with h
      · exact hok.kept_outside (hok.home first hfirst) hbox k hk
      · rfl

theorem restoreAll_ok
    (hok : StateOk w smram s) :
    Faithful w s .restoreAll ∧ StateOk w smram (perform w s .restoreAll).state := by
  constructor
  · constructor
    case inside =>
      intro access hmem
      obtain ⟨box, hbox, rfl⟩ := mem_map.mp hmem
      exact ⟨box, mem_of_mem_filter hbox, rfl, le_refl _,
        Nat.add_le_add_left LockBoxData.length_le _⟩
    case vault => exact vault_congr fun box hbox => hok.kept_all (fun _ h => h) hbox
    case fits => intro _ _ _ _ he; cases he
    case restored => intro _ _ _ he; cases he
  · exact hok.ofMemory

theorem perform_ok
    (hok : StateOk w smram s)
    (hallowed : e.Allowed w smram s)
    (hwraps : ¬ e.Wraps w s) :
    Faithful w s e ∧ StateOk w smram (perform w s e).state := by
  cases e with
  | save guid buffer length pages pool => exact save_ok hok hallowed
  | setAttributes guid attributes => exact setAttributes_ok hok
  | update guid offset buffer length => exact update_ok hok hallowed hwraps
  | restore guid buffer length => exact restore_ok hok hallowed
  | restoreAll => exact restoreAll_ok hok
  | other memory =>
      refine ⟨Faithful.quiet rfl ?_ ?_ ?_, hok.ofMemory⟩
      · exact vault_congr hallowed
      · intro _ _ _ _ he
        cases he
      · intro _ _ _ he
        cases he

theorem Faithful.not_wraps
    (hfaithful : Faithful w s e)
    (hok : StateOk w smram s)
    (hallowed : e.Allowed w smram s) :
    ¬ e.Wraps w s := by
  intro hwraps
  cases e with
  | update guid offset buffer length =>
      rcases guid with - | guid
      · exact hwraps
      · exact update_outside hok hallowed hwraps hfaithful
  | save | setAttributes | restore | restoreAll | other => exact hwraps

end Calls

section Runs

variable {Guid : Type u} [DecidableEq Guid] {w : Nat} {smram : Nat → Prop}
variable {s s' : State Guid} {trace : List (State Guid × Event Guid)}

omit [DecidableEq Guid] in
theorem stateOk_empty
    (hempty : s.lockBoxQueue = []) :
    StateOk w smram s := by
  constructor <;> rw [hempty]
  case apart => exact List.Pairwise.nil
  all_goals exact fun box hbox => absurd hbox not_mem_nil

theorem vault_empty
    (hempty : s.lockBoxQueue = []) :
    s.vault = fun _ => none := by
  funext guid
  rw [State.vault, hempty]
  rfl

theorem run_faithful {vault : Vault Guid}
    (hrun : Run (Step w smram) s trace s')
    (hok : StateOk w smram s) (hvault : s.vault = vault)
    (hwraps : ∀ x ∈ trace, ¬ x.2.Wraps w x.1) :
    (∀ x ∈ trace, Faithful w x.1 x.2) ∧
      s'.vault = trace.foldl (fun vault x => vaultAfter w x.1 vault x.2) vault := by
  induction hrun generalizing vault with
  | nil s => exact ⟨fun x hx => absurd hx not_mem_nil, hvault⟩
  | cons hstep hrest ih =>
      obtain ⟨hallowed, rfl⟩ := hstep
      obtain ⟨hfaithful, hok'⟩ := perform_ok hok hallowed (hwraps _ mem_cons_self)
      have hnext := hfaithful.vault
      rw [hvault] at hnext
      obtain ⟨hall, hend⟩ := ih hok' hnext fun x hx => hwraps x (mem_cons_of_mem _ hx)
      exact ⟨forall_mem_cons.mpr ⟨hfaithful, hall⟩, hend⟩

theorem run_not_wraps
    (hrun : Run (Step w smram) s trace s')
    (hok : StateOk w smram s)
    (hfaithful : ∀ x ∈ trace, Faithful w x.1 x.2) :
    ∀ x ∈ trace, ¬ x.2.Wraps w x.1 := by
  induction hrun with
  | nil s => exact fun x hx => absurd hx not_mem_nil
  | cons hstep hrest ih =>
      obtain ⟨hallowed, rfl⟩ := hstep
      have hfirst := (hfaithful _ mem_cons_self).not_wraps hok hallowed
      have hok' := (perform_ok hok hallowed hfirst).2
      exact forall_mem_cons.mpr
        ⟨hfirst, ih hok' fun x hx => hfaithful x (mem_cons_of_mem _ hx)⟩

/-- Lock boxes are a faithful map, over any run of calls on an empty queue, exactly when no
update is accepted with an offset and a length whose sum wraps around. -/
theorem lock_boxes_faithful
    (hrun : Run (Step w smram) s trace s')
    (hempty : s.lockBoxQueue = []) :
    (∀ x ∈ trace, Faithful w x.1 x.2) ∧ s'.vault = replay w trace ↔
      ∀ x ∈ trace, ¬ x.2.Wraps w x.1 := by
  constructor
  · intro hall
    exact run_not_wraps hrun (stateOk_empty hempty) hall.1
  · intro hwraps
    exact run_faithful hrun (stateOk_empty hempty) (vault_empty hempty) hwraps

/-- The states in which some events happen one after the other, each with its event. -/
def history (w : Nat) (s : State Guid) : List (Event Guid) → List (State Guid × Event Guid)
  | [] => []
  | e :: events => (s, e) :: history w (perform w s e).state events

/-- The state after some events. -/
def performAll (w : Nat) (s : State Guid) (events : List (Event Guid)) : State Guid :=
  events.foldl (fun s e => (perform w s e).state) s

theorem run_history {events : List (Event Guid)}
    (hallowed : ∀ x ∈ history w s events, x.2.Allowed w smram x.1) :
    Run (Step w smram) s (history w s events) (performAll w s events) := by
  induction events generalizing s with
  | nil => exact Run.nil s
  | cons e events ih =>
      have hfirst := hallowed (s, e) mem_cons_self
      exact Run.cons ⟨hfirst, rfl⟩ (ih fun x hx => hallowed x (mem_cons_of_mem _ hx))

end Runs

section Sample

/-- 16 MB of SMRAM. -/
def sampleSmram (address : Nat) : Prop :=
  0x70000000 ≤ address ∧ address < 0x71000000

def sampleState : State Nat := ⟨fun address => UInt8.ofNat address, []⟩

/-- Two boxes with neighbouring pages, and a third event. -/
def sampleEvents (e : Event Nat) : List (Event Nat) :=
  [.save (some 0) 0x1000 4096 (some 0x70000000) true,
    .save (some 1) 0x5000 32 (some 0x70001000) true, e]

theorem sample_run {e : Event Nat}
    (hallowed : ∀ s, e.Allowed 64 sampleSmram s) :
    Run (Step 64 sampleSmram) sampleState (history 64 sampleState (sampleEvents e))
      (performAll 64 sampleState (sampleEvents e)) := by
  have hclear : ∀ address length, address + length ≤ 0x70000000 →
      Clear 64 sampleSmram address length := by
    intro address length hle
    refine ⟨by omega, fun k hk hin => ?_⟩
    rw [sampleSmram] at hin
    omega
  have hinside : ∀ address length, 0x70000000 ≤ address → address + length ≤ 0x71000000 →
      ∀ k < length, sampleSmram (address + k) := by
    intro address length hlow hhigh k hk
    rw [sampleSmram]
    omega
  refine run_history ?_
  refine forall_mem_cons.mpr ⟨?_, forall_mem_cons.mpr ⟨?_, forall_mem_cons.mpr
    ⟨hallowed _, fun x hx => absurd hx not_mem_nil⟩⟩⟩
  · refine ⟨by decide, fun _ => hclear _ _ (by decide), ?_⟩
    rintro address ⟨⟩
    exact ⟨by decide, hinside _ _ (by decide) (by decide),
      fun box hbox => absurd hbox not_mem_nil⟩
  · refine ⟨by decide, fun _ => hclear _ _ (by decide), ?_⟩
    rintro address ⟨⟩
    refine ⟨by decide, hinside _ _ (by decide) (by decide), fun box hbox k _ => Or.inr ?_⟩
    rw [mem_singleton.mp hbox]
    exact le_trans (by decide) (Nat.le_add_right _ _)

/-- An update of eight bytes of the second box. -/
theorem lock_boxes_faithful_sample :
    (∀ x ∈ history 64 sampleState (sampleEvents (.update (some 1) 4 0x6000 8)),
        Faithful 64 x.1 x.2) ∧
      (performAll 64 sampleState (sampleEvents (.update (some 1) 4 0x6000 8))).vault =
        replay 64 (history 64 sampleState (sampleEvents (.update (some 1) 4 0x6000 8))) := by
  refine (lock_boxes_faithful (sample_run fun s => ?_) rfl).mpr ?_
  · refine ⟨by decide, by decide, fun _ => ⟨by decide, fun k hk hin => ?_⟩⟩
    rw [sampleSmram] at hin
    omega
  · refine forall_mem_cons.mpr ⟨id, forall_mem_cons.mpr ⟨id, forall_mem_cons.mpr
      ⟨fun hwraps => ?_, fun x hx => absurd hx not_mem_nil⟩⟩⟩
    exact absurd hwraps.2.1 (by decide)

/-- An update of the second box at `2 ^ 64 - 16` succeeds and writes the last bytes of the
first one. -/
theorem update_reaches_neighbour :
    let e : Event Nat := .update (some 1) (2 ^ 64 - 16) 0x6000 32
    let s := performAll 64 sampleState ((sampleEvents e).take 2)
    Run (Step 64 sampleSmram) sampleState (history 64 sampleState (sampleEvents e))
        (performAll 64 sampleState (sampleEvents e)) ∧
      ¬ (∀ x ∈ history 64 sampleState (sampleEvents e), Faithful 64 x.1 x.2) ∧
      (perform 64 s e).status = .success ∧
      (∃ box, internalFindLockBoxByGuid s.lockBoxQueue 0 = some box ∧
        box.smramBuffer ≤ 0x70000FF0 ∧ 0x70000FF0 < box.smramBuffer + box.length) ∧
      s.memory 0x70000FF0 = 0xF0 ∧ (perform 64 s e).state.memory 0x70000FF0 = 0 := by
  intro e s
  have hrun : Run (Step 64 sampleSmram) sampleState (history 64 sampleState (sampleEvents e))
      (performAll 64 sampleState (sampleEvents e)) := by
    refine sample_run fun s => ⟨by decide, by decide, fun _ => ⟨by decide, fun k hk hin => ?_⟩⟩
    rw [sampleSmram] at hin
    omega
  refine ⟨hrun, fun hall => ?_, by decide, ⟨_, rfl, by decide, by decide⟩, by decide, by decide⟩
  have hwraps := run_not_wraps hrun (stateOk_empty rfl) hall (s, e) (by simp [history,
    sampleEvents, s, performAll])
  exact hwraps ⟨by decide, by decide, _, rfl, by decide⟩

end Sample

end LockBox
end Udk
