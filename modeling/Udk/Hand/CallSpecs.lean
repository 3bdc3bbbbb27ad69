import Udk.Hand.Links
import Udk.Runs

/-!
# The parts of the calls keep the links

What a part needs so that it follows no link to a freed object and reads no such object, and
that it then leaves the links of the database as they have to be.
-/

namespace Udk
namespace Hand

open Variable List

/-- The links are right, and no freed object has been read. -/
structure Sound (db : Database) : Prop where
  linked : Linked db
  used : HandlesUsed db
  unique : UniqueProtocols db
  fresh : db.stale = false

/-- The database after a part: it is sound, and the interfaces that are still there are on
the same handles. -/
structure After (db db' : Database) : Prop where
  sound : Sound db'
  next_le : db.interfaces.next ≤ db'.interfaces.next
  kept : ∀ p prot', p < db.interfaces.next → db'.interfaces.get p = some prot' →
    ∃ prot, db.interfaces.get p = some prot ∧ prot'.handle = prot.handle

/-- A call that waits for a driver knows the handle of the interface, if that is still there. -/
def FrameOk (db : Database) : Frame → Prop
  | .disconnecting _ handle p _ =>
      p < db.interfaces.next ∧ ∀ prot, db.interfaces.get p = some prot → prot.handle = handle
  | _ => True

/-- A part has a result, and the database is sound after it. -/
def Part (db : Database) (result : Option (Database × Progress)) : Prop :=
  ∃ db' progress, result = some (db', progress) ∧ After db db' ∧
    ∀ frame ∈ progress.frames, FrameOk db' frame

variable {db db' db'' : Database} {h p : Nat} {handle : IHandle} {prot prot' : ProtocolInterface}
  {protocol : Guid} {interface : Nat} {f : ProtocolEntry → ProtocolEntry} {frame : Frame}
  {result : Option (Database × Progress)} {pool : Pool}

theorem After.refl
    (hsound : Sound db) :
    After db db :=
  ⟨hsound, Nat.le_refl _, fun _ prot _ hget => ⟨prot, hget, rfl⟩⟩

theorem After.trans
    (h₁ : After db db')
    (h₂ : After db' db'') :
    After db db'' := by
  refine ⟨h₂.sound, h₁.next_le.trans h₂.next_le, fun p prot'' hlt hget => ?_⟩
  obtain ⟨prot', hget', hhandle'⟩ := h₂.kept p prot'' (Nat.lt_of_lt_of_le hlt h₁.next_le) hget
  obtain ⟨prot, hget₀, hhandle⟩ := h₁.kept p prot' hlt hget'
  exact ⟨prot, hget₀, hhandle'.trans hhandle⟩

section

variable (hafter : After db db')
include hafter

theorem After.rename
    (nextOpen nextNotify : Nat) :
    After db { db' with nextOpen, nextNotify } := by
  obtain ⟨⟨⟨h₁, h₂, h₃, h₄, h₅, h₆, h₇, h₈, h₉, h₁₀, h₁₁⟩, hused, hunique, hfresh⟩, hle, hkept⟩ :=
    hafter
  exact ⟨⟨⟨h₁, h₂, h₃, h₄, h₅, h₆, h₇, h₈, h₉, h₁₀, h₁₁⟩, hused, hunique, hfresh⟩, hle, hkept⟩

theorem FrameOk.after
    (hframe : FrameOk db frame) :
    FrameOk db' frame := by
  cases frame with
  | disconnecting purpose handle p record =>
      obtain ⟨hlt, hhandle⟩ := hframe
      refine ⟨Nat.lt_of_lt_of_le hlt hafter.next_le, fun prot' hget => ?_⟩
      obtain ⟨prot, hget', hsame⟩ := hafter.kept p prot' hlt hget
      exact hsame.trans (hhandle prot hget')
  | install handle protocol interface checked | reconnecting | reinstalled protocol
  | unregister event => trivial

theorem Part.after
    (hpart : Part db' result) :
    Part db result := by
  obtain ⟨db'', progress, hresult, hafter', hframes⟩ := hpart
  exact ⟨db'', progress, hresult, hafter.trans hafter', hframes⟩

theorem Part.returns
    (status : Status) :
    Part db (some (db', .returns status)) :=
  ⟨db', _, rfl, hafter, fun _ hframe => absurd hframe not_mem_nil⟩

theorem Part.waits
    (hframe : FrameOk db' frame) :
    Part db (some (db', .waits frame)) :=
  ⟨db', _, rfl, hafter, fun _ hmem => mem_singleton.mp hmem ▸ hframe⟩

end

section Changes

theorem Sound.setInterface
    (hsound : Sound db)
    (hget : db.interfaces.get p = some prot)
    (hhandle : prot'.handle = prot.handle)
    (hprotocol : prot'.protocol = prot.protocol)
    (hcount : prot'.openListCount = prot'.openList.length) :
    After db { db with interfaces := db.interfaces.set p prot' } := by
  have hold : ∀ q prot₁, (db.interfaces.set p prot').get q = some prot₁ →
      ∃ prot₀, db.interfaces.get q = some prot₀ ∧ prot₁.handle = prot₀.handle ∧
        prot₁.protocol = prot₀.protocol := by
    intro q prot₁ hq
    rcases (Heap.get_set_iff hget).mp hq with ⟨rfl, rfl⟩ | ⟨-, hq⟩
    · exact ⟨prot, hget, hhandle, hprotocol⟩
    · exact ⟨prot₁, hq, rfl, rfl⟩
  refine ⟨⟨hsound.linked.setInterface hget hhandle hprotocol hcount, hsound.used, ?_,
    hsound.fresh⟩, Nat.le_of_eq Heap.next_set.symm, ?_⟩
  case refine_1 =>
    intro q q' prot₁ prot₂ hq hq' hh hp
    obtain ⟨old, hget₁, hh₁, hp₁⟩ := hold q prot₁ hq
    obtain ⟨old', hget₂, hh₂, hp₂⟩ := hold q' prot₂ hq'
    exact hsound.unique q q' old old' hget₁ hget₂ (hh₁.symm.trans (hh.trans hh₂))
      (hp₁.symm.trans (hp.trans hp₂))
  case refine_2 =>
    intro q prot₁ _ hq
    obtain ⟨old, hget₁, hh₁, -⟩ := hold q prot₁ hq
    exact ⟨old, hget₁, hh₁⟩

theorem Sound.setOpenList
    {openList : List OpenData}
    {openListCount : Nat}
    (hsound : Sound db)
    (hget : db.interfaces.get p = some prot)
    (hcount : openListCount = openList.length) :
    After db { db with
      interfaces := db.interfaces.set p { prot with openList, openListCount } } :=
  hsound.setInterface hget rfl rfl hcount

theorem Sound.modifyEntry
    (hsound : Sound db)
    (hid : ∀ e, (f e).protocolId = e.protocolId)
    (hperm : ∀ e ∈ db.entries, e.protocolId = protocol → (f e).protocols.Perm e.protocols)
    (hposition : ∀ e ∈ db.entries, e.protocolId = protocol →
      ∀ n ∈ (f e).notify, ∀ q, n.position = some q → q ∈ e.protocols) :
    After db (db.modifyEntry protocol f) :=
  ⟨⟨hsound.linked.modifyEntry hid hperm hposition, hsound.used, hsound.unique, hsound.fresh⟩,
    Nat.le_refl _, fun _ prot _ hget => ⟨prot, hget, rfl⟩⟩

theorem Sound.coreFindProtocolEntry
    (hsound : Sound db)
    (protocol : Guid)
    (pool : Bool) :
    (coreFindProtocolEntry db protocol pool = none ∧ db.findEntry protocol = none ∧
        pool = false) ∨
      ∃ db', coreFindProtocolEntry db protocol pool = some db' ∧ After db db' ∧
        (∃ e ∈ db'.entries, e.protocolId = protocol) ∧ db'.handles = db.handles ∧
        db'.interfaces = db.interfaces := by
  rw [Hand.coreFindProtocolEntry]
  cases hfind : db.findEntry protocol with
  | some e =>
      exact Or.inr ⟨db, rfl, After.refl hsound, ⟨e, findEntry_some hfind⟩, rfl, rfl⟩
  | none =>
      cases pool with
      | false => exact Or.inl ⟨rfl, rfl, rfl⟩
      | true =>
          refine Or.inr ⟨_, rfl, ⟨⟨hsound.linked.newEntry (findEntry_none hfind), hsound.used,
            hsound.unique, hsound.fresh⟩, Nat.le_refl _,
            fun _ prot _ hget => ⟨prot, hget, rfl⟩⟩, ?_, rfl, rfl⟩
          exact ⟨_, mem_append_right _ (mem_singleton_self _), rfl⟩

theorem unlink_interfaces :
    (freeEmptyHandle (unlinkInterface db h handle protocol p) h).interfaces =
      db.interfaces.free p := by
  rw [freeEmptyHandle]
  split
  · rfl
  · rfl

theorem HandlesUsed.unlink
    (hused : HandlesUsed db)
    (hh : db.handles.get h = some handle)
    (protocol : Guid)
    (p : Nat) :
    HandlesUsed (freeEmptyHandle (unlinkInterface db h handle protocol p) h) := by
  intro h' ih hih hempty
  have hset : ∀ {ih'}, (db.handles.set h ⟨handle.protocols.erase p⟩).get h' = some ih' →
      h' ≠ h → ih'.protocols ≠ [] := by
    intro ih' hih' hne
    rcases (Heap.get_set_iff hh).mp hih' with ⟨heq, -⟩ | ⟨-, hih'⟩
    · exact absurd heq hne
    · exact hused h' ih' hih'
  rw [freeEmptyHandle] at hih
  split at hih
  next hfree =>
    obtain ⟨hne, hih⟩ := Heap.get_free_iff.mp hih
    exact hset hih hne hempty
  next hkeep =>
    by_cases hsame : h' = h
    · subst hsame
      exact hkeep (hih.trans (congrArg some (congrArg IHandle.mk hempty)))
    · exact hset hih hsame hempty

theorem Sound.unlink
    (hsound : Sound db)
    (hp : db.interfaces.get p = some prot)
    (hh : db.handles.get prot.handle = some handle) :
    After db (freeEmptyHandle (unlinkInterface db prot.handle handle prot.protocol p)
      prot.handle) := by
  have hstale : (freeEmptyHandle (unlinkInterface db prot.handle handle prot.protocol p)
      prot.handle).stale = db.stale := by
    rw [freeEmptyHandle]
    split
    · rfl
    · rfl
  refine ⟨⟨(hsound.linked.unlink hp hh).freeEmpty _, hsound.used.unlink hh _ _, ?_,
    hstale.trans hsound.fresh⟩, ?_, ?_⟩
  case refine_1 =>
    rw [UniqueProtocols, unlink_interfaces]
    intro q q' prot₁ prot₂ hq hq'
    exact hsound.unique q q' prot₁ prot₂ (Heap.get_free_iff.mp hq).2 (Heap.get_free_iff.mp hq').2
  case refine_2 =>
    rw [unlink_interfaces]
    exact Nat.le_refl _
  case refine_3 =>
    rw [unlink_interfaces]
    exact fun q prot₁ _ hq => ⟨prot₁, (Heap.get_free_iff.mp hq).2, rfl⟩

theorem handlesUsed_add
    (hused : ∀ h' ih, db.handles.get h' = some ih → h' ≠ h → ih.protocols ≠ [])
    (hh : db.handles.get h = some handle)
    (protocol : Guid)
    (interface : Nat) :
    HandlesUsed (addInterface db h handle protocol interface) := by
  intro h' ih hih
  rcases (Heap.get_set_iff hh).mp hih with ⟨-, rfl⟩ | ⟨hne, hih⟩
  · exact cons_ne_nil _ _
  · exact hused h' ih hih hne

theorem Linked.addSound
    (hlinked : Linked db)
    (hused : ∀ h' ih, db.handles.get h' = some ih → h' ≠ h → ih.protocols ≠ [])
    (hunique : UniqueProtocols db)
    (hfresh : db.stale = false)
    (hh : db.handles.get h = some handle)
    (hentry : ∃ e ∈ db.entries, e.protocolId = protocol)
    (hnone : ∀ p prot, db.interfaces.get p = some prot → prot.handle = h →
      prot.protocol ≠ protocol)
    (interface : Nat) :
    Sound (addInterface db h handle protocol interface) := by
  refine ⟨hlinked.add hh hentry interface, handlesUsed_add hused hh protocol interface, ?_,
    hfresh⟩
  intro q q' prot₁ prot₂ hq hq' hhandle hprotocol
  rcases Heap.get_alloc_iff.mp hq with ⟨rfl, rfl⟩ | ⟨-, hq⟩
  · rcases Heap.get_alloc_iff.mp hq' with ⟨rfl, -⟩ | ⟨-, hq'⟩
    · rfl
    · exact absurd hprotocol.symm (hnone q' prot₂ hq' hhandle.symm)
  · rcases Heap.get_alloc_iff.mp hq' with ⟨rfl, rfl⟩ | ⟨-, hq'⟩
    · exact absurd hprotocol (hnone q prot₁ hq hhandle)
    · exact hunique q q' prot₁ prot₂ hq hq' hhandle hprotocol

theorem addInterface_kept
    (hget : (addInterface db h handle protocol interface).interfaces.get p = some prot)
    (hlt : p < db.interfaces.next) :
    db.interfaces.get p = some prot := by
  rcases Heap.get_alloc_iff.mp hget with ⟨rfl, -⟩ | ⟨-, hget⟩
  · exact absurd hlt (Nat.lt_irrefl _)
  · exact hget

end Changes

section Validation

theorem readFreed_of_not
    {freed : Prop} [Decidable freed]
    (hnot : ¬ freed) :
    db.readFreed freed = db :=
  if_neg hnot

@[simp] theorem readFreed_handles
    {freed : Prop} [Decidable freed] :
    (db.readFreed freed).handles = db.handles := by
  rw [Database.readFreed]
  split
  · rfl
  · rfl

theorem not_freed
    (hh : db.handles.get h = some handle) :
    ¬ db.handles.Freed h := by
  rintro ⟨-, -, hnone⟩
  rw [hh] at hnone
  cases hnone

/-- No freed handle is validated before the first one that is not valid. -/
def NoneFreed (db : Database) : List Nat → Prop
  | [] => True
  | h :: hs => ¬ db.handles.Freed h ∧ ((db.handles.get h).isSome → NoneFreed db hs)

theorem validateHandles_fst
    {hs : List Nat}
    (hnone : NoneFreed db hs) :
    (validateHandles db hs).1 = db := by
  induction hs with
  | nil => rfl
  | cons h hs ih =>
      obtain ⟨hfreed, hrest⟩ := hnone
      rw [validateHandles, coreValidateHandle, readFreed_of_not hfreed]
      cases hvalid : (db.handles.get h).isSome with
      | false => rfl
      | true => exact ih (hrest hvalid)

theorem Sound.refuse
    (hsound : Sound db)
    (hnot : ¬ db.handles.Freed h) :
    Part db (some (Hand.refuse db h)) := by
  rw [Hand.refuse, coreValidateHandle, readFreed_of_not hnot]
  exact Part.waits (After.refl hsound) trivial

end Validation

section Parts

variable {agent controller : Nat} {mode : OpenMode} {purpose : Purpose}

theorem Sound.insertOpenData
    (hsound : Sound db)
    (hp : db.interfaces.get p = some prot)
    (agent controller : Nat)
    (mode : OpenMode)
    (pool : Pool) :
    Part db (insertOpenData db p agent controller mode pool) := by
  rw [Hand.insertOpenData]
  by_cases hagent : agent = 0
  · rw [if_pos hagent]
    exact Part.returns (After.refl hsound) _
  · rw [if_neg hagent]
    by_cases hpool : pool.openData = true
    · rw [if_pos hpool, hp]
      have hafter : After db { db with
          interfaces := db.interfaces.set p
            { prot with
              openList := prot.openList ++ [⟨db.nextOpen, agent, controller, mode, 1⟩]
              openListCount := prot.openListCount + 1 } } := by
        refine hsound.setOpenList hp ?_
        rw [length_append, hsound.linked.count p prot hp]
        rfl
      exact Part.returns (hafter.rename (db.nextOpen + 1) db.nextNotify) _
    · rw [if_neg hpool]
      exact Part.returns (After.refl hsound) _

@[simp] theorem dropPassive_handles : (Hand.dropPassive db p prot).handles = db.handles := by
  simp only [Hand.dropPassive, Database.readFreed]
  split
  · rfl
  · rfl

theorem Sound.dropPassive
    (hsound : Sound db)
    (hp : db.interfaces.get p = some prot)
    (hpassive : ∀ data ∈ prot.openList, data.attributes.isPassive = false) :
    After db (dropPassive db p prot) := by
  have hkept : (prot.openList.filter fun data => !data.attributes.isPassive) = prot.openList :=
    filter_eq_self.mpr fun data hdata => by rw [hpassive data hdata, Bool.not_false]
  rw [Hand.dropPassive]
  simp only [hkept, openListLeft]
  rw [readFreed_of_not (Nat.lt_irrefl _)]
  refine hsound.setOpenList hp ?_
  rw [Nat.sub_self, Nat.sub_zero]
  exact hsound.linked.count p prot hp

theorem Sound.uninstallLocked
    (hsound : Sound db)
    (hh : db.handles.get h = some handle)
    (protocol : Guid)
    (interface : Nat) :
    Part db (uninstallLocked db h protocol interface) := by
  rw [Hand.uninstallLocked, hh]
  rcases hsound.linked.coreFindProtocolInterface hh protocol interface with
    ⟨hnone, -⟩ | ⟨p, prot, hsome, hp, rfl, rfl, -⟩
  · have hkeep : freeEmptyHandle db h = db := by
      rw [freeEmptyHandle, if_neg]
      intro hempty
      exact hsound.used h _ hempty rfl
    simp only [hnone, hkeep]
    exact Part.returns (After.refl hsound) _
  · simp only [hsome]
    exact Part.returns (hsound.unlink hp hh) _

theorem modifyEntry_comp
    (db : Database)
    (protocol : Guid)
    (f g : ProtocolEntry → ProtocolEntry)
    (hid : ∀ e, (f e).protocolId = e.protocolId) :
    (db.modifyEntry protocol f).modifyEntry protocol g =
      db.modifyEntry protocol fun e => g (f e) := by
  rw [Database.modifyEntry, Database.modifyEntry, Database.modifyEntry, map_map]
  congr 1
  refine map_congr_left fun e _ => ?_
  rw [Function.comp_apply]
  by_cases he : e.protocolId = protocol
  · rw [if_pos he, if_pos ((hid e).trans he), if_pos he]
  · rw [if_neg he, if_neg he, if_neg he]

/-- The last part of a reinstall on a live handle: the interface goes to the end of its
protocol's list. -/
theorem Sound.reinstallLocked
    (hsound : Sound db)
    (hh : db.handles.get h = some handle)
    (protocol : Guid)
    (oldInterface newInterface : Nat) :
    Part db (reinstallLocked db h protocol oldInterface newInterface) := by
  rw [Hand.reinstallLocked, hh]
  rcases hsound.linked.coreFindProtocolInterface hh protocol oldInterface with
    ⟨hnone, -⟩ | ⟨p, prot, hsome, hp, rfl, rfl, -⟩
  · simp only [hnone]
    exact Part.returns (After.refl hsound) _
  · simp only [hsome, hp]
    refine Part.waits ?_ trivial
    have hafter : After db { db with
        interfaces := db.interfaces.set p { prot with interface := newInterface } } :=
      hsound.setInterface hp rfl rfl (hsound.linked.count p prot hp)
    have hcomp := modifyEntry_comp
      { db with interfaces := db.interfaces.set p { prot with interface := newInterface } }
      prot.protocol
      (fun entry =>
        { entry with
          protocols := entry.protocols.erase p
          notify := entry.notify.map fun notify =>
            if notify.position = some p then
              { notify with position := backLink p entry.protocols }
            else notify })
      (fun entry => { entry with protocols := entry.protocols ++ [p] }) fun _ => rfl
    refine hafter.trans (Eq.subst (motive := After _) hcomp.symm
      (hafter.sound.modifyEntry (fun _ => rfl) ?_ ?_))
    case refine_1 =>
      intro e he hid
      obtain ⟨e', he', hid', hmem⟩ := hsound.linked.onEntry p prot hp
      obtain rfl := hsound.linked.entry_eq he he' (hid.trans hid'.symm)
      exact (perm_append_singleton p _).trans (perm_cons_erase hmem).symm
    case refine_2 =>
      intro e he _ n hn q hq
      obtain ⟨old, hold, rfl⟩ := mem_map.mp hn
      by_cases hat : old.position = some p
      · rw [if_pos hat] at hq
        exact mem_of_mem_erase (backLink_mem (hsound.linked.entry_nodup e he) hq)
      · rw [if_neg hat] at hq
        exact hsound.linked.position e he old hold q hq

/-- Before the interface is taken away, a driver has it open or no passive record is left. -/
def Releasable (purpose : Purpose) (prot : ProtocolInterface) : Prop :=
  match purpose with
  | .openProtocol _ _ _ => True
  | _ => (∃ data ∈ prot.openList, data.attributes.hasByDriver = true) ∨
      ∀ data ∈ prot.openList, data.attributes.isPassive = false

theorem Sound.disconnected
    (hsound : Sound db)
    (hp : db.interfaces.get p = some prot)
    (hrelease : Releasable purpose prot)
    (hdriver : ∀ data ∈ prot.openList, data.attributes.hasByDriver = false)
    (pool : Pool) :
    Part db (disconnected db purpose prot.handle p pool) := by
  rw [Hand.disconnected, hp]
  obtain ⟨handle, hh, -⟩ := hsound.linked.onHandle p prot hp
  rw [← @dropPassive_handles db p prot] at hh
  have hpassive : ∀ {q : Prop}, (∃ data ∈ prot.openList, data.attributes.hasByDriver = true) ∨ q →
      q := by
    rintro q (⟨data, hdata, htrue⟩ | hq)
    · rw [hdriver data hdata] at htrue
      cases htrue
    · exact hq
  cases purpose with
  | openProtocol agent controller mode => exact hsound.insertOpenData hp agent controller mode pool
  | uninstall protocol interface =>
      have hafter := hsound.dropPassive hp (hpassive hrelease)
      refine Part.after hafter ?_
      by_cases hleft : 0 < openListLeft prot
      · simp only [hleft, if_true]
        exact hafter.sound.refuse (not_freed hh)
      · simp only [hleft, if_false]
        exact hafter.sound.uninstallLocked hh protocol interface
  | reinstall protocol oldInterface newInterface =>
      have hafter := hsound.dropPassive hp (hpassive hrelease)
      refine Part.after hafter ?_
      by_cases hleft : 0 < openListLeft prot
      · simp only [hleft, if_true]
        exact hafter.sound.refuse (not_freed hh)
      · simp only [hleft, if_false]
        exact hafter.sound.reinstallLocked hh protocol oldInterface newInterface

theorem Sound.disconnectNext
    (hsound : Sound db)
    (hp : db.interfaces.get p = some prot)
    (hrelease : Releasable purpose prot)
    (pool : Pool) :
    Part db (disconnectNext db purpose prot.handle p pool) := by
  rw [Hand.disconnectNext, hp]
  cases hfind : prot.openList.find? fun data => data.attributes.hasByDriver with
  | some data =>
      simp only [hfind]
      refine Part.waits (After.refl hsound) ⟨Heap.lt_next hp, fun prot' hget => ?_⟩
      rw [hp] at hget
      cases hget
      rfl
  | none =>
      simp only [hfind]
      exact hsound.disconnected hp hrelease
        (fun data hdata => Bool.eq_false_iff.mpr (find?_eq_none.mp hfind data hdata)) pool

end Parts

end Hand
end Udk
