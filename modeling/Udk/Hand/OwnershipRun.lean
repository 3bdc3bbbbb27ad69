import Udk.Hand.HandleRun

/-!
# Ownership over runs

Who has an interface open as a driver or exclusively, over any number of calls.  An open that
has waited for drivers to stop does not look at the other records again; as long as none of
them is exclusive by then, each interface has one owner.
-/

namespace Udk
namespace Hand

open Variable

/-- Every interface has one owner. -/
def Owned (db : Database) : Prop :=
  ∀ p prot, db.interfaces.get p = some prot → Exclusive prot.openList

/-- A part that has a result leaves one owner of each interface. -/
def PartOwned (result : Option (Database × Progress)) : Prop :=
  ∀ db' progress, result = some (db', progress) → Owned db'

variable {db : Database} {h p : Nat} {handle : IHandle} {prot prot' : ProtocolInterface}
  {protocol : Guid} {interface : Nat} {frame : Frame} {pool : Pool} {purpose : Purpose}
  {agent controller attributes : Nat} {mode : OpenMode} {stopped : Bool}

theorem PartOwned.none : PartOwned none :=
  nofun

theorem PartOwned.of
    {progress : Progress}
    (howned : Owned db) :
    PartOwned (some (db, progress)) := by
  intro db' progress' heq
  cases heq
  exact howned

theorem Owned.readFreed
    (howned : Owned db)
    (freed : Prop) [Decidable freed] :
    Owned (db.readFreed freed) := by
  rw [Database.readFreed]
  split
  · exact howned
  · exact howned

theorem Owned.set
    (howned : Owned db)
    (hp : db.interfaces.get p = some prot)
    (hlist : Exclusive prot'.openList) :
    Owned { db with interfaces := db.interfaces.set p prot' } := by
  intro q prot₁ hq
  rcases (Heap.get_set_iff hp).mp hq with ⟨-, rfl⟩ | ⟨-, hq⟩
  · exact hlist
  · exact howned q prot₁ hq

theorem Owned.unlink
    (howned : Owned db)
    (h : Nat)
    (handle : IHandle)
    (protocol : Guid)
    (p : Nat) :
    Owned (unlinkInterface db h handle protocol p) :=
  fun q prot hq => howned q prot (Heap.get_free_iff.mp hq).2

theorem Owned.freeEmpty
    (howned : Owned db)
    (h : Nat) :
    Owned (freeEmptyHandle db h) := by
  rw [freeEmptyHandle]
  split
  · exact howned
  · exact howned

theorem Owned.add
    (howned : Owned db)
    (h : Nat)
    (handle : IHandle)
    (protocol : Guid)
    (interface : Nat) :
    Owned (addInterface db h handle protocol interface) := by
  intro q prot hq
  rcases Heap.get_alloc_iff.mp hq with ⟨-, rfl⟩ | ⟨-, hq⟩
  · exact exclusive_nil
  · exact howned q prot hq

section Parts

theorem validateHandles_interfaces
    (db : Database)
    (hs : List Nat) :
    (validateHandles db hs).1.interfaces = db.interfaces := by
  induction hs generalizing db with
  | nil => rfl
  | cons h hs ih =>
      have hread : (coreValidateHandle db h).1.interfaces = db.interfaces := by
        rw [coreValidateHandle, Database.readFreed]
        split
        · rfl
        · rfl
      rw [validateHandles]
      cases hvalid : coreValidateHandle db h with
      | mk db₁ valid =>
          rw [hvalid] at hread
          cases valid with
          | false => exact hread
          | true => exact (ih db₁).trans hread

theorem Owned.validate
    (howned : Owned db)
    (hs : List Nat) :
    Owned (validateHandles db hs).1 := by
  rw [Owned, validateHandles_interfaces]
  exact howned

theorem Owned.insertOpenData
    (howned : Owned db)
    (hjoin : ∀ prot, db.interfaces.get p = some prot → agent = 0 ∨ pool.openData = false ∨
      MayJoin mode prot.openList) :
    PartOwned (insertOpenData db p agent controller mode pool) := by
  rw [Hand.insertOpenData]
  by_cases hagent : agent = 0
  · rw [if_pos hagent]
    exact PartOwned.of howned
  · rw [if_neg hagent]
    by_cases hpool : pool.openData = true
    · rw [if_pos hpool]
      cases hp : db.interfaces.get p with
      | none => exact PartOwned.none
      | some prot =>
          rcases hjoin prot hp with hzero | hfalse | hjoin
          · exact absurd hzero hagent
          · rw [hpool] at hfalse
            cases hfalse
          · exact PartOwned.of (howned.set hp ((howned p prot hp).append hjoin))
    · rw [if_neg hpool]
      exact PartOwned.of howned

theorem Owned.dropPassive
    (howned : Owned db)
    (hp : db.interfaces.get p = some prot) :
    Owned (dropPassive db p prot) := by
  have hlist := (howned p prot hp).sublist
    (List.filter_sublist (p := fun data : OpenData => !data.attributes.isPassive))
  intro q prot₁ hq
  rcases (Heap.get_set_iff hp).mp hq with ⟨-, rfl⟩ | ⟨-, hq⟩
  · exact hlist
  · exact howned q prot₁ hq

theorem Owned.uninstallLocked
    (howned : Owned db)
    (h : Nat)
    (protocol : Guid)
    (interface : Nat) :
    PartOwned (uninstallLocked db h protocol interface) := by
  rw [Hand.uninstallLocked]
  split
  · exact PartOwned.none
  · split
    · exact PartOwned.none
    · exact PartOwned.of (howned.freeEmpty h)
    · exact PartOwned.of ((howned.unlink h _ protocol _).freeEmpty h)

theorem Owned.reinstallLocked
    (howned : Owned db)
    (h : Nat)
    (protocol : Guid)
    (oldInterface newInterface : Nat) :
    PartOwned (reinstallLocked db h protocol oldInterface newInterface) := by
  rw [Hand.reinstallLocked]
  split
  · exact PartOwned.none
  · split
    · exact PartOwned.none
    · exact PartOwned.of howned
    · split
      · exact PartOwned.none
      next prot hp => exact PartOwned.of (howned.set hp (howned _ prot hp))

/-- An open that goes on with no driver left finds no exclusive record, if it inserts one. -/
def JoinsAlone (purpose : Purpose) (pool : Pool) (prot : ProtocolInterface) : Prop :=
  match purpose with
  | .openProtocol agent _ _ => agent = 0 ∨ pool.openData = false ∨
      (∃ data ∈ prot.openList, data.attributes.hasByDriver = true) ∨
      ∀ data ∈ prot.openList, data.attributes.hasExclusive = false
  | _ => True

theorem Owned.disconnectNext
    (howned : Owned db)
    (hjoins : ∀ prot, db.interfaces.get p = some prot → JoinsAlone purpose pool prot)
    (h : Nat) :
    PartOwned (disconnectNext db purpose h p pool) := by
  rw [Hand.disconnectNext]
  cases hp : db.interfaces.get p with
  | none => exact PartOwned.none
  | some prot =>
      simp only
      cases hfind : prot.openList.find? fun data => data.attributes.hasByDriver with
      | some data => exact PartOwned.of howned
      | none =>
          have hdriver : ∀ data ∈ prot.openList, data.attributes.hasByDriver = false :=
            fun data hdata => Bool.eq_false_iff.mpr (List.find?_eq_none.mp hfind data hdata)
          simp only [Hand.disconnected, hp]
          cases purpose with
          | openProtocol agent controller mode =>
              refine howned.insertOpenData fun prot' hp' => ?_
              rw [hp] at hp'
              cases hp'
              rcases hjoins prot hp with hzero | hfalse | ⟨data, hdata, htrue⟩ | hexclusive
              · exact Or.inl hzero
              · exact Or.inr (Or.inl hfalse)
              · rw [hdriver data hdata] at htrue
                cases htrue
              · exact Or.inr (Or.inr (Or.inr fun data hdata =>
                  ⟨hdriver data hdata, hexclusive data hdata⟩))
          | uninstall protocol interface =>
              simp only
              split
              · exact PartOwned.of ((howned.dropPassive hp).readFreed _)
              · exact (howned.dropPassive hp).uninstallLocked h protocol interface
          | reinstall protocol oldInterface newInterface =>
              simp only
              split
              · exact PartOwned.of ((howned.dropPassive hp).readFreed _)
              · exact (howned.dropPassive hp).reinstallLocked h protocol oldInterface newInterface

/-- When the open list is looked through at once, the check decides. -/
theorem Owned.openLocked
    (howned : Owned db)
    (handle : IHandle)
    (h : Nat)
    (protocol : Guid) :
    PartOwned (openLocked db handle h protocol agent controller mode pool) := by
  rw [Hand.openLocked]
  split
  · exact PartOwned.none
  · exact PartOwned.of howned
  next p _ =>
    split
    · exact PartOwned.none
    next prot hp =>
      split
      · exact PartOwned.of howned
      next openList hscan =>
        refine PartOwned.of (howned.set hp ?_)
        exact (howned p prot hp).congr (scanOpenList_counted hscan).1
      next byDriver exclusive hscan =>
        obtain ⟨hbyDriver, hexclusive⟩ := scanOpenList_flags hscan
        split
        · exact PartOwned.of howned
        next hgranted =>
          have hnone : mode.hasExclusive = true → exclusive = false := by
            intro hmode
            cases exclusive with
            | false => rfl
            | true => exact absurd (Or.inr ⟨hmode, rfl⟩) hgranted
          split
          next hdisconnect =>
            refine howned.disconnectNext (fun prot' hp' => ?_) h
            rw [hp] at hp'
            cases hp'
            exact Or.inr (Or.inr (Or.inr (hexclusive (hnone hdisconnect.1)).2))
          next hdirect =>
            refine howned.insertOpenData fun prot' hp' => Or.inr (Or.inr ?_)
            rw [hp] at hp'
            cases hp'
            have hboth : exclusive = false → byDriver = false → MayJoin mode prot.openList :=
              fun he hb => Or.inr fun data hdata =>
                ⟨(hbyDriver hb).2 data hdata, (hexclusive he).2 data hdata⟩
            cases hmode : mode.hasExclusive with
            | true =>
                refine hboth (hnone hmode) ?_
                cases byDriver with
                | false => rfl
                | true => exact absurd ⟨hmode, rfl⟩ hdirect
            | false =>
                by_cases hdriver : mode = .byDriver
                · have hfree : ¬ (exclusive = true ∨ byDriver = true) :=
                    fun hor => hgranted (Or.inl ⟨hdriver, hor⟩)
                  exact hboth (Bool.eq_false_iff.mpr fun h => hfree (Or.inl h))
                    (Bool.eq_false_iff.mpr fun h => hfree (Or.inr h))
                · refine Or.inl ⟨?_, hmode⟩
                  cases mode
                  case byDriver => exact absurd rfl hdriver
                  case byDriverExclusive => cases hmode
                  all_goals rfl

end Parts

section Functions

variable (howned : Owned db)
include howned

theorem Owned.coreOpenProtocol
    (h : Nat)
    (protocol : Guid)
    (agent controller attributes : Nat)
    (pool : Pool) :
    PartOwned (coreOpenProtocol db h protocol agent controller attributes pool) := by
  rw [Hand.coreOpenProtocol, coreValidateHandle]
  have hread := howned.readFreed (db.handles.Freed h)
  simp only
  split
  · split
    · exact PartOwned.of hread
    · split
      · split
        · exact PartOwned.of (hread.validate _)
        · exact (hread.validate _).openLocked _ h protocol
      · exact PartOwned.of (hread.validate _)
  · exact PartOwned.of hread

theorem Owned.coreCloseProtocol
    (h : Nat)
    (protocol : Guid)
    (agent controller : Nat) :
    PartOwned (coreCloseProtocol db h protocol agent controller) := by
  rw [Hand.coreCloseProtocol]
  have hvalid := howned.validate (h :: agent :: if controller = 0 then [] else [controller])
  simp only
  split
  · split
    · exact PartOwned.none
    · exact PartOwned.of hvalid
    · split
      · exact PartOwned.none
      next prot hp =>
        exact PartOwned.of (hvalid.set hp ((hvalid _ prot hp).sublist List.filter_sublist))
  · exact PartOwned.of hvalid

theorem Owned.findAndDisconnect
    (hjoins : ∀ prot, JoinsAlone purpose pool prot)
    (h : Nat)
    (protocol : Guid)
    (interface : Nat) :
    PartOwned (findAndDisconnect db purpose h protocol interface pool) := by
  rw [Hand.findAndDisconnect, coreValidateHandle]
  have hread := howned.readFreed (db.handles.Freed h)
  simp only
  split
  · exact PartOwned.of hread
  · split
    · exact PartOwned.none
    · exact PartOwned.of hread
    · exact hread.disconnectNext (fun prot _ => hjoins prot) h

theorem Owned.linkInterface
    (h : Nat)
    (handle : IHandle)
    (protocol : Guid)
    (interface : Nat) :
    PartOwned (linkInterface db h handle protocol interface) := by
  rw [Hand.linkInterface]
  split
  · exact PartOwned.of (howned.add h handle protocol interface)
  · exact PartOwned.none

theorem Owned.coreFindProtocolEntry
    {db₁ : Database}
    {entry : Bool}
    (hentry : coreFindProtocolEntry db protocol entry = some db₁) :
    Owned db₁ := by
  rw [Hand.coreFindProtocolEntry] at hentry
  split at hentry
  · cases hentry
    exact howned
  · split at hentry
    · cases hentry
      exact howned
    · cases hentry

theorem Owned.installLocked
    (h : Nat)
    (protocol : Guid)
    (interface : Nat)
    (checked : Status) :
    PartOwned (installLocked db h protocol interface checked pool) := by
  rw [Hand.installLocked]
  split
  · exact PartOwned.of howned
  next db₁ hentry =>
    have hentered := howned.coreFindProtocolEntry hentry
    have hread := hentered.readFreed (db₁.handles.Freed h)
    simp only [coreValidateHandle]
    split
    · split
      · split
        · have hnew : Owned { db₁ with
              handles := db₁.handles.alloc ⟨[]⟩
              handleList := db₁.handleList ++ [db₁.handles.next] } := hentered
          exact hnew.linkInterface _ _ protocol interface
        · exact PartOwned.of hentered
      · split
        · exact PartOwned.of hread
        · exact hread.linkInterface h _ protocol interface
    · exact PartOwned.of hentered

theorem Owned.coreInstallProtocolInterfaceNotify
    (coreImage h : Nat)
    (protocol : Guid)
    (interface : Nat) :
    PartOwned (coreInstallProtocolInterfaceNotify coreImage db h protocol interface pool) := by
  rw [Hand.coreInstallProtocolInterfaceNotify]
  split
  · exact howned.installLocked 0 protocol interface _
  · have hopen := howned.coreOpenProtocol h protocol coreImage 0 0x01 pool
    split
    next db' hresult => exact PartOwned.of (hopen _ _ hresult)
    next db' status _ hresult => exact PartOwned.of (hopen _ _ hresult)
    · exact hopen

theorem Owned.coreRegisterProtocolNotify
    (protocol : Guid)
    (event : Nat) :
    PartOwned (some (coreRegisterProtocolNotify db protocol event pool)) := by
  rw [Hand.coreRegisterProtocolNotify]
  split
  · exact PartOwned.of howned
  next db₁ hentry =>
    have hentered := howned.coreFindProtocolEntry hentry
    simp only
    split
    · exact PartOwned.of hentered
    · exact PartOwned.of hentered

theorem Owned.coreUnregisterProtocolNotify
    (event : Nat) :
    PartOwned (some (coreUnregisterProtocolNotify db event)) := by
  rw [Hand.coreUnregisterProtocolNotify]
  split
  · exact PartOwned.of howned
  · exact PartOwned.of howned

theorem Owned.coreLocateProtocol
    {result : Database × Status × Nat}
    {registration : Option Nat}
    (hlocate : coreLocateProtocol db protocol registration = some result) :
    Owned result.1 := by
  cases registration with
  | none =>
      rw [Hand.coreLocateProtocol] at hlocate
      split at hlocate
      · cases hlocate
        exact howned
      · split at hlocate
        · cases hlocate
          exact howned
        · obtain ⟨prot, -, rfl⟩ := Option.map_eq_some_iff.mp hlocate
          exact howned
  | some registration =>
      rw [Hand.coreLocateProtocol] at hlocate
      split at hlocate
      · cases hlocate
      · cases hlocate
        exact howned
      · cases hlocate
        exact howned

theorem Owned.coreLocateHandle
    {result : Database × Status × List Nat}
    {search : Search}
    {room : Nat}
    (hlocate : coreLocateHandle db search room = some result) :
    Owned result.1 := by
  cases search with
  | allHandles =>
      cases hlocate
      exact howned
  | byRegisterNotify registration =>
      rw [Hand.coreLocateHandle] at hlocate
      simp only at hlocate
      split at hlocate
      · cases hlocate
      · cases hlocate
        exact howned
      · cases hlocate
        simp only
        split
        · exact howned
        · exact howned
  | byProtocol protocol =>
      rw [Hand.coreLocateHandle] at hlocate
      simp only at hlocate
      split at hlocate
      · cases hlocate
        exact howned
      · obtain ⟨prots, -, rfl⟩ := Option.map_eq_some_iff.mp hlocate
        exact howned

end Functions

section Steps

variable {coreImage : Nat} {call : Call} {action : Action} {s s' : State}

theorem Owned.begin
    (howned : Owned db)
    (coreImage : Nat)
    (call : Call)
    (pool : Pool) :
    PartOwned (begin coreImage db call pool) := by
  cases call with
  | install userHandle protocol interface =>
      exact howned.coreInstallProtocolInterfaceNotify coreImage userHandle protocol interface
  | uninstall userHandle protocol interface =>
      have hjoins : ∀ prot, JoinsAlone (.uninstall protocol interface) pool prot := fun _ => trivial
      exact howned.findAndDisconnect hjoins userHandle protocol interface
  | reinstall userHandle protocol oldInterface newInterface =>
      have hjoins : ∀ prot, JoinsAlone (.reinstall protocol oldInterface newInterface) pool prot :=
        fun _ => trivial
      exact howned.findAndDisconnect hjoins userHandle protocol oldInterface
  | openProtocol userHandle protocol agent controller attributes =>
      exact howned.coreOpenProtocol userHandle protocol agent controller attributes pool
  | closeProtocol userHandle protocol agent controller =>
      exact howned.coreCloseProtocol userHandle protocol agent controller
  | registerNotify protocol event => exact howned.coreRegisterProtocolNotify protocol event
  | unregisterNotify event => exact howned.coreUnregisterProtocolNotify event
  | locateProtocol protocol registration =>
      intro db' progress hbegin
      obtain ⟨result, hresult, heq⟩ := Option.map_eq_some_iff.mp hbegin
      cases heq
      exact howned.coreLocateProtocol hresult
  | locateHandle search room =>
      intro db' progress hbegin
      obtain ⟨result, hresult, heq⟩ := Option.map_eq_some_iff.mp hbegin
      cases heq
      exact howned.coreLocateHandle hresult

/-- The condition of a call that goes on. -/
def FrameJoinsAlone (db : Database) (stopped : Bool) (pool : Pool) : Frame → Prop
  | .disconnecting purpose _ p _ =>
      stopped = true → ∀ prot, db.interfaces.get p = some prot → JoinsAlone purpose pool prot
  | _ => True

theorem Owned.resume
    (howned : Owned db)
    (hjoins : FrameJoinsAlone db stopped pool frame) :
    PartOwned (resume db frame stopped pool) := by
  cases frame with
  | install userHandle protocol interface checked =>
      exact howned.installLocked userHandle protocol interface checked
  | disconnecting purpose handle p record =>
      rw [Hand.resume]
      unfold resumeDisconnecting
      cases stopped with
      | true =>
          simp only [if_true]
          split
          · exact PartOwned.none
          next prot _ =>
            refine (howned.readFreed _).disconnectNext ?_ handle
            intro prot' hp'
            rw [Database.readFreed] at hp'
            split at hp'
            · exact hjoins rfl prot' hp'
            · exact hjoins rfl prot' hp'
      | false =>
          simp only [Bool.false_eq_true, if_false]
          split
          · exact PartOwned.of howned
          · exact PartOwned.of (howned.readFreed _)
  | reconnecting | reinstalled protocol => exact PartOwned.of howned
  | unregister event => exact howned.coreUnregisterProtocolNotify event

/-- The condition of a step: an exclusive open that goes on after the last driver has stopped
finds no exclusive record. -/
def OpensAlone (s : State) : Action → Prop
  | .call _ _ => True
  | .resume index stopped pool =>
      ∀ frame, s.frames[index]? = some frame → FrameJoinsAlone s.db stopped pool frame

theorem Owned.step
    (howned : Owned s.db)
    (hok : OpensAlone s action)
    (hstep : step coreImage s action = some s') :
    Owned s'.db := by
  cases action with
  | call call pool =>
      obtain ⟨⟨db', progress⟩, hresult, rfl⟩ := Option.map_eq_some_iff.mp hstep
      exact howned.begin coreImage call pool db' progress hresult
  | resume index stopped pool =>
      rw [Hand.step] at hstep
      split at hstep
      · cases hstep
      next frame hframe =>
        obtain ⟨⟨db', progress⟩, hresult, rfl⟩ := Option.map_eq_some_iff.mp hstep
        exact howned.resume (hok frame hframe) db' progress hresult

/-- In every run whose exclusive opens find no exclusive record after the last driver has
stopped, every interface has one owner. -/
theorem interfaces_owned
    {trace : List (State × Action)}
    (hrun : Run (fun s action s' => step coreImage s action = some s') State.start trace s)
    (hok : ∀ x ∈ trace, OpensAlone x.1 x.2) :
    Owned s.db :=
  hrun.invariant (fun _ _ _ howned hok hstep => Owned.step howned hok hstep) hok nofun

/-- An interface is installed and opened exclusively. -/
theorem interfaces_owned_sample :
    ∃ trace s, Run (fun s action s' => step 1 s action = some s') State.start trace s ∧
      Owned s.db := by
  have hrun := @Run.cons State Action (fun s action s' => step 1 s action = some s') State.start _ _
    (.call (.install 0 sampleProtocol 7) .plenty) _ rfl
    (Run.single (a := .call (.openProtocol 1 sampleProtocol 1 0 0x20) .plenty) rfl)
  refine ⟨_, _, hrun, interfaces_owned hrun fun x hx => ?_⟩
  rcases List.mem_cons.mp hx with rfl | hx
  · trivial
  · rw [List.mem_singleton.mp hx]
    trivial

/-- A driver that is stopped for an exclusive open closes its record and opens the interface
exclusively itself. -/
theorem interfaces_owned_fails :
    ¬ ∀ trace s, Run (fun s action s' => step 1 s action = some s') State.start trace s →
      Owned s.db := by
  intro h
  have hmoves : (([.call (.install 0 sampleProtocol 7) .plenty,
      .call (.install 0 sampleProtocol 8) .plenty,
      .call (.install 0 sampleProtocol 9) .plenty,
      .call (.openProtocol 1 sampleProtocol 2 1 0x10) .plenty,
      .call (.openProtocol 1 sampleProtocol 3 0 0x20) .plenty,
      .call (.closeProtocol 1 sampleProtocol 2 1) .plenty,
      .call (.openProtocol 1 sampleProtocol 2 0 0x20) .plenty,
      .resume 0 true .plenty].foldlM (step 1) State.start).map fun s =>
        (s.db.interfaces.get 1).map fun prot =>
          (prot.openList.filter fun data => data.attributes.hasExclusive).length) =
      some (some 2) := by
    decide
  obtain ⟨s, hs, htwo⟩ := Option.map_eq_some_iff.mp hmoves
  obtain ⟨trace, hrun⟩ := Run.of_foldlM hs
  obtain ⟨prot, hget, hlength⟩ := Option.map_eq_some_iff.mp htwo
  have hone := (h trace s hrun 1 prot hget).exclusive
  omega

end Steps

end Hand
end Udk
