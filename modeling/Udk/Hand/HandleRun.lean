import Udk.Hand.CallSpecs
import Udk.Hand.Ownership

/-!
# Runs of the handle database

Any number of calls, each of which can wait while others run.  As long as no call is given or
comes back to an object that has been freed, no disconnected driver has closed its record, and
no protocol is added to a handle that has got it meanwhile, the links of the database stay right
and no freed object is read.
-/

namespace Udk
namespace Hand

open Variable List

variable {db db' : Database} {h p : Nat} {handle : IHandle} {prot : ProtocolInterface}
  {protocol : Guid} {interface : Nat} {frame : Frame} {pool : Pool} {purpose : Purpose}
  {agent controller attributes : Nat} {mode : OpenMode}

section Functions

theorem Sound.openLocked
    (hsound : Sound db)
    (hh : db.handles.get h = some handle)
    (protocol : Guid)
    (agent controller : Nat)
    (mode : OpenMode)
    (pool : Pool) :
    Part db (openLocked db handle h protocol agent controller mode pool) := by
  rw [Hand.openLocked]
  rcases hsound.linked.coreGetProtocolInterface hh protocol with
    ⟨hnone, -⟩ | ⟨p, prot, hsome, hp, rfl, -⟩
  · simp only [hnone]
    exact Part.returns (After.refl hsound) _
  · simp only [hsome, hp]
    cases hscan : scanOpenList agent controller mode prot.openList false false with
    | alreadyStarted =>
        exact Part.returns (After.refl hsound) _
    | counted openList =>
        refine Part.returns (hsound.setOpenList hp ?_) _
        exact (hsound.linked.count p prot hp).trans (scanOpenList_counted hscan).2.symm
    | flags byDriver exclusive =>
        simp only
        split
        · exact Part.returns (After.refl hsound) _
        · split
          · exact hsound.disconnectNext hp
              (show Releasable (.openProtocol agent controller mode) prot from trivial) pool
          · exact hsound.insertOpenData hp agent controller mode pool

/-- No handle that `CoreOpenProtocol` validates has been freed. -/
def OpensNoneFreed (db : Database) (userHandle agent controller attributes : Nat) : Prop :=
  ¬ db.handles.Freed userHandle ∧
    ((db.handles.get userHandle).isSome → ∀ mode, OpenMode.ofAttributes attributes = some mode →
      NoneFreed db (mode.handles agent controller))

theorem Sound.coreOpenProtocol
    (hsound : Sound db)
    (hnone : OpensNoneFreed db h agent controller attributes)
    (protocol : Guid)
    (pool : Pool) :
    Part db (coreOpenProtocol db h protocol agent controller attributes pool) := by
  rw [Hand.coreOpenProtocol, coreValidateHandle, readFreed_of_not hnone.1]
  cases hh : db.handles.get h with
  | none => exact Part.returns (After.refl hsound) _
  | some handle =>
      simp only [Option.isSome_some, if_true]
      cases hmode : OpenMode.ofAttributes attributes with
      | none => exact Part.returns (After.refl hsound) _
      | some mode =>
          have hfst := validateHandles_fst (hnone.2 (by rw [hh]; rfl) mode hmode)
          simp only [hfst, hh]
          split
          · exact hsound.openLocked hh protocol agent controller mode pool
          · exact Part.returns (After.refl hsound) _

/-- The handles that `CoreCloseProtocol` validates. -/
def closeHandles (userHandle agent controller : Nat) : List Nat :=
  userHandle :: agent :: if controller = 0 then [] else [controller]

theorem Sound.coreCloseProtocol
    (hsound : Sound db)
    (hnone : NoneFreed db (closeHandles h agent controller))
    (protocol : Guid) :
    Part db (coreCloseProtocol db h protocol agent controller) := by
  rw [Hand.coreCloseProtocol, show (h :: agent :: if controller = 0 then [] else [controller]) =
    closeHandles h agent controller from rfl]
  have hfst := validateHandles_fst hnone
  simp only [hfst]
  split
  next handle _ hh =>
    rcases hsound.linked.coreGetProtocolInterface hh protocol with
      ⟨hnone, -⟩ | ⟨p, prot, hsome, hp, rfl, -⟩
    · simp only [hnone]
      exact Part.returns (After.refl hsound) _
    · simp only [hsome, hp]
      refine Part.returns (hsound.setOpenList hp ?_) _
      have hcount := hsound.linked.count p prot hp
      have hle := length_filter_le (fun data : OpenData =>
        decide ¬(data.agentHandle = agent ∧ data.controllerHandle = controller)) prot.openList
      simp only [hcount]
      omega
  next => exact Part.returns (After.refl hsound) _

/-- What an uninstall or a reinstall needs at first. -/
def FindsReleasable (db : Database) (purpose : Purpose) (userHandle : Nat) (protocol : Guid)
    (interface : Nat) : Prop :=
  ¬ db.handles.Freed userHandle ∧
    ∀ p prot, db.interfaces.get p = some prot → prot.handle = userHandle →
      prot.protocol = protocol → prot.interface = interface → Releasable purpose prot

theorem Sound.findAndDisconnect
    (hsound : Sound db)
    (hrelease : FindsReleasable db purpose h protocol interface)
    (pool : Pool) :
    Part db (findAndDisconnect db purpose h protocol interface pool) := by
  rw [Hand.findAndDisconnect, coreValidateHandle, readFreed_of_not hrelease.1]
  cases hh : db.handles.get h with
  | none =>
      simp only [hh]
      exact Part.returns (After.refl hsound) _
  | some handle =>
      simp only [hh]
      rcases hsound.linked.coreFindProtocolInterface hh protocol interface with
        ⟨hnone, -⟩ | ⟨p, prot, hsome, hp, rfl, hprotocol, hinterface⟩
      · simp only [hnone]
        exact Part.returns (After.refl hsound) _
      · simp only [hsome]
        exact hsound.disconnectNext hp (hrelease.2 p prot hp rfl hprotocol hinterface) pool

/-- An interface is linked only when its handle is not freed and does not have the protocol. -/
def LinksNew (db : Database) (userHandle : Nat) (protocol : Guid) (pool : Pool) : Prop :=
  (db.findEntry protocol).isSome ∨ pool.entry = true → pool.interface = true →
    ¬ db.handles.Freed userHandle ∧
      ∀ p prot, db.interfaces.get p = some prot → prot.handle = userHandle →
        prot.protocol ≠ protocol

theorem coreFindProtocolInterface_none
    (hlinked : Linked db)
    (hh : db.handles.get h = some handle)
    (hnone : ∀ p prot, db.interfaces.get p = some prot → prot.handle = h →
      prot.protocol ≠ protocol)
    (interface : Nat) :
    coreFindProtocolInterface db handle protocol interface = some none := by
  rcases hlinked.coreFindProtocolInterface hh protocol interface with
    ⟨hfind, -⟩ | ⟨p, prot, -, hp, hhandle, hprotocol, -⟩
  · exact hfind
  · exact absurd hprotocol (hnone p prot hp hhandle)

theorem Sound.linkInterface
    (hsound : Sound db)
    (hlinked : Linked db')
    (hinterfaces : db'.interfaces = db.interfaces)
    (hstale : db'.stale = db.stale)
    (hused : ∀ h' ih, db'.handles.get h' = some ih → h' ≠ h → ih.protocols ≠ [])
    (hh : db'.handles.get h = some handle)
    (hentry : ∃ e ∈ db'.entries, e.protocolId = protocol)
    (hnone : ∀ p prot, db'.interfaces.get p = some prot → prot.handle = h →
      prot.protocol ≠ protocol)
    (interface : Nat) :
    Part db (linkInterface db' h handle protocol interface) := by
  have hunique : UniqueProtocols db' := by
    rw [UniqueProtocols, hinterfaces]
    exact hsound.unique
  rw [Hand.linkInterface, coreFindProtocolInterface_none hlinked hh hnone]
  refine ⟨_, _, rfl, ⟨hlinked.addSound hused hunique (hstale.trans hsound.fresh) hh hentry hnone
    interface, ?_, ?_⟩, fun _ hframe => absurd hframe not_mem_nil⟩
  case refine_1 =>
    rw [← hinterfaces]
    exact Nat.le_succ _
  case refine_2 =>
    rw [← hinterfaces]
    exact fun p prot' hlt hget => ⟨prot', addInterface_kept hget hlt, rfl⟩

theorem Sound.installLocked
    (hsound : Sound db)
    (hnew : LinksNew db h protocol pool)
    (interface : Nat)
    (checked : Status) :
    Part db (installLocked db h protocol interface checked pool) := by
  rw [Hand.installLocked]
  rcases hsound.coreFindProtocolEntry protocol pool.entry with
    ⟨hnone, -, -⟩ | ⟨db₁, hsome, hafter, hentry, hhandles, hinterfaces⟩
  · rw [hnone]
    exact Part.returns (After.refl hsound) _
  · have hentered : (db.findEntry protocol).isSome ∨ pool.entry = true := by
      cases hfind : db.findEntry protocol with
      | some e => exact Or.inl rfl
      | none =>
          rw [Hand.coreFindProtocolEntry, hfind] at hsome
          by_contra hno
          rw [if_neg fun hentry => hno (Or.inr hentry)] at hsome
          cases hsome
    rw [hsome]
    refine Part.after hafter ?_
    by_cases hpool : pool.interface = true
    · obtain ⟨hfreed, hunlinked⟩ := hnew hentered hpool
      simp only [hpool, if_true]
      by_cases hzero : h = 0
      · simp only [hzero, if_true]
        by_cases hhandle : pool.handle = true
        · simp only [hhandle, if_true]
          refine hafter.sound.linkInterface hafter.sound.linked.newHandle rfl rfl ?_
            Heap.get_alloc_next hentry ?_ interface
          case _ =>
            intro h' ih hih hne
            rcases Heap.get_alloc_iff.mp hih with ⟨heq, -⟩ | ⟨-, hih⟩
            · exact absurd heq hne
            · exact hafter.sound.used h' ih hih
          case _ =>
            intro p prot hp hhandle
            obtain ⟨ih, hih, -⟩ := hafter.sound.linked.onHandle p prot hp
            exact absurd (hhandle ▸ Heap.lt_next hih) (Nat.lt_irrefl _)
        · simp only [hhandle, if_false]
          exact Part.returns (After.refl hafter.sound) _
      · simp only [hzero, if_false]
        rw [← hhandles] at hfreed
        rw [← hinterfaces] at hunlinked
        simp only [coreValidateHandle, readFreed_of_not hfreed]
        cases hh : db₁.handles.get h with
        | none => exact Part.returns (After.refl hafter.sound) _
        | some handle =>
            exact hafter.sound.linkInterface hafter.sound.linked rfl rfl
              (fun h' ih hih _ => hafter.sound.used h' ih hih) hh hentry hunlinked interface
    · simp only [hpool, if_false]
      exact Part.returns (After.refl hafter.sound) _

theorem Sound.coreInstallProtocolInterfaceNotify
    (hsound : Sound db)
    (coreImage : Nat)
    (hfreed : ¬ db.handles.Freed h)
    (protocol : Guid)
    (interface : Nat)
    (pool : Pool) :
    Part db (coreInstallProtocolInterfaceNotify coreImage db h protocol interface pool) := by
  rw [Hand.coreInstallProtocolInterfaceNotify]
  by_cases hzero : h = 0
  · rw [if_pos hzero]
    refine hsound.installLocked (fun _ _ => ⟨?_, ?_⟩) interface _
    case refine_1 => exact fun hfreed => hfreed.1 rfl
    case refine_2 =>
      intro p prot hp hhandle
      obtain ⟨ih, hih, -⟩ := hsound.linked.onHandle p prot hp
      exact absurd hhandle (Heap.ne_zero hih)
  · rw [if_neg hzero]
    have hopens : OpensNoneFreed db h coreImage 0 0x01 := by
      refine ⟨hfreed, fun _ mode hmode => ?_⟩
      obtain rfl : OpenMode.byHandleProtocol = mode := Option.some.inj hmode
      trivial
    obtain ⟨db', progress, hresult, hafter, hframes⟩ := hsound.coreOpenProtocol hopens protocol pool
    rw [hresult]
    cases progress with
    | waits frame | installed handle => exact ⟨db', _, rfl, hafter, hframes⟩
    | returns status =>
        by_cases hstatus : status = .success
        · subst hstatus
          exact Part.returns hafter _
        · cases status
          case success => exact absurd rfl hstatus
          all_goals exact Part.waits hafter trivial

end Functions

/-- The registration of a search for handles. -/
def Search.registration : Search → Option Nat
  | .byRegisterNotify registration => some registration
  | _ => none

section Registrations

variable {event registration : Nat} {entries : List ProtocolEntry}

theorem Sound.coreRegisterProtocolNotify
    (hsound : Sound db)
    (protocol : Guid)
    (event : Nat)
    (pool : Pool) :
    Part db (some (coreRegisterProtocolNotify db protocol event pool)) := by
  rw [Hand.coreRegisterProtocolNotify]
  rcases hsound.coreFindProtocolEntry protocol pool.entry with
    ⟨hnone, -, -⟩ | ⟨db₁, hsome, hafter, -, -, -⟩
  · rw [hnone]
    exact Part.returns (After.refl hsound) _
  · rw [hsome]
    refine Part.after hafter ?_
    by_cases hpool : pool.notify = true
    · simp only [hpool, if_true]
      have hmodify : After db₁ (db₁.modifyEntry protocol fun entry =>
          { entry with notify := entry.notify ++ [⟨db₁.nextNotify, event, none⟩] }) := by
        refine hafter.sound.modifyEntry (fun _ => rfl) (fun _ _ _ => List.Perm.refl _) ?_
        intro e he _ n hn q hq
        rcases mem_append.mp hn with hn | hn
        · exact hafter.sound.linked.position e he n hn q hq
        · rw [mem_singleton.mp hn] at hq
          cases hq
      exact Part.returns (hmodify.rename db₁.nextOpen (db₁.nextNotify + 1)) _
    · simp only [hpool, if_false]
      exact Part.returns (After.refl hafter.sound) _

theorem removeNotify_forall₂
    (hremove : removeNotify event db.entries = some entries) :
    List.Forall₂ (fun e' e => e'.protocolId = e.protocolId ∧ e'.protocols = e.protocols ∧
      e'.notify.Sublist e.notify) entries db.entries := by
  have hsame : ∀ list : List ProtocolEntry, List.Forall₂ (fun e' e =>
      e'.protocolId = e.protocolId ∧ e'.protocols = e.protocols ∧ e'.notify.Sublist e.notify)
      list list :=
    fun list => List.forall₂_same.mpr fun _ _ => ⟨rfl, rfl, List.Sublist.refl _⟩
  generalize db.entries = list at hremove ⊢
  induction list generalizing entries with
  | nil => cases hremove
  | cons e list ih =>
      rw [removeNotify] at hremove
      split at hremove
      next =>
        cases hremove
        exact List.Forall₂.cons ⟨rfl, rfl, eraseP_sublist⟩ (hsame list)
      next =>
        obtain ⟨rest, hrest, rfl⟩ := Option.map_eq_some_iff.mp hremove
        exact List.Forall₂.cons ⟨rfl, rfl, List.Sublist.refl _⟩ (ih hrest)

theorem Sound.withEntries
    (hsound : Sound db)
    (hsame : List.Forall₂ (fun e' e => e'.protocolId = e.protocolId ∧
      e'.protocols = e.protocols ∧ e'.notify.Sublist e.notify) entries db.entries) :
    After db { db with entries } := by
  have hmem : ∀ e' ∈ entries, ∃ e ∈ db.entries, e'.protocolId = e.protocolId ∧
      e'.protocols = e.protocols ∧ e'.notify.Sublist e.notify := by
    intro e' he'
    obtain ⟨i, hi, rfl⟩ := mem_iff_getElem.mp he'
    have hi' : i < db.entries.length := hsame.length_eq ▸ hi
    exact ⟨db.entries[i], getElem_mem hi', hsame.get hi hi'⟩
  have hmem' : ∀ e ∈ db.entries, ∃ e' ∈ entries, e'.protocolId = e.protocolId ∧
      e'.protocols = e.protocols := by
    intro e he
    obtain ⟨i, hi, rfl⟩ := mem_iff_getElem.mp he
    have hi' : i < entries.length := hsame.length_eq ▸ hi
    exact ⟨entries[i], getElem_mem hi', (hsame.get hi' hi).1, (hsame.get hi' hi).2.1⟩
  have hids : entries.map ProtocolEntry.protocolId =
      db.entries.map ProtocolEntry.protocolId := by
    refine ext_getElem (by rw [length_map, length_map, hsame.length_eq]) ?_
    intro i hi hi'
    rw [getElem_map, getElem_map]
    rw [length_map] at hi hi'
    exact (hsame.get hi hi').1
  have hlinked := hsound.linked
  refine ⟨⟨⟨hlinked.handleList_nodup, hlinked.mem_handleList, hlinked.protocols_nodup,
    hlinked.ofHandle, hlinked.onHandle, ?_, ?_, ?_, ?_, hlinked.count, ?_⟩, hsound.used,
    hsound.unique, hsound.fresh⟩, Nat.le_refl _, fun _ prot _ hget => ⟨prot, hget, rfl⟩⟩
  case refine_1 => exact hids ▸ hlinked.entries_nodup
  case refine_2 =>
    intro e' he'
    obtain ⟨e, he, -, hp, -⟩ := hmem e' he'
    rw [hp]
    exact hlinked.entry_nodup e he
  case refine_3 =>
    intro e' he' p hp
    obtain ⟨e, he, hid, hprotocols, -⟩ := hmem e' he'
    rw [hid]
    exact hlinked.ofEntry e he p (hprotocols ▸ hp)
  case refine_4 =>
    intro p prot hget
    obtain ⟨e, he, hid, hp⟩ := hlinked.onEntry p prot hget
    obtain ⟨e', he', hid', hprotocols⟩ := hmem' e he
    exact ⟨e', he', hid'.trans hid, hprotocols ▸ hp⟩
  case refine_5 =>
    intro e' he' n hn q hq
    obtain ⟨e, he, -, hprotocols, hnotify⟩ := hmem e' he'
    rw [hprotocols]
    exact hlinked.position e he n (hnotify.subset hn) q hq

theorem Sound.coreUnregisterProtocolNotify
    (hsound : Sound db)
    (event : Nat) :
    Part db (some (coreUnregisterProtocolNotify db event)) := by
  rw [Hand.coreUnregisterProtocolNotify]
  cases hremove : removeNotify event db.entries with
  | none => exact Part.returns (After.refl hsound) _
  | some entries => exact Part.waits (hsound.withEntries (removeNotify_forall₂ hremove)) trivial

theorem forwardLink_mem
    {position : Option Nat}
    {list : List Nat}
    (hnext : forwardLink position list = some p) :
    p ∈ list := by
  cases position with
  | none => exact mem_of_mem_head? hnext
  | some q =>
      have hmem := mem_of_mem_head? hnext
      exact (dropWhile_sublist _).subset (mem_of_mem_tail hmem)

theorem Sound.nextByRegisterNotify
    (hsound : Sound db)
    (hregistered : (findNotify db registration).isSome) :
    ∃ entry ∈ db.entries, nextByRegisterNotify db registration = some (entry, none) ∨
      ∃ p prot, nextByRegisterNotify db registration = some (entry, some (p, prot)) ∧
        p ∈ entry.protocols := by
  obtain ⟨⟨entry, notify⟩, hfind⟩ := Option.isSome_iff_exists.mp hregistered
  obtain ⟨e, he, hmap⟩ := exists_of_findSome?_eq_some hfind
  obtain ⟨n, hn, heq⟩ := Option.map_eq_some_iff.mp hmap
  cases heq
  refine ⟨entry, he, ?_⟩
  have hposition : ∀ q, notify.position = some q → q ∈ entry.protocols :=
    hsound.linked.position entry he notify (mem_of_find?_eq_some hn)
  rw [Hand.nextByRegisterNotify, hfind]
  simp only [if_pos hposition]
  cases hnext : forwardLink notify.position entry.protocols with
  | none => exact Or.inl rfl
  | some p =>
      have hmem := forwardLink_mem hnext
      obtain ⟨prot, hget, -⟩ := hsound.linked.ofEntry entry he p hmem
      exact Or.inr ⟨p, prot, by simp only [hget, Option.map_some], hmem⟩

theorem Sound.movePosition
    {entry : ProtocolEntry}
    (hsound : Sound db)
    (hentry : entry ∈ db.entries)
    (hmem : p ∈ entry.protocols)
    (registration : Nat) :
    After db (movePosition db entry registration p) := by
  refine hsound.modifyEntry (fun _ => rfl) (fun _ _ _ => List.Perm.refl _) ?_
  intro e he hid n hn q hq
  obtain rfl := hsound.linked.entry_eq he hentry hid
  obtain ⟨old, hold, rfl⟩ := mem_map.mp hn
  split at hq
  next =>
    cases hq
    exact hmem
  next => exact hsound.linked.position e he old hold q hq

/-- The registration of a search is there. -/
def Registered (db : Database) : Option Nat → Prop
  | none => True
  | some registration => (findNotify db registration).isSome

theorem Sound.coreLocateProtocol
    {registration : Option Nat}
    (hsound : Sound db)
    (hregistered : Registered db registration)
    (protocol : Guid) :
    ∃ result, coreLocateProtocol db protocol registration = some result ∧ After db result.1 := by
  cases registration with
  | none =>
      rw [Hand.coreLocateProtocol]
      cases hfind : db.findEntry protocol with
      | none => exact ⟨_, rfl, After.refl hsound⟩
      | some entry =>
          cases hlist : entry.protocols with
          | nil =>
              simp only [hlist]
              exact ⟨_, rfl, After.refl hsound⟩
          | cons p ps =>
              obtain ⟨prot, hget, -⟩ := hsound.linked.ofEntry entry (findEntry_some hfind).1 p
                (hlist ▸ mem_cons_self)
              simp only [hlist, hget, Option.map_some]
              exact ⟨_, rfl, After.refl hsound⟩
  | some registration =>
      obtain ⟨entry, he, hnone | ⟨p, prot, hsome, hmem⟩⟩ :=
        hsound.nextByRegisterNotify hregistered
      · rw [Hand.coreLocateProtocol, hnone]
        exact ⟨_, rfl, After.refl hsound⟩
      · rw [Hand.coreLocateProtocol, hsome]
        exact ⟨_, rfl, hsound.movePosition he hmem _⟩

theorem mapM_isSome
    {heap : Heap ProtocolInterface} :
    ∀ list : List Nat, (∀ p ∈ list, ∃ prot, heap.get p = some prot) →
      ∃ prots, list.mapM heap.get = some prots := by
  intro list hlist
  induction list with
  | nil => exact ⟨[], rfl⟩
  | cons p list ih =>
      obtain ⟨prot, hget⟩ := hlist p mem_cons_self
      obtain ⟨prots, hprots⟩ := ih fun q hq => hlist q (mem_cons_of_mem p hq)
      exact ⟨prot :: prots, by rw [mapM_cons, hget, hprots]; rfl⟩

theorem Sound.coreLocateHandle
    {search : Search}
    (hsound : Sound db)
    (hregistered : Registered db search.registration)
    (room : Nat) :
    ∃ result, coreLocateHandle db search room = some result ∧ After db result.1 := by
  cases search with
  | allHandles => exact ⟨_, rfl, After.refl hsound⟩
  | byRegisterNotify registration =>
      rw [Hand.coreLocateHandle]
      obtain ⟨entry, he, hnone | ⟨p, prot, hsome, hmem⟩⟩ :=
        hsound.nextByRegisterNotify hregistered
      · simp only [hnone]
        exact ⟨_, rfl, After.refl hsound⟩
      · simp only [hsome]
        refine ⟨_, rfl, ?_⟩
        by_cases hroom : 1 ≤ room
        · simp only [if_pos hroom]
          exact hsound.movePosition he hmem registration
        · simp only [if_neg hroom]
          exact After.refl hsound
  | byProtocol protocol =>
      rw [Hand.coreLocateHandle]
      cases hfind : db.findEntry protocol with
      | none => exact ⟨_, rfl, After.refl hsound⟩
      | some entry =>
          obtain ⟨prots, hprots⟩ := mapM_isSome entry.protocols fun p hp => by
            obtain ⟨prot, hget, -⟩ := hsound.linked.ofEntry entry (findEntry_some hfind).1 p hp
            exact ⟨prot, hget⟩
          simp only [linkedInterfaces, hprots, Option.map_some]
          exact ⟨_, rfl, After.refl hsound⟩

end Registrations

section Steps

variable {coreImage : Nat} {call : Call} {action : Action} {stopped : Bool} {s s' : State}

/-- What a call needs when it begins: it is given no freed handle and no freed registration, and
an interface to take away has a driver or no passive record. -/
def CallOk (db : Database) : Call → Prop
  | .install userHandle _ _ => ¬ db.handles.Freed userHandle
  | .uninstall userHandle protocol interface =>
      FindsReleasable db (.uninstall protocol interface) userHandle protocol interface
  | .reinstall userHandle protocol oldInterface newInterface =>
      FindsReleasable db (.reinstall protocol oldInterface newInterface) userHandle protocol
        oldInterface
  | .openProtocol userHandle _ agent controller attributes =>
      OpensNoneFreed db userHandle agent controller attributes
  | .closeProtocol userHandle _ agent controller =>
      NoneFreed db (closeHandles userHandle agent controller)
  | .registerNotify _ _ => True
  | .unregisterNotify _ => True
  | .locateProtocol _ registration => Registered db registration
  | .locateHandle search _ => Registered db search.registration

/-- What a call needs when it goes on: the handle of an install does not have the protocol
meanwhile, and a driver that has stopped has left its record on the interface. -/
def FrameReady (db : Database) (stopped : Bool) (pool : Pool) : Frame → Prop
  | .install userHandle protocol _ _ => LinksNew db userHandle protocol pool
  | .disconnecting purpose handle p record =>
      if stopped then
        ∃ prot, db.interfaces.get p = some prot ∧ (∃ data ∈ prot.openList, data.id = record) ∧
          Releasable purpose prot
      else
        match purpose with
        | .openProtocol _ _ _ => True
        | _ => ¬ db.handles.Freed handle
  | _ => True

theorem Sound.begin
    (hsound : Sound db)
    (hcall : CallOk db call)
    (coreImage : Nat)
    (pool : Pool) :
    Part db (begin coreImage db call pool) := by
  cases call with
  | install userHandle protocol interface =>
      exact hsound.coreInstallProtocolInterfaceNotify coreImage hcall protocol interface pool
  | uninstall userHandle protocol interface => exact hsound.findAndDisconnect hcall pool
  | reinstall userHandle protocol oldInterface newInterface =>
      exact hsound.findAndDisconnect hcall pool
  | openProtocol userHandle protocol agent controller attributes =>
      exact hsound.coreOpenProtocol hcall protocol pool
  | closeProtocol userHandle protocol agent controller =>
      exact hsound.coreCloseProtocol hcall protocol
  | registerNotify protocol event => exact hsound.coreRegisterProtocolNotify protocol event pool
  | unregisterNotify event => exact hsound.coreUnregisterProtocolNotify event
  | locateProtocol protocol registration =>
      obtain ⟨result, hresult, hafter⟩ := hsound.coreLocateProtocol hcall protocol
      rw [Hand.begin, hresult]
      exact Part.returns hafter _
  | locateHandle search room =>
      obtain ⟨result, hresult, hafter⟩ := hsound.coreLocateHandle hcall room
      rw [Hand.begin, hresult]
      exact Part.returns hafter _

theorem Sound.resume
    (hsound : Sound db)
    (hframe : FrameOk db frame)
    (hready : FrameReady db stopped pool frame) :
    Part db (resume db frame stopped pool) := by
  cases frame with
  | install userHandle protocol interface checked =>
      exact hsound.installLocked hready interface checked
  | disconnecting purpose handle p record =>
      rw [Hand.resume]
      unfold resumeDisconnecting
      cases stopped with
      | true =>
          obtain ⟨prot, hp, ⟨data, hdata, hid⟩, hrelease⟩ := hready
          obtain rfl := hframe.2 prot hp
          simp only [if_true, hp]
          rw [readFreed_of_not fun hall => hall data hdata hid]
          exact hsound.disconnectNext hp hrelease pool
      | false =>
          simp only [Bool.false_eq_true, if_false]
          cases purpose with
          | openProtocol agent controller mode => exact Part.returns (After.refl hsound) _
          | uninstall protocol interface
          | reinstall protocol oldInterface newInterface => exact hsound.refuse hready
  | reconnecting | reinstalled protocol => exact Part.returns (After.refl hsound) _
  | unregister event => exact hsound.coreUnregisterProtocolNotify event

/-- Nothing is installed and no call waits. -/
def State.start : State :=
  ⟨Database.start, []⟩

/-- The condition of a step. -/
def StepOk (s : State) : Action → Prop
  | .call call _ => CallOk s.db call
  | .resume index stopped pool =>
      ∀ frame, s.frames[index]? = some frame → FrameReady s.db stopped pool frame

/-- A call that goes on is one that waits. -/
def Enabled (s : State) : Action → Prop
  | .call _ _ => True
  | .resume index _ _ => index < s.frames.length

/-- The invariant of the runs. -/
structure StateOk (s : State) : Prop where
  sound : Sound s.db
  frames : ∀ frame ∈ s.frames, FrameOk s.db frame

theorem StateOk.part
    {rest : List Frame}
    {progress : Progress}
    (hs : StateOk s)
    (hafter : After s.db db')
    (hframes : ∀ frame ∈ progress.frames, FrameOk db' frame)
    (hrest : ∀ frame ∈ rest, frame ∈ s.frames) :
    StateOk ⟨db', progress.frames ++ rest⟩ := by
  refine ⟨hafter.sound, fun frame hframe => ?_⟩
  rcases mem_append.mp hframe with hnew | hold
  · exact hframes frame hnew
  · exact (hs.frames frame (hrest frame hold)).after hafter

theorem StateOk.step
    (hs : StateOk s)
    (hok : StepOk s action)
    (henabled : Enabled s action) :
    ∃ s', step coreImage s action = some s' ∧ StateOk s' := by
  cases action with
  | call call pool =>
      obtain ⟨db', progress, hresult, hafter, hframes⟩ := hs.sound.begin hok coreImage pool
      exact ⟨_, by rw [Hand.step, hresult]; rfl, hs.part hafter hframes fun _ h => h⟩
  | resume index stopped pool =>
      have hget := getElem?_eq_getElem henabled
      have hmem := getElem_mem henabled
      obtain ⟨db', progress, hresult, hafter, hframes⟩ :=
        hs.sound.resume (hs.frames _ hmem) (hok _ hget)
      refine ⟨_, by simp only [Hand.step, hget, hresult]; rfl, hs.part hafter hframes ?_⟩
      exact fun _ h => mem_of_mem_eraseIdx h

theorem Enabled.of_step
    (hstep : step coreImage s action = some s') :
    Enabled s action := by
  cases action with
  | call call pool => trivial
  | resume index stopped pool =>
      by_contra hnot
      rw [step, getElem?_eq_none (Nat.le_of_not_lt hnot)] at hstep
      cases hstep

theorem start_linked : Linked Database.start where
  handleList_nodup := nodup_nil
  mem_handleList := fun _ =>
    ⟨fun hmem => absurd hmem not_mem_nil, fun ⟨_, hget⟩ => nomatch hget⟩
  protocols_nodup := nofun
  ofHandle := nofun
  onHandle := nofun
  entries_nodup := nodup_nil
  entry_nodup := nofun
  ofEntry := nofun
  onEntry := nofun
  count := nofun
  position := nofun

theorem StateOk.start : StateOk State.start :=
  ⟨⟨start_linked, nofun, nofun, rfl⟩, nofun⟩

/-- In every run whose steps meet their conditions the links of the database are right and no
freed object has been read, and no next step that meets its condition follows a link to one. -/
theorem handleDatabase_sound
    {trace : List (State × Action)}
    (hrun : Run (fun s action s' => step coreImage s action = some s') State.start trace s)
    (hok : ∀ x ∈ trace, StepOk x.1 x.2) :
    Sound s.db ∧
      ∀ action, Enabled s action → StepOk s action → (step coreImage s action).isSome := by
  have hs : StateOk s := by
    refine hrun.invariant (fun s₁ a s₂ hs₁ hok₁ hstep => ?_) hok StateOk.start
    obtain ⟨s', hs', hok'⟩ := hs₁.step hok₁ (Enabled.of_step hstep)
    rw [hstep] at hs'
    cases hs'
    exact hok'
  refine ⟨hs.sound, fun action henabled hok => ?_⟩
  obtain ⟨s', hs', -⟩ := hs.step hok henabled
  rw [hs']
  rfl

/-- A protocol. -/
def sampleProtocol : Guid :=
  ⟨List.replicate 16 1, by decide⟩

/-- Every allocation succeeds. -/
def Pool.plenty : Pool :=
  ⟨true, true, true, true, true⟩

/-- A protocol is installed on a new handle and then found. -/
theorem handleDatabase_sound_sample :
    ∃ trace s, Run (fun s action s' => step 1 s action = some s') State.start trace s ∧
      s.db.handleList = [1] ∧ Sound s.db := by
  have hrun := @Run.cons State Action (fun s action s' => step 1 s action = some s') State.start _ _
    (.call (.install 0 sampleProtocol 7) .plenty) _ rfl
    (Run.single (a := .call (.locateProtocol sampleProtocol none) .plenty) rfl)
  refine ⟨_, _, hrun, rfl, (handleDatabase_sound hrun fun x hx => ?_).1⟩
  rcases mem_cons.mp hx with rfl | hx
  · exact fun hfreed => hfreed.1 rfl
  · rw [mem_singleton.mp hx]
    trivial

/-- An uninstall after a `HandleProtocol` reads the link of the record that it has freed. -/
theorem handleDatabase_readsFreed :
    ¬ ∀ trace s, Run (fun s action s' => step 1 s action = some s') State.start trace s →
      Sound s.db := by
  intro h
  have hmoves : (([.call (.install 0 sampleProtocol 7) .plenty,
      .call (.openProtocol 1 sampleProtocol 1 0 0x01) .plenty,
      .call (.uninstall 1 sampleProtocol 7) .plenty].foldlM (step 1) State.start).map
      fun s => s.db.stale) = some true := by
    decide
  obtain ⟨s, hs, hstale⟩ := Option.map_eq_some_iff.mp hmoves
  obtain ⟨trace, hrun⟩ := Run.of_foldlM hs
  rw [(h trace s hrun).fresh] at hstale
  cases hstale

end Steps

end Hand
end Udk
