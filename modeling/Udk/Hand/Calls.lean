import Udk.Hand.Database

/-!
# The functions of the handle database

Each function is cut into the parts that it runs while it owns the protocol lock.  Between
two parts other calls can come: a driver that is stopped or started, or an event.
-/

namespace Udk
namespace Hand

open Variable

/-- Which allocations of a part succeed. -/
structure Pool where
  entry : Bool
  interface : Bool
  handle : Bool
  openData : Bool
  notify : Bool

/-- What a function does after it has disconnected the drivers. -/
inductive Purpose
  | openProtocol (agent controller : Nat) (mode : OpenMode)
  | uninstall (protocol : Guid) (interface : Nat)
  | reinstall (protocol : Guid) (oldInterface newInterface : Nat)
  deriving DecidableEq

/-- A function that has released the lock and goes on later. -/
inductive Frame
  /-- `CoreInstallProtocolInterfaceNotify` after its call of `CoreHandleProtocol`. -/
  | install (handle : Nat) (protocol : Guid) (interface : Nat) (checked : Status)
  /-- A call of `CoreDisconnectController` for an open record. -/
  | disconnecting (purpose : Purpose) (handle p record : Nat)
  /-- A call of `CoreConnectController` after a driver has refused to stop. -/
  | reconnecting
  /-- A call of `CoreConnectController` after an interface has been reinstalled. -/
  | reinstalled (protocol : Guid)
  /-- The loop of `CoreUnregisterProtocolNotify`. -/
  | unregister (event : Nat)
  deriving DecidableEq

/-- The end of a part. -/
inductive Progress
  | waits (frame : Frame)
  | returns (status : Status)
  /-- `CoreInstallProtocolInterfaceNotify` returns `EFI_SUCCESS` and the handle. -/
  | installed (handle : Nat)
  deriving DecidableEq

/-- The loop of `CoreOpenProtocol` over the open list. -/
inductive Scan
  | alreadyStarted
  | counted (openList : List OpenData)
  | flags (byDriver exclusive : Bool)

/-- The open list is looked through for the same open record and for the two flags. -/
def scanOpenList (agent controller : Nat) (mode : OpenMode) :
    List OpenData → Bool → Bool → Scan
  | [], byDriver, exclusive => .flags byDriver exclusive
  | data :: list, byDriver, exclusive =>
      let exactMatch := data.agentHandle = agent ∧ data.attributes = mode ∧
        data.controllerHandle = controller
      if data.attributes.hasByDriver ∧ exactMatch then .alreadyStarted
      else if ¬ data.attributes.hasExclusive ∧ exactMatch then
        .counted ({ data with openCount := data.openCount + 1 } :: list)
      else
        match scanOpenList agent controller mode list (byDriver || data.attributes.hasByDriver)
          (exclusive || data.attributes.hasExclusive) with
        | .counted list => .counted (data :: list)
        | scan => scan

/-- The new record of `CoreOpenProtocol`. -/
def insertOpenData (db : Database) (p agent controller : Nat) (mode : OpenMode) (pool : Pool) :
    Option (Database × Progress) :=
  if agent = 0 then some (db, .returns .success)
  else if pool.openData then
    match db.interfaces.get p with
    | none => none
    | some prot =>
        some
          ({ db with
              interfaces := db.interfaces.set p
                { prot with
                  openList := prot.openList ++ [⟨db.nextOpen, agent, controller, mode, 1⟩]
                  openListCount := prot.openListCount + 1 }
              nextOpen := db.nextOpen + 1 },
            .returns .success)
  else some (db, .returns .outOfResources)

/-- The number of the open records that are left after the passive ones are removed. -/
def openListLeft (prot : ProtocolInterface) : Nat :=
  prot.openListCount -
    (prot.openList.length - (prot.openList.filter fun data => !data.attributes.isPassive).length)

/-- The loop of `CoreDisconnectControllersUsingProtocolInterface` that removes the records
of `BY_HANDLE_PROTOCOL`, `GET_PROTOCOL` and `TEST_PROTOCOL`; it reads the link of each record
that it has just freed. -/
def dropPassive (db : Database) (p : Nat) (prot : ProtocolInterface) : Database :=
  let kept := prot.openList.filter fun data => !data.attributes.isPassive
  { db.readFreed (kept.length < prot.openList.length) with
    interfaces := db.interfaces.set p
      { prot with
        openList := kept
        openListCount := openListLeft prot } }

/-- `CoreConnectController` for the drivers that have been disconnected. -/
def refuse (db : Database) (handle : Nat) : Database × Progress :=
  ((coreValidateHandle db handle).1, .waits .reconnecting)

/-- An interface that has been found is taken off the lists of its protocol and its handle,
and freed. -/
def unlinkInterface (db : Database) (handle : Nat) (h : IHandle) (protocol : Guid) (p : Nat) :
    Database :=
  let db := coreRemoveInterfaceFromProtocol db protocol p
  { db with
    handles := db.handles.set handle ⟨h.protocols.erase p⟩
    interfaces := db.interfaces.free p }

/-- A handle without interfaces is freed. -/
def freeEmptyHandle (db : Database) (handle : Nat) : Database :=
  if db.handles.get handle = some ⟨[]⟩ then
    { db with
      handles := db.handles.free handle
      handleList := db.handleList.erase handle }
  else db

/-- The last part of `CoreUninstallProtocolInterface`. -/
def uninstallLocked (db : Database) (handle : Nat) (protocol : Guid) (interface : Nat) :
    Option (Database × Progress) :=
  match db.handles.get handle with
  | none => none
  | some h =>
      match coreFindProtocolInterface db h protocol interface with
      | none => none
      | some none => some (freeEmptyHandle db handle, .returns .notFound)
      | some (some p) =>
          some (freeEmptyHandle (unlinkInterface db handle h protocol p) handle, .returns .success)

/-- The part of `CoreReinstallProtocolInterface` up to `CoreConnectController`. -/
def reinstallLocked (db : Database) (handle : Nat) (protocol : Guid)
    (oldInterface newInterface : Nat) : Option (Database × Progress) :=
  match db.handles.get handle with
  | none => none
  | some h =>
      match coreFindProtocolInterface db h protocol oldInterface with
      | none => none
      | some none => some (db, .returns .notFound)
      | some (some p) =>
          match db.interfaces.get p with
          | none => none
          | some prot =>
              let db := coreRemoveInterfaceFromProtocol db protocol p
              let db := { db with
                interfaces := db.interfaces.set p { prot with interface := newInterface } }
              let db := db.modifyEntry protocol fun entry =>
                { entry with protocols := entry.protocols ++ [p] }
              some (db, .waits (.reinstalled protocol))

/-- What follows when no driver is left to disconnect. -/
def disconnected (db : Database) (purpose : Purpose) (handle p : Nat) (pool : Pool) :
    Option (Database × Progress) :=
  match db.interfaces.get p with
  | none => none
  | some prot =>
      match purpose with
      | .openProtocol agent controller mode => insertOpenData db p agent controller mode pool
      | .uninstall protocol interface =>
          if 0 < openListLeft prot then some (refuse (dropPassive db p prot) handle)
          else uninstallLocked (dropPassive db p prot) handle protocol interface
      | .reinstall protocol oldInterface newInterface =>
          if 0 < openListLeft prot then some (refuse (dropPassive db p prot) handle)
          else reinstallLocked (dropPassive db p prot) handle protocol oldInterface newInterface

/-- The next driver to disconnect. -/
def disconnectNext (db : Database) (purpose : Purpose) (handle p : Nat) (pool : Pool) :
    Option (Database × Progress) :=
  match db.interfaces.get p with
  | none => none
  | some prot =>
      match prot.openList.find? fun data => data.attributes.hasByDriver with
      | some data => some (db, .waits (.disconnecting purpose handle p data.id))
      | none => disconnected db purpose handle p pool

/-- The handles that `CoreOpenProtocol` validates besides the user's. -/
def OpenMode.handles (mode : OpenMode) (agent controller : Nat) : List Nat :=
  match mode with
  | .byChildController | .byDriver | .byDriverExclusive => [agent, controller]
  | .exclusive => [agent]
  | _ => []

/-- Some handles are validated up to the first one that is not valid. -/
def validateHandles (db : Database) : List Nat → Database × Bool
  | [] => (db, true)
  | handle :: handles =>
      let (db, valid) := coreValidateHandle db handle
      if valid then validateHandles db handles else (db, false)

/-- The part of `CoreOpenProtocol` up to the first driver to disconnect. -/
def openLocked (db : Database) (handle : IHandle) (userHandle : Nat) (protocol : Guid)
    (agent controller : Nat) (mode : OpenMode) (pool : Pool) : Option (Database × Progress) :=
  match coreGetProtocolInterface db handle protocol with
  | none => none
  | some none => some (db, .returns .unsupported)
  | some (some p) =>
      match db.interfaces.get p with
      | none => none
      | some prot =>
          match scanOpenList agent controller mode prot.openList false false with
          | .alreadyStarted => some (db, .returns .alreadyStarted)
          | .counted openList =>
              some ({ db with interfaces := db.interfaces.set p { prot with openList } },
                .returns .success)
          | .flags byDriver exclusive =>
              if (mode = .byDriver ∧ (exclusive ∨ byDriver)) ∨ (mode.hasExclusive ∧ exclusive) then
                some (db, .returns .accessDenied)
              else if mode.hasExclusive ∧ byDriver then
                disconnectNext db (.openProtocol agent controller mode) userHandle p pool
              else insertOpenData db p agent controller mode pool

/-- `CoreOpenProtocol`. -/
def coreOpenProtocol (db : Database) (userHandle : Nat) (protocol : Guid)
    (agent controller attributes : Nat) (pool : Pool) : Option (Database × Progress) :=
  let (db, valid) := coreValidateHandle db userHandle
  if valid then
    match OpenMode.ofAttributes attributes with
    | none => some (db, .returns .invalidParameter)
    | some mode =>
        let (db, valid) := validateHandles db (mode.handles agent controller)
        if valid ∧ ¬ (mode = .byChildController ∧ userHandle = controller) then
          match db.handles.get userHandle with
          | none => some (db, .returns .unsupported)
          | some handle => openLocked db handle userHandle protocol agent controller mode pool
        else some (db, .returns .invalidParameter)
  else some (db, .returns .invalidParameter)

/-- `CoreCloseProtocol`. -/
def coreCloseProtocol (db : Database) (userHandle : Nat) (protocol : Guid)
    (agent controller : Nat) : Option (Database × Progress) :=
  let (db, valid) := validateHandles db
    (userHandle :: agent :: if controller = 0 then [] else [controller])
  match valid, db.handles.get userHandle with
  | true, some handle =>
      match coreGetProtocolInterface db handle protocol with
      | none => none
      | some none => some (db, .returns .notFound)
      | some (some p) =>
          match db.interfaces.get p with
          | none => none
          | some prot =>
              let kept := prot.openList.filter fun data =>
                ¬ (data.agentHandle = agent ∧ data.controllerHandle = controller)
              let closed := prot.openList.length - kept.length
              some
                ({ db with
                    interfaces := db.interfaces.set p
                      { prot with
                        openList := kept
                        openListCount := prot.openListCount - closed } },
                  .returns (if closed = 0 then .notFound else .success))
  | _, _ => some (db, .returns .invalidParameter)

/-- The first part of `CoreUninstallProtocolInterface` and `CoreReinstallProtocolInterface`:
the interface is looked for and its drivers are disconnected. -/
def findAndDisconnect (db : Database) (purpose : Purpose) (userHandle : Nat) (protocol : Guid)
    (interface : Nat) (pool : Pool) : Option (Database × Progress) :=
  let (db, _) := coreValidateHandle db userHandle
  match db.handles.get userHandle with
  | none => some (db, .returns .invalidParameter)
  | some handle =>
      match coreFindProtocolInterface db handle protocol interface with
      | none => none
      | some none => some (db, .returns .notFound)
      | some (some p) => disconnectNext db purpose userHandle p pool

/-- `CoreUninstallProtocolInterface`. -/
def coreUninstallProtocolInterface (db : Database) (userHandle : Nat) (protocol : Guid)
    (interface : Nat) (pool : Pool) : Option (Database × Progress) :=
  findAndDisconnect db (.uninstall protocol interface) userHandle protocol interface pool

/-- `CoreReinstallProtocolInterface`. -/
def coreReinstallProtocolInterface (db : Database) (userHandle : Nat) (protocol : Guid)
    (oldInterface newInterface : Nat) (pool : Pool) : Option (Database × Progress) :=
  findAndDisconnect db (.reinstall protocol oldInterface newInterface) userHandle protocol
    oldInterface pool

/-- A new interface at the head of its handle's list and at the tail of its protocol's. -/
def addInterface (db : Database) (handle : Nat) (h : IHandle) (protocol : Guid)
    (interface : Nat) : Database :=
  let p := db.interfaces.next
  let db := { db with
    interfaces := db.interfaces.alloc ⟨handle, protocol, interface, [], 0⟩
    handles := db.handles.set handle ⟨p :: h.protocols⟩ }
  db.modifyEntry protocol fun entry => { entry with protocols := entry.protocols ++ [p] }

/-- The interface is linked; no result when the assertion fails that the handle does not have
it yet. -/
def linkInterface (db : Database) (handle : Nat) (h : IHandle) (protocol : Guid)
    (interface : Nat) : Option (Database × Progress) :=
  match coreFindProtocolInterface db h protocol interface with
  | some none => some (addInterface db handle h protocol interface, .installed handle)
  | _ => none

/-- The part of `CoreInstallProtocolInterfaceNotify` that owns the lock. -/
def installLocked (db : Database) (userHandle : Nat) (protocol : Guid) (interface : Nat)
    (checked : Status) (pool : Pool) : Option (Database × Progress) :=
  match coreFindProtocolEntry db protocol pool.entry with
  | none => some (db, .returns checked)
  | some db =>
      if pool.interface then
        if userHandle = 0 then
          if pool.handle then
            let handle := db.handles.next
            linkInterface { db with
                handles := db.handles.alloc ⟨[]⟩
                handleList := db.handleList ++ [handle] } handle ⟨[]⟩ protocol interface
          else some (db, .returns .outOfResources)
        else
          let (db, _) := coreValidateHandle db userHandle
          match db.handles.get userHandle with
          | none => some (db, .returns .invalidParameter)
          | some h => linkInterface db userHandle h protocol interface
      else some (db, .returns .outOfResources)

/-- `CoreInstallProtocolInterfaceNotify`; `coreImage` is `gDxeCoreImageHandle`. -/
def coreInstallProtocolInterfaceNotify (coreImage : Nat) (db : Database) (userHandle : Nat)
    (protocol : Guid) (interface : Nat) (pool : Pool) : Option (Database × Progress) :=
  if userHandle = 0 then installLocked db 0 protocol interface .outOfResources pool
  else
    match coreOpenProtocol db userHandle protocol coreImage 0 0x01 pool with
    | some (db, .returns .success) => some (db, .returns .invalidParameter)
    | some (db, .returns status) =>
        some (db, .waits (.install userHandle protocol interface status))
    | result => result

/-- `CoreRegisterProtocolNotify`. -/
def coreRegisterProtocolNotify (db : Database) (protocol : Guid) (event : Nat) (pool : Pool) :
    Database × Progress :=
  match coreFindProtocolEntry db protocol pool.entry with
  | none => (db, .returns .outOfResources)
  | some db =>
      if pool.notify then
        ({ db.modifyEntry protocol fun entry =>
            { entry with notify := entry.notify ++ [⟨db.nextNotify, event, none⟩] } with
            nextNotify := db.nextNotify + 1 },
          .returns .success)
      else (db, .returns .outOfResources)

/-- The first registration of an event removed. -/
def removeNotify (event : Nat) : List ProtocolEntry → Option (List ProtocolEntry)
  | [] => none
  | entry :: entries =>
      if entry.notify.any fun notify => notify.event = event then
        some ({ entry with notify := entry.notify.eraseP fun notify => notify.event = event } ::
          entries)
      else (removeNotify event entries).map (entry :: ·)

/-- `CoreUnregisterProtocolNotifyEvent`, which `CoreUnregisterProtocolNotify` repeats. -/
def coreUnregisterProtocolNotify (db : Database) (event : Nat) : Database × Progress :=
  match removeNotify event db.entries with
  | some entries => ({ db with entries }, .waits (.unregister event))
  | none => (db, .returns .success)

/-- The entry with a registration, and the registration. -/
def findNotify (db : Database) (registration : Nat) : Option (ProtocolEntry × ProtocolNotify) :=
  db.entries.findSome? fun entry =>
    (entry.notify.find? fun notify => notify.id = registration).map fun notify => (entry, notify)

/-- `CoreGetNextLocateByRegisterNotify`: the interface behind the position of a registration;
no result when the registration or the position is not there any more. -/
def nextByRegisterNotify (db : Database) (registration : Nat) :
    Option (ProtocolEntry × Option (Nat × ProtocolInterface)) :=
  match findNotify db registration with
  | none => none
  | some (entry, notify) =>
      if ∀ q, notify.position = some q → q ∈ entry.protocols then
        match forwardLink notify.position entry.protocols with
        | none => some (entry, none)
        | some p => (db.interfaces.get p).map fun prot => (entry, some (p, prot))
      else none

/-- The position of a registration moved to an interface. -/
def movePosition (db : Database) (entry : ProtocolEntry) (registration p : Nat) : Database :=
  db.modifyEntry entry.protocolId fun entry =>
    { entry with
      notify := entry.notify.map fun notify =>
        if notify.id = registration then { notify with position := some p } else notify }

/-- The interfaces of a protocol; no result when one of them has been freed. -/
def linkedInterfaces (db : Database) (entry : ProtocolEntry) : Option (List ProtocolInterface) :=
  entry.protocols.mapM db.interfaces.get

/-- `CoreLocateProtocol`: the database, the status and the interface. -/
def coreLocateProtocol (db : Database) (protocol : Guid) (registration : Option Nat) :
    Option (Database × Status × Nat) :=
  match registration with
  | none =>
      match db.findEntry protocol with
      | none => some (db, .notFound, 0)
      | some entry =>
          match entry.protocols with
          | [] => some (db, .notFound, 0)
          | p :: _ => (db.interfaces.get p).map fun prot => (db, .success, prot.interface)
  | some registration =>
      match nextByRegisterNotify db registration with
      | none => none
      | some (_, none) => some (db, .notFound, 0)
      | some (entry, some (p, prot)) =>
          some (movePosition db entry registration p, .success, prot.interface)

/-- The searches of `CoreLocateHandle`. -/
inductive Search
  | allHandles
  | byRegisterNotify (registration : Nat)
  | byProtocol (protocol : Guid)

/-- `CoreLocateHandle` with room for some handles: the database, the status and the handles. -/
def coreLocateHandle (db : Database) (search : Search) (room : Nat) :
    Option (Database × Status × List Nat) :=
  let status (handles : List Nat) : Status :=
    if handles = [] then .notFound else if handles.length ≤ room then .success else .bufferTooSmall
  match search with
  | .allHandles => some (db, status db.handleList, db.handleList.take room)
  | .byRegisterNotify registration =>
      match nextByRegisterNotify db registration with
      | none => none
      | some (_, none) => some (db, .notFound, [])
      | some (entry, some (p, prot)) =>
          some (if 1 ≤ room then movePosition db entry registration p else db,
            status [prot.handle], [prot.handle].take room)
  | .byProtocol protocol =>
      match db.findEntry protocol with
      | none => some (db, .notFound, [])
      | some entry =>
          (linkedInterfaces db entry).map fun prots =>
            let handles := (prots.map ProtocolInterface.handle).eraseDups
            (db, status handles, handles.take room)

/-- The calls of the database functions. -/
inductive Call
  | install (userHandle : Nat) (protocol : Guid) (interface : Nat)
  | uninstall (userHandle : Nat) (protocol : Guid) (interface : Nat)
  | reinstall (userHandle : Nat) (protocol : Guid) (oldInterface newInterface : Nat)
  | openProtocol (userHandle : Nat) (protocol : Guid) (agent controller attributes : Nat)
  | closeProtocol (userHandle : Nat) (protocol : Guid) (agent controller : Nat)
  | registerNotify (protocol : Guid) (event : Nat)
  | unregisterNotify (event : Nat)
  | locateProtocol (protocol : Guid) (registration : Option Nat)
  | locateHandle (search : Search) (room : Nat)

/-- The first part of a call. -/
def begin (coreImage : Nat) (db : Database) (call : Call) (pool : Pool) :
    Option (Database × Progress) :=
  match call with
  | .install userHandle protocol interface =>
      coreInstallProtocolInterfaceNotify coreImage db userHandle protocol interface pool
  | .uninstall userHandle protocol interface =>
      coreUninstallProtocolInterface db userHandle protocol interface pool
  | .reinstall userHandle protocol oldInterface newInterface =>
      coreReinstallProtocolInterface db userHandle protocol oldInterface newInterface pool
  | .openProtocol userHandle protocol agent controller attributes =>
      coreOpenProtocol db userHandle protocol agent controller attributes pool
  | .closeProtocol userHandle protocol agent controller =>
      coreCloseProtocol db userHandle protocol agent controller
  | .registerNotify protocol event => some (coreRegisterProtocolNotify db protocol event pool)
  | .unregisterNotify event => some (coreUnregisterProtocolNotify db event)
  | .locateProtocol protocol registration =>
      (coreLocateProtocol db protocol registration).map fun result =>
        (result.1, .returns result.2.1)
  | .locateHandle search room =>
      (coreLocateHandle db search room).map fun result => (result.1, .returns result.2.1)

/-- A driver that should have stopped has stopped or not.  After a success the loop reads the
link of the record, which may be gone by then. -/
def resumeDisconnecting (db : Database) (purpose : Purpose) (handle p record : Nat)
    (stopped : Bool) (pool : Pool) : Option (Database × Progress) :=
  if stopped then
    match db.interfaces.get p with
    | none => none
    | some prot =>
        disconnectNext (db.readFreed (∀ data ∈ prot.openList, data.id ≠ record)) purpose handle p
          pool
  else
    match purpose with
    | .openProtocol _ _ _ => some (db, .returns .accessDenied)
    | _ => some (refuse db handle)

/-- A call that waits goes on; `stopped` is the result of `CoreDisconnectController`. -/
def resume (db : Database) (frame : Frame) (stopped : Bool) (pool : Pool) :
    Option (Database × Progress) :=
  match frame with
  | .install userHandle protocol interface checked =>
      installLocked db userHandle protocol interface checked pool
  | .disconnecting purpose handle p record =>
      resumeDisconnecting db purpose handle p record stopped pool
  | .reconnecting => some (db, .returns .accessDenied)
  | .reinstalled _ => some (db, .returns .success)
  | .unregister event => some (coreUnregisterProtocolNotify db event)

/-- The database and the calls that wait. -/
structure State where
  db : Database
  frames : List Frame

/-- A call begins, or one of those that wait goes on. -/
inductive Action
  | call (call : Call) (pool : Pool)
  | resume (index : Nat) (stopped : Bool) (pool : Pool)

/-- The call that waits after a part. -/
def Progress.frames : Progress → List Frame
  | .waits frame => [frame]
  | _ => []

/-- One step, where it has a result. -/
def step (coreImage : Nat) (s : State) (action : Action) : Option State :=
  match action with
  | .call call pool =>
      (begin coreImage s.db call pool).map fun (db, progress) => ⟨db, progress.frames ++ s.frames⟩
  | .resume index stopped pool =>
      match s.frames[index]? with
      | none => none
      | some frame =>
          (resume s.db frame stopped pool).map fun (db, progress) =>
            ⟨db, progress.frames ++ s.frames.eraseIdx index⟩

end Hand
end Udk
