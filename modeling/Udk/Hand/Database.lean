import Udk.Heap
import Udk.Variable.Format

/-!
# The handle database

Handles, protocol interfaces and their open records, and the protocol entries with the
registrations for notification.  A function that follows a link to an object which has been
freed has no result; one that only reads such an object without using what it reads sets
`stale`.
-/

namespace Udk
namespace Hand

open Variable

/-- The `EFI_STATUS` values of the database functions. -/
inductive Status
  | success
  | invalidParameter
  | outOfResources
  | unsupported
  | notFound
  | accessDenied
  | alreadyStarted
  | bufferTooSmall
  deriving DecidableEq

/-- `EFI_ERROR`. -/
def Status.isError : Status → Bool
  | .success => false
  | _ => true

/-- The values of `Attributes` that `CoreOpenProtocol` takes. -/
inductive OpenMode
  | byHandleProtocol
  | getProtocol
  | testProtocol
  | byChildController
  | byDriver
  | byDriverExclusive
  | exclusive
  deriving DecidableEq

/-- The switch over `Attributes`. -/
def OpenMode.ofAttributes (attributes : Nat) : Option OpenMode :=
  match attributes with
  | 0x01 => some .byHandleProtocol
  | 0x02 => some .getProtocol
  | 0x04 => some .testProtocol
  | 0x08 => some .byChildController
  | 0x10 => some .byDriver
  | 0x30 => some .byDriverExclusive
  | 0x20 => some .exclusive
  | _ => none

/-- `Attributes & EFI_OPEN_PROTOCOL_BY_DRIVER`. -/
def OpenMode.hasByDriver : OpenMode → Bool
  | .byDriver | .byDriverExclusive => true
  | _ => false

/-- `Attributes & EFI_OPEN_PROTOCOL_EXCLUSIVE`. -/
def OpenMode.hasExclusive : OpenMode → Bool
  | .byDriverExclusive | .exclusive => true
  | _ => false

/-- `Attributes` has one of `BY_HANDLE_PROTOCOL`, `GET_PROTOCOL` and `TEST_PROTOCOL`. -/
def OpenMode.isPassive : OpenMode → Bool
  | .byHandleProtocol | .getProtocol | .testProtocol => true
  | _ => false

/-- `OPEN_PROTOCOL_DATA`; zero is the `NULL` handle. -/
structure OpenData where
  /-- The name of the record. -/
  id : Nat
  agentHandle : Nat
  controllerHandle : Nat
  attributes : OpenMode
  openCount : Nat
  deriving DecidableEq

/-- `PROTOCOL_INTERFACE`. -/
structure ProtocolInterface where
  handle : Nat
  protocol : Guid
  interface : Nat
  openList : List OpenData
  openListCount : Nat
  deriving DecidableEq

/-- `IHANDLE`: the interfaces on its list. -/
structure IHandle where
  protocols : List Nat
  deriving DecidableEq

/-- `PROTOCOL_NOTIFY`; the position is the head of the list or an interface. -/
structure ProtocolNotify where
  id : Nat
  event : Nat
  position : Option Nat
  deriving DecidableEq

/-- `PROTOCOL_ENTRY`. -/
structure ProtocolEntry where
  protocolId : Guid
  protocols : List Nat
  notify : List ProtocolNotify
  deriving DecidableEq

/-- `gHandleList`, `mProtocolDatabase` and the objects that they lead to. -/
structure Database where
  handleList : List Nat
  entries : List ProtocolEntry
  handles : Heap IHandle
  interfaces : Heap ProtocolInterface
  /-- The first name that no open record has had. -/
  nextOpen : Nat
  /-- The first name that no registration has had. -/
  nextNotify : Nat
  stale : Bool

/-- The database at first. -/
def Database.start : Database where
  handleList := []
  entries := []
  handles := Heap.empty
  interfaces := Heap.empty
  nextOpen := 1
  nextNotify := 1
  stale := false

/-- A freed object is read. -/
def Database.readFreed (db : Database) (freed : Prop) [Decidable freed] : Database :=
  if freed then { db with stale := true } else db

/-- `CoreValidateHandle`; the signature of a freed handle is zero. -/
def coreValidateHandle (db : Database) (handle : Nat) : Database × Bool :=
  (db.readFreed (db.handles.Freed handle), (db.handles.get handle).isSome)

/-- The entry of a protocol. -/
def Database.findEntry (db : Database) (protocol : Guid) : Option ProtocolEntry :=
  db.entries.find? fun entry => entry.protocolId = protocol

/-- The entry of a protocol changed. -/
def Database.modifyEntry (db : Database) (protocol : Guid) (f : ProtocolEntry → ProtocolEntry) :
    Database :=
  { db with
    entries := db.entries.map fun entry => if entry.protocolId = protocol then f entry else entry }

/-- `CoreFindProtocolEntry` with `Create`; none when there is no pool for a new entry. -/
def coreFindProtocolEntry (db : Database) (protocol : Guid) (pool : Bool) : Option Database :=
  match db.findEntry protocol with
  | some _ => some db
  | none =>
      if pool then some { db with entries := db.entries ++ [⟨protocol, [], []⟩] } else none

/-- The first interface of a list that passes a test; no result when a link leads to a freed
interface. -/
def findLinked (interfaces : Heap ProtocolInterface) (test : ProtocolInterface → Bool) :
    List Nat → Option (Option Nat)
  | [] => some none
  | p :: ps =>
      match interfaces.get p with
      | none => none
      | some prot => if test prot then some (some p) else findLinked interfaces test ps

/-- `CoreFindProtocolInterface` for a handle that is live. -/
def coreFindProtocolInterface (db : Database) (handle : IHandle) (protocol : Guid)
    (interface : Nat) : Option (Option Nat) :=
  match db.findEntry protocol with
  | none => some none
  | some _ =>
      findLinked db.interfaces
        (fun prot => prot.interface = interface && prot.protocol = protocol) handle.protocols

/-- `CoreGetProtocolInterface` for a handle that is live. -/
def coreGetProtocolInterface (db : Database) (handle : IHandle) (protocol : Guid) :
    Option (Option Nat) :=
  findLinked db.interfaces (fun prot => prot.protocol = protocol) handle.protocols

/-- The link in front of an interface. -/
def backLink (p : Nat) : List Nat → Option Nat
  | a :: b :: list => if b = p then some a else backLink p (b :: list)
  | _ => none

/-- The link behind a position. -/
def forwardLink (position : Option Nat) (list : List Nat) : Option Nat :=
  match position with
  | none => list.head?
  | some p => (list.dropWhile fun a => a ≠ p).tail.head?

/-- `CoreRemoveInterfaceFromProtocol` for an interface that has been found: a registration
whose position it is goes back by one. -/
def coreRemoveInterfaceFromProtocol (db : Database) (protocol : Guid) (p : Nat) : Database :=
  db.modifyEntry protocol fun entry =>
    { entry with
      protocols := entry.protocols.erase p
      notify := entry.notify.map fun notify =>
        if notify.position = some p then
          { notify with position := backLink p entry.protocols }
        else notify }

end Hand
end Udk
