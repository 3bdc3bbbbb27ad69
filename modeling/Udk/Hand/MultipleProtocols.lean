import Udk.Bytes
import Udk.Hand.Calls

/-!
# Lists of protocols

`CoreInstallMultipleProtocolInterfaces` and `CoreUninstallMultipleProtocolInterfaces`.  They
call the functions of the database one after the other, and what they call does not wait: the
first one runs at `TPL_NOTIFY`, and an uninstall waits only for drivers.
-/

namespace Udk
namespace Hand

open Variable

/-- `gEfiDevicePathProtocolGuid`. -/
def devicePathGuid : Guid :=
  ⟨[0x91, 0x6e, 0x57, 0x09, 0x3f, 0x6d, 0xd2, 0x11, 0x8e, 0x39, 0x00, 0xa0, 0xc9, 0x69, 0x72, 0x3b],
    rfl⟩

/-- A device path: the nodes of its first instance, and what comes between them and the end
node. -/
structure DevicePath where
  first : Bytes
  others : Bytes

/-- The device path without its end node. -/
def DevicePath.nodes (path : DevicePath) : Bytes :=
  path.first ++ path.others

/-- `IsDevicePathEnd` at some distance from the start of a device path. -/
def DevicePath.isEndAt (path : DevicePath) (distance : Nat) : Bool :=
  ((path.nodes ++ [0x7f, 0xff, 0x04, 0x00]).drop distance).take 2 = [0x7f, 0xff]

/-- A protocol and an interface of the list, with the allocations of the call that it leads
to. -/
structure Pair where
  protocol : Guid
  interface : Nat
  pool : Pool
  /-- There is pool for the buffer of handles. -/
  buffer : Bool
  /-- There is pool for an open record on a handle of that buffer. -/
  records : Nat → Bool

/-- `CoreHandleProtocol`: the status and the interface. -/
def coreHandleProtocol (coreImage : Nat) (db : Database) (handle : Nat) (protocol : Guid)
    (pool : Pool) : Option (Database × Status × Nat) :=
  match coreOpenProtocol db handle protocol coreImage 0 0x01 pool with
  | some (db', .returns status) =>
      match db.handles.get handle with
      | none => some (db', status, 0)
      | some h =>
          match coreGetProtocolInterface db h protocol with
          | none => none
          | some none => some (db', status, 0)
          | some (some p) => (db.interfaces.get p).map fun prot => (db', status, prot.interface)
  | _ => none

/-- The handles that `CoreLocateHandleBuffer` finds for a protocol; none without pool. -/
def handleBuffer (db : Database) (protocol : Guid) (buffer : Bool) : Option (List Nat) :=
  match db.findEntry protocol with
  | none => some []
  | some entry =>
      (linkedInterfaces db entry).map fun prots =>
        if buffer then (prots.map ProtocolInterface.handle).eraseDups else []

/-- The loop of `CoreLocateDevicePath`: the size of the best match. -/
def bestMatch (coreImage : Nat) (paths : Nat → DevicePath) (source : DevicePath) (pair : Pair) :
    Database → List Nat → Option Nat → Option (Database × Option Nat)
  | db, [], best => some (db, best)
  | db, handle :: handles, best =>
      match coreHandleProtocol coreImage db handle devicePathGuid
          { pair.pool with openData := pair.records handle } with
      | none => none
      | some (db, status, interface) =>
          let nodes := (paths interface).nodes
          let better := ¬ status.isError ∧ nodes.length ≤ source.first.length ∧
            source.first.take nodes.length = nodes ∧ ∀ size ∈ best, size < nodes.length
          bestMatch coreImage paths source pair db handles (if better then some nodes.length else best)

/-- The check of `CoreInstallMultipleProtocolInterfaces` for a device path that is installed
already, with `CoreLocateDevicePath`. -/
def devicePathInstalled (coreImage : Nat) (paths : Nat → DevicePath) (db : Database)
    (pair : Pair) : Option (Database × Bool) :=
  if pair.protocol = devicePathGuid ∧ pair.interface ≠ 0 then
    match handleBuffer db devicePathGuid pair.buffer with
    | none => none
    | some handles =>
        let source := paths pair.interface
        (bestMatch coreImage paths source pair db handles none).map fun (db, best) =>
          (db, best.any fun size => source.isEndAt size)
  else some (db, false)

/-- The status and the caller's handle after an install that does not wait. -/
def installResult (handle : Nat) : Option (Database × Progress) → Option (Database × Status × Nat)
  | some (db, .installed handle) => some (db, .success, handle)
  | some (db, .returns status) => some (db, status, handle)
  | _ => none

/-- `CoreInstallProtocolInterface`, which does not wait between its two parts: the status and
the caller's handle. -/
def coreInstallProtocolInterface (coreImage : Nat) (db : Database) (handle : Nat) (pair : Pair) :
    Option (Database × Status × Nat) :=
  match coreInstallProtocolInterfaceNotify coreImage db handle pair.protocol pair.interface
      pair.pool with
  | some (db, .waits (.install userHandle protocol interface checked)) =>
      installResult handle (installLocked db userHandle protocol interface checked pair.pool)
  | result => installResult handle result

/-- `CoreUninstallProtocolInterface` where it does not wait for a driver. -/
def uninstallAtOnce (db : Database) (handle : Nat) (pair : Pair) : Option (Database × Status) :=
  match coreUninstallProtocolInterface db handle pair.protocol pair.interface pair.pool with
  | some (db, .returns status) => some (db, status)
  | _ => none

/-- The first loop of `CoreInstallMultipleProtocolInterfaces`: the handle, the status and the
number of pairs that are installed. -/
def installEach (coreImage : Nat) (paths : Nat → DevicePath) :
    Database → Nat → List Pair → Option (Database × Nat × Status × Nat)
  | db, handle, [] => some (db, handle, .success, 0)
  | db, handle, pair :: pairs =>
      match devicePathInstalled coreImage paths db pair with
      | none => none
      | some (db, true) => some (db, handle, .alreadyStarted, 0)
      | some (db, false) =>
          match coreInstallProtocolInterface coreImage db handle pair with
          | none => none
          | some (db, status, handle) =>
              if status.isError then some (db, handle, status, 0)
              else (installEach coreImage paths db handle pairs).map
                fun (db, handle, status, count) => (db, handle, status, count + 1)

/-- The loop that removes what has been installed. -/
def removeEach : Database → Nat → List Pair → Option Database
  | db, _, [] => some db
  | db, handle, pair :: pairs =>
      match uninstallAtOnce db handle pair with
      | none => none
      | some (db, _) => removeEach db handle pairs

/-- `CoreInstallMultipleProtocolInterfaces`: the status and the caller's handle. -/
def coreInstallMultipleProtocolInterfaces (coreImage : Nat) (paths : Nat → DevicePath)
    (db : Database) (handle : Nat) (pairs : List Pair) : Option (Database × Status × Nat) :=
  match installEach coreImage paths db handle pairs with
  | none => none
  | some (db, newHandle, status, count) =>
      if status.isError then
        (removeEach db newHandle (pairs.take count)).map fun db => (db, status, handle)
      else some (db, status, newHandle)

/-- The first loop of `CoreUninstallMultipleProtocolInterfaces`: the status and the number of
pairs that are uninstalled. -/
def uninstallEach : Database → Nat → List Pair → Option (Database × Status × Nat)
  | db, _, [] => some (db, .success, 0)
  | db, handle, pair :: pairs =>
      match uninstallAtOnce db handle pair with
      | none => none
      | some (db, status) =>
          if status.isError then some (db, status, 0)
          else (uninstallEach db handle pairs).map
            fun (db, status, count) => (db, status, count + 1)

/-- The loop that adds what has been uninstalled. -/
def addEach (coreImage : Nat) : Database → Nat → List Pair → Option Database
  | db, _, [] => some db
  | db, handle, pair :: pairs =>
      match coreInstallProtocolInterface coreImage db handle pair with
      | none => none
      | some (db, _, handle) => addEach coreImage db handle pairs

/-- `CoreUninstallMultipleProtocolInterfaces`; the allocations of a pair are those of the call
that adds it again. -/
def coreUninstallMultipleProtocolInterfaces (coreImage : Nat) (db : Database) (handle : Nat)
    (pairs : List Pair) : Option (Database × Status) :=
  match uninstallEach db handle pairs with
  | none => none
  | some (db, status, count) =>
      if status.isError then
        (addEach coreImage db handle (pairs.take count)).map fun db => (db, status)
      else some (db, status)

end Hand
end Udk
