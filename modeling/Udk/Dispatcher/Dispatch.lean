import Udk.Dispatcher.Dependency
import Udk.Runs

/-!
# The DXE dispatcher

`CoreDispatcher` with `CoreInsertOnScheduledQueueWhileProcessingBeforeAndAfter`, as turns
between which `CoreAddToDriverList`, `CoreSchedule`, `CoreTrust` and `CoreDispatcher` may be
called: by a driver that is started, or by a notification function that runs when a lock is
released.  Sections under `mDispatcherLock` are single turns.  A driver is named by its
position in `mDiscoveredList`, which only grows.
-/

namespace Udk
namespace Dispatcher

open Variable

/-- What `Fv->ReadSection` answers for the dependency section. -/
inductive ReadSection where
  | success (depex : Bytes)
  | protocolError
  | error
deriving DecidableEq

/-- What `CoreLoadImage` answers, with the image handle. -/
inductive LoadImage where
  | success (imageHandle : EfiHandle)
  | securityViolation (imageHandle : Option EfiHandle)
  | error
deriving DecidableEq

/-- What the services called by the dispatcher answer. -/
structure Answer where
  readSection : ReadSection
  loadImage : LoadImage
  /-- The dependency expression is TRUE. -/
  schedulable : Bool
deriving DecidableEq

/-- Statuses of `CoreDispatcher`. -/
inductive DispatchStatus where
  | success
  | notFound
  | alreadyStarted
  | outOfResources
deriving DecidableEq

/-- Statuses of `CoreSchedule` and `CoreTrust`. -/
inductive FindStatus where
  | success
  | notFound
deriving DecidableEq

/-- The loops of `CoreInsertOnScheduledQueueWhileProcessingBeforeAndAfter`. -/
inductive Part where
  | before
  | after
deriving DecidableEq

/-- An activation of `CoreInsertOnScheduledQueueWhileProcessingBeforeAndAfter`. -/
structure InsertFrame where
  /-- `InsertedDriverEntry`. -/
  inserted : Nat
  part : Part
  link : Nat
deriving DecidableEq

/-- Where `CoreDispatcher` is. -/
inductive Control where
  | idle
  | drain
  /-- In `CoreLoadImage`. -/
  | loading (entry : Nat)
  /-- In `CoreStartImage` or `CoreProcessFvImageFile`. -/
  | starting (entry : Nat)
  /-- At the top of the loop over `mDiscoveredList`. -/
  | search (link : Nat)
  /-- Behind the reading of the dependency section. -/
  | check (link : Nat)
  | inserting (link : Nat) (frames : List InsertFrame)
  /-- In front of `CoreCloseEvent`. -/
  | closing
deriving DecidableEq

/-- The dispatcher, with a record of what it has done. -/
structure DispatcherState where
  /-- `mDiscoveredList`. -/
  discoveredList : List EfiCoreDriverEntry
  /-- `mScheduledQueue`. -/
  scheduledQueue : List Nat
  /-- `gDispatcherRunning`. -/
  dispatcherRunning : Bool
  control : Control
  readyToRun : Bool
  returnStatus : DispatchStatus
  /-- Entries whose image has been started or processed. -/
  started : List Nat
  /-- Entries that `CoreSchedule` has found. -/
  requested : List Nat
  /-- What `CoreDispatcher` returned, and `gDispatcherRunning` at that time. -/
  returned : List (DispatchStatus × Bool)
deriving DecidableEq

/-- `CoreGetDepexSectionAndPreProccess`, none when a section without opcode is read. -/
def coreGetDepexSectionAndPreProccess (entry : EfiCoreDriverEntry) :
    ReadSection → Option EfiCoreDriverEntry
  | .protocolError => some { entry with depexProtocolError := true }
  | .error => some { entry with depex := none, dependent := true, depexProtocolError := false }
  | .success depex =>
      (corePreProcessDepex { entry with depex := some depex }).map
        fun entry => { entry with depexProtocolError := false }

/-- A file of a firmware volume. -/
structure FvFile where
  fvHandle : EfiHandle
  driverName : Guid
  /-- The type is `EFI_FV_FILETYPE_FIRMWARE_VOLUME_IMAGE`. -/
  isFvImage : Bool
deriving DecidableEq

/-- A driver entry from `AllocateZeroPool`. -/
def newEntry (file : FvFile) : EfiCoreDriverEntry where
  fvHandle := file.fvHandle
  fileName := file.driverName
  depex := none
  before := false
  after := false
  beforeAfterGuid := zeroGuid
  dependent := false
  unrequested := false
  scheduled := false
  untrusted := false
  initialized := false
  depexProtocolError := false
  imageHandle := none
  isFvImage := file.isFvImage

namespace DispatcherState

variable (st : DispatcherState)

/-- Nothing has been discovered. -/
def initial : DispatcherState where
  discoveredList := []
  scheduledQueue := []
  dispatcherRunning := false
  control := .idle
  readyToRun := false
  returnStatus := .notFound
  started := []
  requested := []
  returned := []

/-- A change of one entry. -/
def modify (i : Nat) (f : EfiCoreDriverEntry → EfiCoreDriverEntry) : DispatcherState :=
  { st with discoveredList := st.discoveredList.modify i f }

/-- `CoreAddToDriverList`. -/
def coreAddToDriverList (file : FvFile) (read : ReadSection) : Option DispatcherState :=
  (coreGetDepexSectionAndPreProccess (newEntry file) read).map
    fun entry => { st with discoveredList := st.discoveredList ++ [entry] }

/-- `CoreSchedule`. -/
def coreSchedule (fvHandle : EfiHandle) (driverName : Guid) : FindStatus × DispatcherState :=
  match st.discoveredList.findIdx? fun entry =>
    entry.fvHandle == fvHandle && entry.unrequested && driverName == entry.fileName with
  | none => (.notFound, st)
  | some i =>
      (.success,
        { st.modify i (fun entry => { entry with unrequested := false, dependent := true }) with
          requested := i :: st.requested })

/-- `CoreTrust`. -/
def coreTrust (fvHandle : EfiHandle) (driverName : Guid) : FindStatus × DispatcherState :=
  match st.discoveredList.findIdx? fun entry =>
    entry.fvHandle == fvHandle && entry.untrusted && driverName == entry.fileName with
  | none => (.notFound, st)
  | some i =>
      (.success,
        { st.modify i (fun entry => { entry with untrusted := false, scheduled := true }) with
          scheduledQueue := st.scheduledQueue ++ [i] })

/-- `CoreDispatcher` up to its first loop; `createEvent` tells whether `CoreCreateEventEx`
succeeds. -/
def coreDispatcher (createEvent : Bool) : DispatcherState :=
  if st.dispatcherRunning then { st with returned := (.alreadyStarted, true) :: st.returned }
  else if createEvent then
    { st with dispatcherRunning := true, control := .drain, returnStatus := .notFound }
  else
    { st with
      dispatcherRunning := true
      returned := (.outOfResources, true) :: st.returned }

/-- The driver leaves the queue for good, and its image is started. -/
def startEntry (i : Nat) : DispatcherState :=
  { st.modify i (fun entry => { entry with scheduled := false, initialized := true }) with
    scheduledQueue := st.scheduledQueue.erase i
    control := .starting i
    started := i :: st.started }

/-- The driver leaves the queue as its image could not be loaded. -/
def loadFailed (i : Nat) (f : EfiCoreDriverEntry → EfiCoreDriverEntry) : DispatcherState :=
  { st.modify i (fun entry => { f entry with scheduled := false }) with
    scheduledQueue := st.scheduledQueue.erase i
    control := .drain }

/-- From Dependent to Scheduled. -/
def scheduleEntry (i : Nat) : DispatcherState :=
  { st.modify i (fun entry => { entry with dependent := false, scheduled := true }) with
    scheduledQueue := st.scheduledQueue ++ [i] }

end DispatcherState

/-- `CoreIsSchedulable`, which does not evaluate BEFORE and AFTER. -/
def isSchedulable (entry : EfiCoreDriverEntry) (schedulable : Bool) : Bool :=
  !(entry.after || entry.before) && schedulable

/-- The driver depends on the one inserted, in the sense of this loop. -/
def dependsOn (part : Part) (entry inserted : EfiCoreDriverEntry) : Bool :=
  (match part with
    | .before => entry.before
    | .after => entry.after) && inserted.fileName == entry.beforeAfterGuid

/-- A turn of an activation of `CoreInsertOnScheduledQueueWhileProcessingBeforeAndAfter`:
the state and the activations that are left. -/
def insertTurn (st : DispatcherState) (frame : InsertFrame) (frames : List InsertFrame) :
    Option (DispatcherState × List InsertFrame) :=
  match st.discoveredList[frame.link]? with
  | none =>
      match frame.part with
      | .before =>
          some (st.scheduleEntry frame.inserted, { frame with part := .after, link := 0 } :: frames)
      | .after => some (st, frames)
  | some entry =>
      st.discoveredList[frame.inserted]?.map fun inserted =>
        let rest := { frame with link := frame.link + 1 } :: frames
        if dependsOn frame.part entry inserted && entry.dependent &&
            frame.link != frame.inserted then
          (st, ⟨frame.link, .before, 0⟩ :: rest)
        else (st, rest)

/-- A turn of the running `CoreDispatcher`. -/
def dispatcherTurn (st : DispatcherState) (answer : Answer) : Option DispatcherState :=
  match st.control with
  | .idle => none
  | .drain =>
      match st.scheduledQueue with
      | [] => some { st with control := .search 0, readyToRun := false }
      | i :: _ =>
          st.discoveredList[i]?.map fun entry =>
            if entry.imageHandle = none && !entry.isFvImage then { st with control := .loading i }
            else st.startEntry i
  | .loading i =>
      match answer.loadImage with
      | .success imageHandle =>
          some ((st.modify i fun entry => { entry with imageHandle := imageHandle }).startEntry i)
      | .securityViolation imageHandle =>
          some (st.loadFailed i fun entry =>
            { entry with imageHandle := imageHandle, untrusted := true })
      | .error => some (st.loadFailed i fun entry => { entry with initialized := true })
  | .starting _ => some { st with control := .drain, returnStatus := .success }
  | .search link =>
      match st.discoveredList[link]? with
      | none => some { st with control := if st.readyToRun then .drain else .closing }
      | some entry =>
          if entry.depexProtocolError then
            (coreGetDepexSectionAndPreProccess entry answer.readSection).map fun entry =>
              { st.modify link (fun _ => entry) with control := .check link }
          else some { st with control := .check link }
  | .check link =>
      st.discoveredList[link]?.map fun entry =>
        if entry.dependent && isSchedulable entry answer.schedulable then
          { st with control := .inserting link [⟨link, .before, 0⟩] }
        else { st with control := .search (link + 1) }
  | .inserting link [] => some { st with control := .search (link + 1), readyToRun := true }
  | .inserting link (frame :: frames) =>
      (insertTurn st frame frames).map fun (st, frames) =>
        { st with control := .inserting link frames }
  | .closing =>
      some { st with
        dispatcherRunning := false
        control := .idle
        returned := (st.returnStatus, false) :: st.returned }

/-- What happens next. -/
inductive Move where
  | addToDriverList (file : FvFile) (read : ReadSection)
  | schedule (fvHandle : EfiHandle) (driverName : Guid)
  | trust (fvHandle : EfiHandle) (driverName : Guid)
  | dispatch (createEvent : Bool)
  | turn (answer : Answer)
deriving DecidableEq

/-- A call, or a turn of the running dispatcher. -/
def DispatcherState.move (st : DispatcherState) : Move → Option DispatcherState
  | .addToDriverList file read => st.coreAddToDriverList file read
  | .schedule fvHandle driverName => some (st.coreSchedule fvHandle driverName).2
  | .trust fvHandle driverName => some (st.coreTrust fvHandle driverName).2
  | .dispatch createEvent => some (st.coreDispatcher createEvent)
  | .turn answer => dispatcherTurn st answer

end Dispatcher
end Udk
