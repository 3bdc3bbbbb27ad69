import Udk.Event.IEvent

/-!
# Event queues and task priority levels

`Event.c` and `Tpl.c` as a machine with an explicit call stack, since the notification
functions are code of their own: while one is on top of the stack it makes any calls.
What stands between `CoreAcquireEventLock` and `CoreReleaseEventLock` is one step, and
the `CoreRestoreTpl` of the release is a frame like the one of a caller.  The history
records what the queues do; no function reads it.
-/

namespace Udk
namespace Event

open Variable

/-- `TPL_APPLICATION`. -/
def tplApplication : EfiTpl := 4

/-- `TPL_CALLBACK`. -/
def tplCallback : EfiTpl := 8

/-- `TPL_NOTIFY`. -/
def tplNotify : EfiTpl := 16

/-- `TPL_HIGH_LEVEL`, the level of `gEventQueueLock`. -/
def tplHighLevel : EfiTpl := 31

/-- `(UINTN)(1 << Tpl)`, a shift of an `int`. -/
def tplBit (tpl : EfiTpl) : BitVec 64 :=
  ((1 : BitVec 32) <<< tpl).signExtend 64

/-- `-2 << NewTpl`, a shift of an `int`. -/
def tplMask (newTpl : EfiTpl) : BitVec 64 :=
  ((-2 : BitVec 32) <<< newTpl).signExtend 64

/-- `HighBitSet64`. -/
def highBitSet64 (operand : BitVec 64) : Nat :=
  Nat.log2 operand.toNat

/-- What `CoreSignalEvent` and `CoreCheckEvent` return. -/
inductive EventStatus where
  | success
  | notReady
  | invalidParameter
deriving DecidableEq

/-- A function that has not returned, with what it still has to do. -/
inductive Frame where
  /-- The code below every notification function. -/
  | user
  /-- The notification function of an event in `CoreDispatchEventNotifies (Priority)`. -/
  | notify (e : EfiEvent) (priority : EfiTpl)
  /-- `CoreRestoreTpl` in front of its loop. -/
  | restoreTpl (newTpl : EfiTpl)
  /-- `CoreDispatchEventNotifies` in front of a call of `CoreAcquireEventLock`. -/
  | dispatchEventNotifies (priority : EfiTpl)
  /-- `CoreDispatchEventNotifies` in front of the call of the notification function. -/
  | deliver (e : EfiEvent) (priority : EfiTpl)
  /-- `CoreSignalEvent` in front of `CoreNotifySignalList`. -/
  | signalGroup (eventGroup : Guid)
  /-- `CoreSignalEvent` in front of the second call of `CoreAcquireEventLock`. -/
  | signalled
  /-- `CoreCheckEvent` in front of its second test of `SignalCount`. -/
  | checkEvent (e : EfiEvent)
  /-- A `return` statement. -/
  | exit (status : EventStatus)
deriving DecidableEq

/-- What the history records. -/
inductive Label where
  /-- `CoreSignalEvent` was called on the event, or `CoreNotifySignalList` met it. -/
  | signalled (e : EfiEvent)
  /-- `CoreNotifyEvent` put the event at the end of a queue. -/
  | queued (e : EfiEvent) (tpl : EfiTpl)
  /-- The notification function was called at a level. -/
  | started (e : EfiEvent) (tpl : EfiTpl)
  | closed (e : EfiEvent)
  | returned (status : EventStatus)
deriving DecidableEq

/-- The state of the event services. -/
structure EventState where
  events : EfiEvent → IEvent
  /-- Not freed by `CoreCloseEvent`. -/
  live : EfiEvent → Bool
  gEventQueue : EfiTpl → List EfiEvent
  gEventPending : BitVec 64
  gEfiCurrentTpl : EfiTpl
  gEventSignalQueue : List EfiEvent
  /-- The innermost function first. -/
  stack : List Frame
  /-- The last entry first. -/
  history : List Label

namespace EventState

/-- An assignment to a field of an event. -/
def setEvent (s : EventState) (e : EfiEvent) (event : IEvent) : EventState :=
  { s with events := Function.update s.events e event }

/-- An entry of the history. -/
def note (s : EventState) (label : Label) : EventState :=
  { s with history := label :: s.history }

/-- A call, or what is left of a function that goes on. -/
def push (s : EventState) (frame : Frame) : EventState :=
  { s with stack := frame :: s.stack }

/-- `CoreReleaseEventLock` on a lock that was acquired at level `ownerTpl`. -/
def coreReleaseEventLock (s : EventState) (ownerTpl : EfiTpl) : EventState :=
  { s with gEfiCurrentTpl := tplHighLevel }.push (.restoreTpl ownerTpl)

/-- `RemoveEntryList (&Event->NotifyLink)`. -/
def removeNotifyLink (s : EventState) (e : EfiEvent) : EventState :=
  { s with gEventQueue := fun tpl => (s.gEventQueue tpl).erase e }

/-- `InsertTailList (&gEventQueue[Tpl], &Event->NotifyLink)`. -/
def insertNotifyLink (s : EventState) (e : EfiEvent) (tpl : EfiTpl) : EventState :=
  { s with gEventQueue := Function.update s.gEventQueue tpl (s.gEventQueue tpl ++ [e]) }

end EventState

/-- `CoreNotifyEvent`. -/
def coreNotifyEvent (s : EventState) (e : EfiEvent) : EventState :=
  let event := s.events e
  let s := if event.notifyLink then s.removeNotifyLink e else s
  let s := (s.insertNotifyLink e event.notifyTpl).setEvent e { event with notifyLink := true }
  { s with gEventPending := s.gEventPending ||| tplBit event.notifyTpl }.note
    (.queued e event.notifyTpl)

/-- What a turn of the loop of `CoreNotifySignalList` does with an event. -/
def notifyMember (eventGroup : Guid) (s : EventState) (e : EfiEvent) : EventState :=
  if (s.events e).eventGroup = eventGroup then (coreNotifyEvent s e).note (.signalled e) else s

/-- `CoreNotifySignalList`. -/
def coreNotifySignalList (s : EventState) (eventGroup : Guid) : EventState :=
  (s.gEventSignalQueue.foldl (notifyMember eventGroup) s).coreReleaseEventLock s.gEfiCurrentTpl

/-- `CoreRaiseTpl`. -/
def coreRaiseTpl (s : EventState) (newTpl : EfiTpl) : EventState :=
  { s with gEfiCurrentTpl := newTpl }

/-- `CoreRestoreTpl` up to its loop. -/
def coreRestoreTpl (s : EventState) (newTpl : EfiTpl) : EventState :=
  { s with
    gEfiCurrentTpl :=
      if s.gEfiCurrentTpl ≥ tplHighLevel ∧ newTpl < tplHighLevel then tplHighLevel
      else s.gEfiCurrentTpl }.push (.restoreTpl newTpl)

/-- The test of the loop of `CoreRestoreTpl` with what follows it; `rest` is the stack
below. -/
def restoreTplLoop (s : EventState) (newTpl : EfiTpl) (rest : List Frame) : EventState :=
  if tplMask newTpl &&& s.gEventPending ≠ 0 then
    let priority := highBitSet64 s.gEventPending
    { s with gEfiCurrentTpl := priority }.push (.dispatchEventNotifies priority)
  else
    { s with gEfiCurrentTpl := newTpl, stack := rest }

/-- `CoreDispatchEventNotifies` from `CoreAcquireEventLock` to `CoreReleaseEventLock`;
`rest` is the stack below. -/
def dispatchTurn (s : EventState) (priority : EfiTpl) (rest : List Frame) : EventState :=
  match s.gEventQueue priority with
  | [] =>
    { s with gEventPending := s.gEventPending &&& ~~~(tplBit priority), stack := rest
      }.coreReleaseEventLock s.gEfiCurrentTpl
  | e :: tail =>
    let event := s.events e
    let signalCount := if event.has evtNotifySignal then 0 else event.signalCount
    (({ s with gEventQueue := Function.update s.gEventQueue priority tail }.setEvent e
      { event with notifyLink := false, signalCount := signalCount }).push
        (.deliver e priority)).coreReleaseEventLock s.gEfiCurrentTpl

/-- `CoreSignalEvent` up to the release of the lock, or to the one in front of
`CoreNotifySignalList`. -/
def coreSignalEvent (s : EventState) (userEvent : Option EfiEvent) : EventState :=
  match userEvent with
  | none => s.push (.exit .invalidParameter)
  | some e =>
    let event := s.events e
    if event.signature ≠ eventSignature then s.push (.exit .invalidParameter)
    else
      let ownerTpl := s.gEfiCurrentTpl
      let s := s.note (.signalled e)
      if event.signalCount = 0 then
        let s := s.setEvent e { event with signalCount := event.signalCount + 1 }
        if event.has evtNotifySignal then
          if event.exFlag then
            (s.push (.signalGroup event.eventGroup)).coreReleaseEventLock ownerTpl
          else
            ((coreNotifyEvent s e).push (.exit .success)).coreReleaseEventLock ownerTpl
        else (s.push (.exit .success)).coreReleaseEventLock ownerTpl
      else (s.push (.exit .success)).coreReleaseEventLock ownerTpl

/-- `CoreCheckEvent` up to its second test of `SignalCount`. -/
def coreCheckEvent (s : EventState) (userEvent : Option EfiEvent) : EventState :=
  match userEvent with
  | none => s.push (.exit .invalidParameter)
  | some e =>
    let event := s.events e
    if event.signature ≠ eventSignature then s.push (.exit .invalidParameter)
    else if event.has evtNotifySignal then s.push (.exit .invalidParameter)
    else if event.signalCount = 0 ∧ event.has evtNotifyWait = true then
      ((coreNotifyEvent s e).push (.checkEvent e)).coreReleaseEventLock s.gEfiCurrentTpl
    else s.push (.checkEvent e)

/-- `CoreCheckEvent` from its second test of `SignalCount` on; `rest` is the stack
below. -/
def checkEventTurn (s : EventState) (e : EfiEvent) (rest : List Frame) : EventState :=
  let event := s.events e
  if event.signalCount ≠ 0 then
    ({ s with stack := .exit .success :: rest }.setEvent e
      { event with signalCount := 0 }).coreReleaseEventLock s.gEfiCurrentTpl
  else { s with stack := .exit .notReady :: rest }

/-- `CoreCloseEvent` under the event lock. -/
def coreCloseEvent (s : EventState) (userEvent : Option EfiEvent) : EventState :=
  match userEvent with
  | none => s.push (.exit .invalidParameter)
  | some e =>
    let event := s.events e
    if event.signature ≠ eventSignature then s.push (.exit .invalidParameter)
    else
      let ownerTpl := s.gEfiCurrentTpl
      let s := if event.notifyLink then s.removeNotifyLink e else s
      (({ s with
          gEventSignalQueue := s.gEventSignalQueue.erase e
          live := Function.update s.live e false }.note (.closed e)).push
        (.exit .success)).coreReleaseEventLock ownerTpl

/-- A step: a call of the code on top of the stack, its return, or a step of one of the
functions above. -/
inductive Move where
  | raiseTpl (newTpl : EfiTpl)
  | restoreTpl (newTpl : EfiTpl)
  | signalEvent (userEvent : Option EfiEvent)
  | checkEvent (userEvent : Option EfiEvent)
  | notifySignalList (eventGroup : Guid)
  | closeEvent (userEvent : Option EfiEvent)
  | «return»
  | proceed
deriving DecidableEq

/-- The frames that make calls. -/
def Frame.isCaller : Frame → Bool
  | .user => true
  | .notify _ _ => true
  | _ => false

/-- A call of the code on top of the stack. -/
def call (s : EventState) : Move → Option EventState
  | .raiseTpl newTpl => some (coreRaiseTpl s newTpl)
  | .restoreTpl newTpl => some (coreRestoreTpl s newTpl)
  | .signalEvent userEvent => some (coreSignalEvent s userEvent)
  | .checkEvent userEvent => some (coreCheckEvent s userEvent)
  | .notifySignalList eventGroup => some (coreNotifySignalList s eventGroup)
  | .closeEvent userEvent => some (coreCloseEvent s userEvent)
  | .return => none
  | .proceed => none

/-- The function on top of the stack goes on; `rest` is the stack below. -/
def proceed (s : EventState) (rest : List Frame) : Frame → Option EventState
  | .user => none
  | .notify _ _ => none
  | .restoreTpl newTpl => some (restoreTplLoop s newTpl rest)
  | .dispatchEventNotifies priority => some (dispatchTurn s priority rest)
  | .deliver e priority =>
    some ({ s with stack := .notify e priority :: rest }.note (.started e s.gEfiCurrentTpl))
  | .signalGroup eventGroup =>
    some (coreNotifySignalList { s with stack := .signalled :: rest } eventGroup)
  | .signalled =>
    some ({ s with stack := .exit .success :: rest }.coreReleaseEventLock s.gEfiCurrentTpl)
  | .checkEvent e => some (checkEventTurn s e rest)
  | .exit status => some ({ s with stack := rest }.note (.returned status))

/-- A step of the machine. -/
def move (s : EventState) (m : Move) : Option EventState :=
  match s.stack with
  | [] => none
  | frame :: rest =>
    match m with
    | .proceed => proceed s rest frame
    | .return =>
      match frame with
      | .notify _ _ => some { s with stack := rest }
      | _ => none
    | m => if frame.isCaller then call s m else none

/-- The machine as a relation. -/
def MoveStep (s : EventState) (m : Move) (s' : EventState) : Prop :=
  move s m = some s'

end Event
end Udk
