import Udk.Variable.Format

/-!
# Events

`IEVENT` as far as the timer services and the event queues use it.  An event other
than `NULL` is named by a number.
-/

namespace Udk
namespace Event

open Variable

/-- An event handle other than `NULL`. -/
abbrev EfiEvent := Nat

/-- `EFI_TPL`. -/
abbrev EfiTpl := Nat

/-- `TIMER_EVENT_INFO`. -/
structure TimerEventInfo where
  /-- `Link.ForwardLink != NULL`. -/
  linked : Bool
  triggerTime : UInt64
  period : UInt64
deriving DecidableEq

/-- `IEVENT`. -/
structure IEvent where
  signature : UInt64
  type : UInt32
  signalCount : UInt32
  notifyTpl : EfiTpl
  eventGroup : Guid
  /-- `NotifyLink.ForwardLink != NULL`. -/
  notifyLink : Bool
  exFlag : Bool
  timer : TimerEventInfo
deriving DecidableEq

/-- `EVENT_SIGNATURE`. -/
def eventSignature : UInt64 := 0x746e7665

/-- `EVT_TIMER`. -/
def evtTimer : UInt32 := 0x80000000

/-- `EVT_NOTIFY_WAIT`. -/
def evtNotifyWait : UInt32 := 0x00000100

/-- `EVT_NOTIFY_SIGNAL`. -/
def evtNotifySignal : UInt32 := 0x00000200

/-- `(Event->Type & Mask) != 0`. -/
def IEvent.has (event : IEvent) (mask : UInt32) : Bool :=
  event.type &&& mask != 0

end Event
end Udk
