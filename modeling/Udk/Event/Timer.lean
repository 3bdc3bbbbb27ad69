import Udk.Event.IEvent
import Udk.Runs

/-!
# Timer services

`Timer.c` over the sorted list of armed events.  `CoreSignalEvent` on a timer event
or on the event of `CoreCheckTimers` is an entry of a log: the notification functions
run below the level of the timer lock, thus after the call.
-/

namespace Udk
namespace Event

/-- A call of `CoreSignalEvent` from the timer services. -/
inductive Signal where
  | user (e : EfiEvent)
  /-- `mEfiCheckTimerEvent`. -/
  | checkTimer
deriving DecidableEq

/-- The state of the timer services. -/
structure TimerState where
  events : EfiEvent → IEvent
  mEfiTimerList : List EfiEvent
  mEfiSystemTime : UInt64
  signals : List Signal

/-- `EFI_INVALID_PARAMETER` and `EFI_SUCCESS`, as `CoreSetTimer` returns them. -/
inductive SetTimerStatus where
  | success
  | invalidParameter
deriving DecidableEq

/-- `TimerCancel`. -/
def timerCancel : UInt32 := 0

/-- `TimerPeriodic`. -/
def timerPeriodic : UInt32 := 1

/-- `TimerRelative`. -/
def timerRelative : UInt32 := 2

/-- `x` in front of the first entry that is `later`, else at the end. -/
def insertBeforeFirst {α : Type*} (later : α → Bool) (x : α) : List α → List α
  | [] => [x]
  | y :: ys => if later y then x :: y :: ys else y :: insertBeforeFirst later x ys

namespace TimerState

/-- `Event->Timer`. -/
def timer (s : TimerState) (e : EfiEvent) : TimerEventInfo :=
  (s.events e).timer

/-- An assignment to `Event->Timer`. -/
def setTimer (s : TimerState) (e : EfiEvent) (info : TimerEventInfo) : TimerState :=
  { s with events := Function.update s.events e { s.events e with timer := info } }

/-- `CoreSignalEvent`. -/
def signal (s : TimerState) (event : Signal) : TimerState :=
  { s with signals := s.signals ++ [event] }

end TimerState

/-- `RemoveEntryList (&Event->Timer.Link)` with the link cleared. -/
def removeEventTimer (s : TimerState) (e : EfiEvent) : TimerState :=
  { s.setTimer e { s.timer e with linked := false } with
    mEfiTimerList := s.mEfiTimerList.erase e }

/-- `CoreInsertEventTimer`. -/
def coreInsertEventTimer (s : TimerState) (e : EfiEvent) : TimerState :=
  let triggerTime := (s.timer e).triggerTime
  { s.setTimer e { s.timer e with linked := true } with
    mEfiTimerList := insertBeforeFirst
      (fun e2 => decide ((s.timer e2).triggerTime > triggerTime)) e s.mEfiTimerList }

/-- What a turn of the loop of `CoreCheckTimers` does with the expired event at the
head of the list. -/
def expireTimer (systemTime : UInt64) (s : TimerState) (e : EfiEvent) : TimerState :=
  let s := (removeEventTimer s e).signal (.user e)
  let info := s.timer e
  if info.period != 0 then
    let triggerTime := info.triggerTime + info.period
    if triggerTime ≤ systemTime then
      coreInsertEventTimer
        ((s.setTimer e { info with triggerTime := systemTime }).signal .checkTimer) e
    else
      coreInsertEventTimer (s.setTimer e { info with triggerTime := triggerTime }) e
  else s

/-- The loop of `CoreCheckTimers`, none when it needs more turns. -/
def checkTimersLoop (systemTime : UInt64) : Nat → TimerState → Option TimerState
  | 0, _ => none
  | turns + 1, s =>
    match s.mEfiTimerList with
    | [] => some s
    | e :: _ =>
      if (s.timer e).triggerTime > systemTime then some s
      else checkTimersLoop systemTime turns (expireTimer systemTime s e)

/-- `CoreCheckTimers`. -/
def coreCheckTimers (turns : Nat) (s : TimerState) : Option TimerState :=
  checkTimersLoop s.mEfiSystemTime turns s

/-- `CoreTimerTick`. -/
def coreTimerTick (s : TimerState) (duration : UInt64) : TimerState :=
  let s := { s with mEfiSystemTime := s.mEfiSystemTime + duration }
  match s.mEfiTimerList with
  | [] => s
  | e :: _ =>
    if (s.timer e).triggerTime ≤ s.mEfiSystemTime then s.signal .checkTimer else s

/-- The delay in effect: a periodic timer without a time takes what
`gTimer->GetTimerPeriod` answers. -/
def timerDelay (type : UInt32) (triggerTime timerPeriod : UInt64) : UInt64 :=
  if type = timerPeriodic ∧ triggerTime = 0 then timerPeriod else triggerTime

/-- The checks of `CoreSetTimer` on its parameters. -/
def validTimer (s : TimerState) (userEvent : Option EfiEvent) (type : UInt32) : Bool :=
  match userEvent with
  | none => false
  | some e =>
    (s.events e).signature == eventSignature && decide (type ≤ timerRelative) &&
      (s.events e).has evtTimer

/-- The first part of `CoreSetTimer`: the event leaves the list if it is on it, and its
times are cleared. -/
def clearEventTimer (s : TimerState) (e : EfiEvent) : TimerState :=
  let s := if (s.timer e).linked then removeEventTimer s e else s
  s.setTimer e { s.timer e with triggerTime := 0, period := 0 }

/-- The second part of `CoreSetTimer`, for a type other than `TimerCancel`. -/
def armEventTimer (s : TimerState) (e : EfiEvent) (type : UInt32)
    (triggerTime timerPeriod : UInt64) : TimerState :=
  let delay := timerDelay type triggerTime timerPeriod
  let s := s.setTimer e
    { s.timer e with
      triggerTime := s.mEfiSystemTime + delay
      period := if type = timerPeriodic then delay else (s.timer e).period }
  let s := coreInsertEventTimer s e
  if delay = 0 then s.signal .checkTimer else s

/-- `CoreSetTimer`; `timerPeriod` is what `gTimer->GetTimerPeriod` leaves in
`TriggerTime`. -/
def coreSetTimer (s : TimerState) (userEvent : Option EfiEvent) (type : UInt32)
    (triggerTime timerPeriod : UInt64) : SetTimerStatus × TimerState :=
  match userEvent with
  | none => (.invalidParameter, s)
  | some e =>
    if !validTimer s userEvent type then (.invalidParameter, s)
    else
      let s := clearEventTimer s e
      if type = timerCancel then (.success, s)
      else (.success, armEventTimer s e type triggerTime timerPeriod)

end Event
end Udk
