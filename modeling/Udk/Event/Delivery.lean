import Udk.Event.CallStack

/-!
# What every step of the event services keeps

`EventsOk` is about the data and the stack, with the level at which the stack goes on;
each lock section establishes it for the owner's level, and the release hands it on.
In the middle of a section it holds but for the events that are being signalled.
Outside `CoreRestoreTpl` nothing is queued above the current level.
-/

namespace Udk
namespace Event

open Variable

section Invariant

/-- A notification of the event is still to come. -/
def ToCome (s : EventState) (e : EfiEvent) : Prop :=
  e ∈ waiting (s.events e).notifyTpl s.history ∨
    .signalGroup (s.events e).eventGroup ∈ s.stack

/-- The event is queued, or its group is about to be. -/
def Enlisted (s : EventState) (e : EfiEvent) : Prop :=
  e ∈ s.gEventQueue (s.events e).notifyTpl ∨
    .signalGroup (s.events e).eventGroup ∈ s.stack

/-- The event can be signalled and has a function that is called for it. -/
def Signals (s : EventState) (e : EfiEvent) : Prop :=
  s.live e = true ∧ (s.events e).has evtNotifySignal = true

/-- The data of the event services and the stack, which goes on at a level, but for the
signals of some events. -/
structure EventsOkBut (skip : EfiEvent → Prop) (s : EventState) (tpl : EfiTpl) : Prop where
  queues : QueuesOk s
  level : tpl ≤ tplHighLevel
  stack : StackOk (Quiet s.gEventQueue) tpl s.stack
  flight : ∀ e priority, .deliver e priority ∈ s.stack → (s.events e).notifyTpl = priority
  fifo : ∀ tpl, waiting tpl s.history = inFlight tpl s.stack ++ s.gEventQueue tpl
  counted : ∀ e, Signals s e → ¬ skip e → (s.events e).signalCount ≠ 0 → Enlisted s e
  toCome : ∀ e, Signals s e → ¬ skip e → owed e s.history = true → ToCome s e
  inOrder : InOrder (fun e => (s.events e).notifyTpl) s.history

/-- The data of the event services and the stack, which goes on at a level. -/
abbrev EventsOk (s : EventState) (tpl : EfiTpl) : Prop :=
  EventsOkBut (fun _ => False) s tpl

/-- `CoreRestoreTpl` is on top of the stack. -/
def Restoring (stack : List Frame) : Prop :=
  ∃ newTpl rest, stack = .restoreTpl newTpl :: rest

/-- What holds between two steps. -/
structure Delivers (s : EventState) : Prop where
  ok : EventsOk s s.gEfiCurrentTpl
  quiet : ¬ Restoring s.stack → Quiet s.gEventQueue s.gEfiCurrentTpl

variable {skip skip' : EfiEvent → Prop} {s s' : EventState} {e : EfiEvent}
  {tpl tpl' ownerTpl : EfiTpl} {frame : Frame} {rest stack : List Frame}

theorem not_restoring
    (h : ∀ newTpl, frame ≠ .restoreTpl newTpl) :
    ¬ Restoring (frame :: rest) := by
  rintro ⟨newTpl, rest', heq⟩
  exact h newTpl (List.cons.inj heq).1

namespace EventsOkBut

section

variable (h : EventsOkBut skip s tpl)
include h

theorem widen
    (himp : ∀ e, skip e → skip' e) :
    EventsOkBut skip' s tpl :=
  { h with
    counted := fun e hsignals hskip => h.counted e hsignals fun he => hskip (himp e he)
    toCome := fun e hsignals hskip => h.toCome e hsignals fun he => hskip (himp e he) }

/-- The stack changes, and of its gaps at most those of skipped groups. -/
theorem restack
    (level : tpl' ≤ tplHighLevel)
    (hstack : StackOk (Quiet s.gEventQueue) tpl' stack)
    (hflight : ∀ tpl, inFlight tpl stack = inFlight tpl s.stack)
    (hdeliver : ∀ e priority, .deliver e priority ∈ stack → .deliver e priority ∈ s.stack)
    (hgroup : ∀ e, Signals s e → ¬ skip' e →
      ¬ skip e ∧
        (.signalGroup (s.events e).eventGroup ∈ s.stack →
          .signalGroup (s.events e).eventGroup ∈ stack) ∨
      .signalGroup (s.events e).eventGroup ∈ stack)
    (current : EfiTpl) :
    EventsOkBut skip' { s with stack := stack, gEfiCurrentTpl := current } tpl' := by
  constructor
  case queues =>
    exact h.queues.of_sameTable (SameTable.refl s) (fun _ => rfl) rfl rfl rfl rfl
  case level => exact level
  case stack => exact hstack
  case flight =>
    intro e priority he
    exact h.flight e priority (hdeliver e priority he)
  case fifo =>
    intro tpl
    change waiting tpl s.history = inFlight tpl stack ++ s.gEventQueue tpl
    rw [hflight]
    exact h.fifo tpl
  case counted =>
    intro e hsignals hskip hcount
    rcases hgroup e hsignals hskip with ⟨hskip, hkept⟩ | hgroup
    · rcases h.counted e hsignals hskip hcount with hqueue | hgroup
      · exact Or.inl hqueue
      · exact Or.inr (hkept hgroup)
    · exact Or.inr hgroup
  case toCome =>
    intro e hsignals hskip howed
    rcases hgroup e hsignals hskip with ⟨hskip, hkept⟩ | hgroup
    · rcases h.toCome e hsignals hskip howed with hqueue | hgroup
      · exact Or.inl hqueue
      · exact Or.inr (hkept hgroup)
    · exact Or.inr hgroup
  case inOrder => exact h.inOrder

theorem sameGaps
    (level : tpl' ≤ tplHighLevel)
    (hstack : StackOk (Quiet s.gEventQueue) tpl' stack)
    (hgaps : stack.filter Frame.isGap = s.stack.filter Frame.isGap)
    (current : EfiTpl) :
    EventsOkBut skip { s with stack := stack, gEfiCurrentTpl := current } tpl' := by
  have hmem : ∀ frame : Frame, frame.isGap = true → (frame ∈ stack ↔ frame ∈ s.stack) := by
    intro frame hframe
    have hiff : frame ∈ stack.filter Frame.isGap ↔ frame ∈ s.stack.filter Frame.isGap := by
      rw [hgaps]
    rwa [List.mem_filter, List.mem_filter, hframe, and_iff_left rfl, and_iff_left rfl] at hiff
  have hflight : ∀ tpl, inFlight tpl stack = inFlight tpl s.stack := by
    intro tpl
    rw [← inFlight_filter, hgaps, inFlight_filter]
  refine h.restack level hstack hflight (fun e priority => (hmem _ rfl).mp) ?_ current
  exact fun e _ hskip => Or.inl ⟨hskip, (hmem _ rfl).mpr⟩

theorem note
    {label : Label}
    (hwaiting : ∀ tpl, waiting tpl (label :: s.history) = waiting tpl s.history)
    (howed : ∀ e, Signals s e → ¬ skip e → owed e (label :: s.history) = true →
      owed e s.history = true ∨ ToCome s e)
    (hin : ∀ notifyTpl, InOrder notifyTpl s.history → InOrder notifyTpl (label :: s.history)) :
    EventsOkBut skip (s.note label) tpl where
  queues := h.queues.of_sameTable (SameTable.refl s) (fun _ => rfl) rfl rfl rfl rfl
  level := h.level
  stack := h.stack
  flight := h.flight
  fifo tpl := (hwaiting tpl).trans (h.fifo tpl)
  counted := h.counted
  toCome e hsignals hskip he := by
    have htoCome : ToCome s e := by
      rcases howed e hsignals hskip he with howed | htoCome
      · exact h.toCome e hsignals hskip howed
      · exact htoCome
    rcases htoCome with hqueue | hgroup
    · exact Or.inl ((hwaiting _).symm ▸ hqueue)
    · exact Or.inr hgroup
  inOrder := hin _ h.inOrder

/-- An assignment to `SignalCount`. -/
theorem setSignalCount
    {count : UInt32}
    (hcount : Signals s e → ¬ skip e → count ≠ 0 → Enlisted s e) :
    EventsOkBut skip (s.setEvent e { s.events e with signalCount := count }) tpl := by
  have htable : SameTable s (s.setEvent e { s.events e with signalCount := count }) :=
    sameTable_setEvent rfl
  constructor
  case queues =>
    refine h.queues.of_sameTable htable (fun x => ?_) rfl rfl rfl rfl
    by_cases hx : x = e
    · subst hx
      simp only [EventState.setEvent, Function.update_self]
    · simp only [EventState.setEvent, Function.update_of_ne hx]
  case level => exact h.level
  case stack => exact h.stack
  case flight =>
    intro x priority hx
    rw [htable.notifyTpl]
    exact h.flight x priority hx
  case fifo => exact h.fifo
  case counted =>
    intro x hsignals hskip hx
    rw [Signals, htable.has] at hsignals
    rw [Enlisted, htable.notifyTpl, htable.eventGroup]
    by_cases hxe : x = e
    · subst hxe
      simp only [EventState.setEvent, Function.update_self] at hx
      exact hcount hsignals hskip hx
    · simp only [EventState.setEvent, Function.update_of_ne hxe] at hx
      exact h.counted x hsignals hskip hx
  case toCome =>
    intro x hsignals hskip howed
    rw [Signals, htable.has] at hsignals
    rw [ToCome, htable.notifyTpl, htable.eventGroup]
    exact h.toCome x hsignals hskip howed
  case inOrder =>
    have hfun : (fun x => ((s.setEvent e { s.events e with signalCount := count }).events
        x).notifyTpl) = fun x => (s.events x).notifyTpl := funext fun x => htable.notifyTpl
    rw [hfun]
    exact h.inOrder

/-- Calls of `CoreNotifyEvent` that queue at least the skipped events, below a caller. -/
theorem enqueued
    (hgap : NoGap s.stack)
    (henq : Enqueued s s')
    (hskip : ∀ x, Signals s x → skip x → x ∈ s'.gEventQueue (s.events x).notifyTpl) :
    EventsOk s' tpl := by
  have hflight : ∀ tpl, inFlight tpl s.stack = [] := hgap.inFlight
  have hfaithful : Faithful s' := henq.faithful (fun tpl => by rw [h.fifo tpl, hflight]; rfl)
  have hnone : ∀ eventGroup, .signalGroup eventGroup ∉ s.stack :=
    fun eventGroup hmem => absurd (hgap _ hmem) (by simp [Frame.isGap])
  constructor
  case queues => exact henq.ok
  case level => exact h.level
  case stack =>
    rw [henq.stack]
    exact h.stack.of_noGap hgap
  case flight =>
    rw [henq.stack]
    exact fun x priority hx => absurd (hgap _ hx) (by simp [Frame.isGap])
  case fifo =>
    intro tpl
    rw [henq.stack, hflight]
    exact hfaithful tpl
  case counted =>
    intro x hsignals _ hx
    rw [Signals, henq.live, henq.table.has] at hsignals
    rw [henq.signalCount] at hx
    rw [Enlisted, henq.table.notifyTpl]
    by_cases hx' : skip x
    · exact Or.inl (hskip x hsignals hx')
    · rcases h.counted x hsignals hx' hx with hqueue | hgroup
      · exact Or.inl (henq.grows _ x hqueue)
      · exact absurd hgroup (hnone _)
  case toCome =>
    intro x hsignals _ howed
    rw [Signals, henq.live, henq.table.has] at hsignals
    rw [ToCome, henq.table.notifyTpl, hfaithful]
    by_cases hx' : skip x
    · exact Or.inl (hskip x hsignals hx')
    · rcases henq.owed x howed with howed | hmem
      · rcases h.toCome x hsignals hx' howed with hwaits | hgroup
        · rw [h.fifo, hflight] at hwaits
          exact Or.inl (henq.grows _ x hwaits)
        · exact absurd hgroup (hnone _)
      · exact Or.inl hmem
  case inOrder =>
    have hfun : (fun x => (s'.events x).notifyTpl) = fun x => (s.events x).notifyTpl :=
      funext fun x => henq.table.notifyTpl
    rw [hfun]
    exact henq.inOrder _ h.inOrder

end

theorem release
    (h : EventsOk s ownerTpl) :
    Delivers (s.coreReleaseEventLock ownerTpl) where
  ok := h.sameGaps (le_refl tplHighLevel) (StackOk.restoreTpl h.level h.stack) rfl tplHighLevel
  quiet := fun hnot => absurd ⟨ownerTpl, s.stack, rfl⟩ hnot

theorem push_release
    (h : EventsOk s ownerTpl)
    (hstack : StackOk (Quiet s.gEventQueue) ownerTpl (frame :: s.stack))
    (hframe : frame.isGap = false) :
    Delivers ((s.push frame).coreReleaseEventLock ownerTpl) := by
  have hgaps : (frame :: s.stack).filter Frame.isGap = s.stack.filter Frame.isGap :=
    List.filter_cons_of_neg (by simp [hframe])
  exact (h.sameGaps h.level hstack hgaps s.gEfiCurrentTpl).release

end EventsOkBut

end Invariant

end Event
end Udk
