import Udk.Event.DeliverySteps
import Udk.Runs

/-!
# Delivery of events over whole runs

The calls that queue and close events, every step of the machine, and what follows for
a run from a state in which nothing is queued.
-/

namespace Udk
namespace Event

open Variable List

namespace AtCall

variable {s : EventState} {e : EfiEvent} {caller : Frame} {rest : List Frame}
  {userEvent : Option EfiEvent}

theorem signalEvent
    (h : AtCall s caller rest)
    (hlive : ∀ e ∈ userEvent, s.live e = true) :
    Delivers (coreSignalEvent s userEvent) := by
  cases userEvent with
  | none => exact h.push rfl
  | some e =>
      have he : s.live e = true := hlive e rfl
      simp only [coreSignalEvent]
      split_ifs with hsignature hzero hsignal hex
      · exact h.push rfl
      -- the group branch: the signal is in a gap until `CoreNotifySignalList`
      · have hbut := h.signalledBut (e := e) ((s.events e).signalCount + 1)
        have hstack : StackOk (Quiet s.gEventQueue) s.gEfiCurrentTpl
            (.signalGroup (s.events e).eventGroup :: s.stack) := by
          rw [h.stack]
          exact StackOk.signalGroup h.isCaller h.quiet h.stackOk
        have htable : SameTable s ((s.note (.signalled e)).setEvent e
            { s.events e with signalCount := (s.events e).signalCount + 1 }) :=
          sameTable_setEvent rfl
        refine EventsOkBut.release ?_
        refine hbut.restack hbut.level hstack ?_ ?_ ?_ s.gEfiCurrentTpl
        · intro tpl
          rw [inFlight]
          · rfl
          · exact fun _ _ heq => Frame.noConfusion heq
        · intro x priority hx
          rcases mem_cons.mp hx with heq | hx
          · exact Frame.noConfusion heq
          · exact hx
        · intro x _ _
          rw [htable.eventGroup]
          by_cases hx : x = e
          · subst hx
            exact Or.inr mem_cons_self
          · exact Or.inl ⟨hx, fun hmem => mem_cons_of_mem _ hmem⟩
      · have hbut := h.signalledBut (e := e) ((s.events e).signalCount + 1)
        have htable : SameTable s ((s.note (.signalled e)).setEvent e
            { s.events e with signalCount := (s.events e).signalCount + 1 }) :=
          sameTable_setEvent rfl
        have henq := Enqueued.notifyEvent hbut.queues he
          (htable.notifies.mpr (Or.inr hsignal))
        have hok := hbut.enqueued h.noGap henq (fun x _ hx => by
          rw [hx]
          exact (mem_coreNotifyEvent hbut.queues he).mpr (Or.inr ⟨rfl, rfl⟩))
        refine hok.push_release ?_ rfl
        rw [coreNotifyEvent_stack]
        exact (h.tail rfl).of_noGap (NoGap.cons rfl h.noGap)
      · have hbut := h.signalledBut (e := e) ((s.events e).signalCount + 1)
        have hok : EventsOk ((s.note (.signalled e)).setEvent e
            { s.events e with signalCount := (s.events e).signalCount + 1 })
              s.gEfiCurrentTpl := by
          have hnoted := h.signalAgain (e := e) fun hsignals => absurd hsignals.2 hsignal
          exact hnoted.setSignalCount fun hsignals _ _ => absurd hsignals.2 hsignal
        exact hok.push_release (h.tail rfl) rfl
      · have hok := h.signalAgain (e := e) fun hsignals => by
          rcases h.delivers.ok.counted e hsignals id hzero with hmem | hgroup
          · refine Or.inl ?_
            rw [h.delivers.ok.fifo]
            exact mem_append_right _ hmem
          · exact absurd hgroup (h.none_inGroup _)
        exact hok.push_release (h.tail rfl) rfl

theorem checkEvent
    (h : AtCall s caller rest)
    (hlive : ∀ e ∈ userEvent, s.live e = true) :
    Delivers (coreCheckEvent s userEvent) := by
  cases userEvent with
  | none => exact h.push rfl
  | some e =>
      simp only [coreCheckEvent]
      split_ifs with hsignature hsignal hwait
      · exact h.push rfl
      · exact h.push rfl
      · have henq := Enqueued.notifyEvent h.delivers.ok.queues (hlive e rfl) (Or.inl hwait.2)
        have hok := h.delivers.ok.enqueued h.noGap henq (fun _ _ hfalse => hfalse.elim)
        refine hok.push_release ?_ rfl
        rw [coreNotifyEvent_stack]
        exact (h.tail rfl).of_noGap (NoGap.cons rfl h.noGap)
      · exact h.push rfl

end AtCall

section Close

variable {s : EventState} {e : EfiEvent} {caller : Frame} {rest : List Frame}
  {userEvent : Option EfiEvent}

/-- The event leaves every list it is on and is freed. -/
def closed (s : EventState) (e : EfiEvent) : EventState :=
  { s with
    gEventQueue := fun tpl => (s.gEventQueue tpl).erase e
    gEventSignalQueue := s.gEventSignalQueue.erase e
    live := Function.update s.live e false }.note (.closed e)

theorem removeNotifyLink_eq
    (h : QueuesOk s)
    (hlive : s.live e = true) :
    (if (s.events e).notifyLink = true then s.removeNotifyLink e else s) =
      s.removeNotifyLink e := by
  split
  case isTrue => rfl
  case isFalse hlink =>
    have hnot : ∀ tpl, e ∉ s.gEventQueue tpl := by
      intro tpl hmem
      have htpl := h.notifyTpl tpl e hmem
      subst htpl
      exact hlink ((h.linked e hlive).mpr hmem)
    have hqueue : (fun tpl => (s.gEventQueue tpl).erase e) = s.gEventQueue :=
      funext fun tpl => erase_of_not_mem (hnot tpl)
    rw [EventState.removeNotifyLink, hqueue]

theorem closed_live
    {x : EfiEvent} :
    (closed s e).live x = true ↔ x ≠ e ∧ s.live x = true := by
  change Function.update s.live e false x = true ↔ _
  by_cases hx : x = e
  · subst hx
    simp
  · rw [Function.update_of_ne hx, and_iff_right hx]

theorem mem_closed
    {x : EfiEvent} {tpl : EfiTpl}
    (h : QueuesOk s) :
    x ∈ (closed s e).gEventQueue tpl ↔ x ≠ e ∧ x ∈ s.gEventQueue tpl := by
  change x ∈ (s.gEventQueue tpl).erase e ↔ _
  rw [(h.nodup tpl).mem_erase_iff]

theorem closed_queuesOk
    (h : QueuesOk s) :
    QueuesOk (closed s e) where
  belowHigh := h.belowHigh
  pending tpl x hx := h.pending tpl x ((mem_closed h).mp hx).2
  notifyTpl tpl x hx := h.notifyTpl tpl x ((mem_closed h).mp hx).2
  queued tpl x hx := by
    obtain ⟨hne, hmem⟩ := (mem_closed h).mp hx
    exact ⟨closed_live.mpr ⟨hne, (h.queued tpl x hmem).1⟩, (h.queued tpl x hmem).2⟩
  nodup tpl := (h.nodup tpl).erase e
  linked x hx := by
    obtain ⟨hne, hlive⟩ := closed_live.mp hx
    rw [mem_closed h, and_iff_right hne]
    exact h.linked x hlive
  bounds x hx := h.bounds x (closed_live.mp hx).2
  signalQueue x := by
    rw [closed_live, and_assoc]
    change x ∈ s.gEventSignalQueue.erase e ↔ x ≠ e ∧ s.live x = true ∧ _
    rw [h.signalNodup.mem_erase_iff, h.signalQueue]
    rfl
  signalNodup := h.signalNodup.erase e

theorem closed_eventsOk
    (h : AtCall s caller rest) :
    EventsOk (closed s e) s.gEfiCurrentTpl := by
  have hok := h.delivers.ok
  have hflight : ∀ tpl, inFlight tpl s.stack = [] := h.noGap.inFlight
  have hsignals : ∀ x, Signals (closed s e) x → x ≠ e ∧ Signals s x :=
    fun x hx => ⟨(closed_live.mp hx.1).1, (closed_live.mp hx.1).2, hx.2⟩
  constructor
  case queues => exact closed_queuesOk hok.queues
  case level => exact hok.level
  case stack => exact hok.stack.of_noGap h.noGap
  case flight => exact fun x priority hx => absurd (h.noGap _ hx) (by simp [Frame.isGap])
  case fifo =>
    intro tpl
    change (waiting tpl s.history).erase e = inFlight tpl s.stack ++ (s.gEventQueue tpl).erase e
    rw [hok.fifo, hflight]
    rfl
  case counted =>
    intro x hx _ hcount
    obtain ⟨hne, hsig⟩ := hsignals x hx
    rcases hok.counted x hsig id hcount with hmem | hgroup
    · exact Or.inl ((mem_closed hok.queues).mpr ⟨hne, hmem⟩)
    · exact absurd hgroup (h.none_inGroup _)
  case toCome =>
    intro x hx _ howed
    obtain ⟨hne, hsig⟩ := hsignals x hx
    rcases hok.toCome x hsig id howed with hmem | hgroup
    · exact Or.inl ((mem_erase_of_ne hne).mpr hmem)
    · exact absurd hgroup (h.none_inGroup _)
  case inOrder => exact hok.inOrder

theorem AtCall.closeEvent
    (h : AtCall s caller rest)
    (hlive : ∀ e ∈ userEvent, s.live e = true ∧ .checkEvent e ∉ s.stack) :
    Delivers (coreCloseEvent s userEvent) := by
  cases userEvent with
  | none => exact h.push rfl
  | some e =>
      simp only [coreCloseEvent]
      split
      case isTrue => exact h.push rfl
      case isFalse =>
        rw [removeNotifyLink_eq h.delivers.ok.queues (hlive e rfl).1]
        refine (closed_eventsOk h).push_release ?_ rfl
        exact (h.tail rfl).of_noGap (NoGap.cons rfl h.noGap)

end Close

section Run

variable {s s' s₀ : EventState} {m : Move}

/-- Every step keeps the invariant. -/
theorem moveStep_delivers
    (h : Delivers s)
    (hok : MoveOk s m)
    (hstep : MoveStep s m s') :
    Delivers s' := by
  unfold MoveStep move at hstep
  cases hstack : s.stack with
  | nil =>
      rw [hstack] at hstep
      exact absurd hstep (by simp)
  | cons frame rest =>
      rw [hstack] at hstep
      have hcall : ∀ s'', (if frame.isCaller = true then call s m else none) = some s'' →
          AtCall s frame rest ∧ call s m = some s'' := by
        intro s'' hs
        split at hs
        case isTrue hcaller => exact ⟨⟨h, hstack, hcaller⟩, hs⟩
        case isFalse => exact absurd hs (by simp)
      cases m with
      | raiseTpl newTpl =>
          obtain ⟨hat, hs⟩ := hcall s' hstep
          obtain rfl := Option.some_inj.mp hs
          exact hat.raiseTpl hok.2 hok.1
      | restoreTpl newTpl =>
          obtain ⟨hat, hs⟩ := hcall s' hstep
          obtain rfl := Option.some_inj.mp hs
          exact hat.restoreTpl hok
      | signalEvent userEvent =>
          obtain ⟨hat, hs⟩ := hcall s' hstep
          obtain rfl := Option.some_inj.mp hs
          exact hat.signalEvent hok
      | checkEvent userEvent =>
          obtain ⟨hat, hs⟩ := hcall s' hstep
          obtain rfl := Option.some_inj.mp hs
          exact hat.checkEvent hok
      | notifySignalList eventGroup =>
          obtain ⟨hat, hs⟩ := hcall s' hstep
          obtain rfl := Option.some_inj.mp hs
          exact hat.notifySignalList
      | closeEvent userEvent =>
          obtain ⟨hat, hs⟩ := hcall s' hstep
          obtain rfl := Option.some_inj.mp hs
          exact hat.closeEvent hok
      | «return» =>
          cases frame with
          | notify e priority =>
              obtain rfl := Option.some_inj.mp hstep
              have hat : AtCall s (.notify e priority) rest := ⟨h, hstack, rfl⟩
              have hlevel : s.gEfiCurrentTpl = priority := hok e priority rest hstack
              have hrest := hat.stackOk.of_notify
              rw [← hlevel] at hrest
              refine ⟨h.ok.sameGaps h.ok.level hrest ?_ s.gEfiCurrentTpl, fun _ => hat.quiet⟩
              rw [hstack]
              rfl
          | user | restoreTpl newTpl | dispatchEventNotifies priority | deliver e priority
          | signalGroup eventGroup | signalled | checkEvent e
          | exit status => exact absurd hstep (by simp)
      | proceed =>
          cases frame with
          | user | notify e priority => exact absurd hstep (by simp [proceed])
          | restoreTpl newTpl =>
              obtain rfl := Option.some_inj.mp hstep
              exact restoreTplLoop_delivers h hstack
          | dispatchEventNotifies priority =>
              obtain rfl := Option.some_inj.mp hstep
              exact dispatchTurn_delivers h hstack
          | deliver e priority =>
              obtain rfl := Option.some_inj.mp hstep
              exact deliver_delivers h hstack
          | signalGroup eventGroup =>
              obtain rfl := Option.some_inj.mp hstep
              exact signalGroup_delivers h hstack
          | signalled =>
              obtain rfl := Option.some_inj.mp hstep
              exact signalled_delivers h hstack
          | checkEvent e =>
              obtain rfl := Option.some_inj.mp hstep
              exact checkEventTurn_delivers h hstack
          | exit status =>
              obtain rfl := Option.some_inj.mp hstep
              exact exit_delivers h hstack

/-- The event services before the first call: some events exist, none is signalled. -/
structure Initial (s : EventState) : Prop where
  stack : s.stack = [.user]
  history : s.history = []
  queue : ∀ tpl, s.gEventQueue tpl = []
  pending : s.gEventPending = 0
  level : s.gEfiCurrentTpl ≤ tplHighLevel
  notifyLink : ∀ e, s.live e = true → (s.events e).notifyLink = false
  signalCount : ∀ e, s.live e = true → (s.events e).signalCount = 0
  notifyTpl : ∀ e, s.live e = true → (s.events e).notifies →
    (s.events e).notifyTpl < tplHighLevel
  signalQueue : ∀ e, e ∈ s.gEventSignalQueue ↔
    s.live e = true ∧ (s.events e).has evtNotifySignal = true
  signalNodup : s.gEventSignalQueue.Nodup

theorem Initial.delivers
    (h : Initial s) :
    Delivers s := by
  have hnone : ∀ tpl e, e ∉ s.gEventQueue tpl := by
    intro tpl e
    rw [h.queue]
    exact not_mem_nil
  constructor
  case ok =>
    constructor
    case queues =>
      refine ⟨?_, fun tpl e he => absurd he (hnone tpl e), fun tpl e he => absurd he (hnone tpl e),
        fun tpl e he => absurd he (hnone tpl e), ?_, ?_, h.notifyTpl, h.signalQueue,
        h.signalNodup⟩
      · intro tpl hset
        rw [h.pending] at hset
        simp at hset
      · intro tpl
        rw [h.queue]
        exact nodup_nil
      · intro e he
        rw [h.notifyLink e he]
        exact ⟨fun hfalse => absurd hfalse Bool.false_ne_true, fun hmem => absurd hmem (hnone _ e)⟩
    case level => exact h.level
    case stack =>
      rw [h.stack]
      exact StackOk.user
    case flight =>
      intro e priority he
      rw [h.stack] at he
      exact absurd he (by simp)
    case fifo =>
      intro tpl
      rw [h.history, h.stack, h.queue]
      rfl
    case counted => exact fun e hsignals _ hcount => absurd (h.signalCount e hsignals.1) hcount
    case toCome =>
      intro e _ _ howed
      rw [h.history] at howed
      exact absurd howed Bool.false_ne_true
    case inOrder =>
      rw [h.history]
      trivial
  case quiet => exact fun _ tpl _ => h.queue tpl

/-- What a return of `CoreRestoreTpl` leaves. -/
structure Restored (s : EventState) (tpl : EfiTpl) : Prop where
  level : s.gEfiCurrentTpl = tpl
  quiet : ∀ tpl', tpl < tpl' → s.gEventQueue tpl' = []
  notified : ∀ e, s.live e = true → (s.events e).has evtNotifySignal = true →
    tpl < (s.events e).notifyTpl → owed e s.history = true →
      InGroupBranch (s.events e).eventGroup s.stack

theorem Delivers.restored
    {tpl : EfiTpl}
    (h : Delivers s)
    (hstep : MoveStep s .proceed s')
    (hreturn : s.stack = .restoreTpl tpl :: s'.stack) :
    Restored s' tpl := by
  have h' : Delivers s' := moveStep_delivers h (show MoveOk s .proceed from trivial) hstep
  unfold MoveStep move at hstep
  rw [hreturn] at hstep
  obtain hs := Option.some_inj.mp hstep
  rw [restoreTplLoop] at hs
  split at hs
  case isTrue =>
    have hlength := congrArg (fun s => s.stack.length) hs
    simp only [EventState.push, hreturn, length_cons] at hlength
    omega
  case isFalse hmask =>
    have hqueue : s'.gEventQueue = s.gEventQueue := by
      rw [← hs]
    have hlevel : s'.gEfiCurrentTpl = tpl := by
      rw [← hs]
    have hquiet : Quiet s'.gEventQueue tpl := by
      rw [hqueue]
      exact h.quiet_of_mask hmask
    refine ⟨hlevel, hquiet, ?_⟩
    intro e hlive hsignal hlt howed
    rcases h'.ok.toCome e ⟨hlive, hsignal⟩ id howed with hwaits | hgroup
    · rw [h'.ok.fifo, hquiet _ hlt, append_nil] at hwaits
      have hle := h'.ok.stack.deliver_le (mem_of_inFlight hwaits)
      rw [hlevel] at hle
      exact absurd hlt (not_lt.mpr hle)
    · exact h'.ok.stack.inGroupBranch hgroup

/-- The queues and their mask agree, notification functions started at their level and in
the order in which they were queued, and a return of `CoreRestoreTpl` leaves nothing above
its level. -/
structure Disciplined (s : EventState) : Prop where
  queued : ∀ tpl, (s.gEventQueue tpl).Nodup ∧ ∀ e ∈ s.gEventQueue tpl,
    (s.events e).notifyTpl = tpl ∧ s.gEventPending.getLsbD tpl = true
  started : ∀ newer older e tpl, s.history = newer ++ .started e tpl :: older →
    tpl = (s.events e).notifyTpl ∧ (waiting (s.events e).notifyTpl older).head? = some e
  restored : ∀ s' tpl, MoveStep s .proceed s' → s.stack = .restoreTpl tpl :: s'.stack →
    Restored s' tpl

/-- Event delivery over every run in which the callers keep to the levels. -/
theorem eventDelivery_discipline
    {trace : List (EventState × Move)}
    (hinit : Initial s₀)
    (hrun : Run MoveStep s₀ trace s)
    (hok : ∀ x ∈ trace, MoveOk x.1 x.2) :
    Disciplined s := by
  have h : Delivers s :=
    hrun.invariant (fun _ _ _ hs hm hstep => moveStep_delivers hs hm hstep) hok hinit.delivers
  constructor
  case queued =>
    intro tpl
    exact ⟨h.ok.queues.nodup tpl,
      fun e he => ⟨h.ok.queues.notifyTpl tpl e he, h.ok.queues.pending tpl e he⟩⟩
  case started =>
    intro newer older e tpl hhistory
    have hin := h.ok.inOrder
    rw [hhistory] at hin
    exact hin.started
  case restored => exact fun s' tpl hstep hreturn => h.restored hstep hreturn

end Run

section Samples

/-- An event at `TPL_CALLBACK`, of `CreateEvent` or of `CreateEventEx`. -/
def sampleEvent (exFlag : Bool) : IEvent where
  signature := eventSignature
  type := evtNotifySignal
  signalCount := 0
  notifyTpl := tplCallback
  eventGroup := ⟨List.replicate 16 0, Variable.length_zeroGuid⟩
  notifyLink := false
  exFlag := exFlag
  timer := ⟨false, 0, 0⟩

/-- Two such events at `TPL_APPLICATION`. -/
def sampleState (exFlag : Bool) : EventState where
  events := fun _ => sampleEvent exFlag
  live := fun e => decide (e < 2)
  gEventQueue := fun _ => []
  gEventPending := 0
  gEfiCurrentTpl := tplApplication
  gEventSignalQueue := [1, 0]
  stack := [.user]
  history := []

theorem sampleState_initial
    (exFlag : Bool) :
    Initial (sampleState exFlag) where
  stack := rfl
  history := rfl
  queue _ := rfl
  pending := rfl
  level := show tplApplication ≤ tplHighLevel by decide
  notifyLink _ _ := rfl
  signalCount _ _ := rfl
  notifyTpl _ _ _ := show tplCallback < tplHighLevel by decide
  signalQueue e := by
    have hhas : ((sampleState exFlag).events e).has evtNotifySignal = true :=
      show (evtNotifySignal &&& evtNotifySignal != 0) = true by decide
    rw [and_iff_left hhas]
    change e ∈ ([1, 0] : List Nat) ↔ decide (e < 2) = true
    rw [mem_cons, mem_singleton, decide_eq_true_eq]
    constructor
    · rintro (rfl | rfl)
      · exact Nat.lt_succ_self 1
      · exact Nat.zero_lt_two
    · intro he
      change (e : Nat) < 2 at he
      exact (Nat.lt_succ_iff_lt_or_eq.mp he).elim (fun h => Or.inr (Nat.lt_one_iff.mp h)) Or.inl
  signalNodup := show [1, 0].Nodup by decide

/-- The function on top of the stack goes on. -/
def goOn (s : EventState) : EventState :=
  (move s .proceed).getD s

/-- The first event is signalled. -/
def sampleSignalled : EventState :=
  coreSignalEvent (sampleState false) (some 0)

theorem eventDelivery_discipline_sample :
    Disciplined (goOn (goOn (goOn (goOn sampleSignalled)))) ∧
      (goOn (goOn (goOn (goOn sampleSignalled)))).history =
        [.started 0 tplCallback, .queued 0 tplCallback, .signalled 0] := by
  refine ⟨?_, rfl⟩
  refine @eventDelivery_discipline _ (sampleState false)
    [(sampleState false, .signalEvent (some 0)), (sampleSignalled, .proceed),
      (goOn sampleSignalled, .proceed), (goOn (goOn sampleSignalled), .proceed),
      (goOn (goOn (goOn sampleSignalled)), .proceed)]
    (sampleState_initial false)
    (.cons rfl (.cons rfl (.cons rfl (.cons rfl (.cons rfl (.nil _)))))) ?_
  intro x hx
  rcases mem_cons.mp hx with rfl | hx
  · intro e he
    obtain rfl := Option.some_inj.mp he
    rfl
  · have hproceed : x.2 = .proceed := by
      simp only [mem_cons, not_mem_nil, or_false] at hx
      rcases hx with rfl | rfl | rfl | rfl <;> rfl
    rw [hproceed]
    trivial

/-- Two events are signalled; the notification function of the first raises the level
and returns. -/
def raisedReturn : List Move :=
  [.raiseTpl tplHighLevel, .signalEvent (some 0), .proceed, .proceed, .signalEvent (some 1),
    .proceed, .proceed, .restoreTpl tplApplication, .proceed, .proceed, .proceed, .proceed,
    .raiseTpl tplNotify, .return, .proceed, .proceed, .proceed]

/-- A notification function that returns at a raised level makes the next one start
there, and `CoreSignalEvent` on an event of `CreateEventEx` lets `CoreRestoreTpl` return
before the event is queued. -/
theorem raisedReturn_startsRaised :
    (∃ trace s, Run MoveStep (sampleState false) trace s ∧
      .started 1 tplNotify ∈ s.history ∧ (s.events 1).notifyTpl = tplCallback) ∧
    (∃ trace s s', Run MoveStep (sampleState true) trace s ∧ MoveStep s .proceed s' ∧
      s.stack = .restoreTpl tplApplication :: s'.stack ∧
      tplApplication < (s'.events 0).notifyTpl ∧ s'.live 0 = true ∧
      .signalled 0 ∈ s'.history ∧ ∀ tpl, .started 0 tpl ∉ s'.history) := by
  constructor
  · have hhistory : (raisedReturn.foldlM move (sampleState false)).map
        (fun s => (decide (.started 1 tplNotify ∈ s.history), (s.events 1).notifyTpl)) =
        some (true, tplCallback) := by rfl
    obtain ⟨s, hs, heq⟩ := Option.map_eq_some_iff.mp hhistory
    obtain ⟨trace, hrun⟩ := Run.of_foldlM hs
    obtain ⟨hmem, htpl⟩ := Prod.mk.inj heq
    exact ⟨trace, s, hrun, of_decide_eq_true hmem, htpl⟩
  · refine ⟨_, _, goOn (coreSignalEvent (sampleState true) (some 0)),
      Run.single (show MoveStep _ (.signalEvent (some 0)) _ from rfl), rfl, rfl, ?_, rfl, ?_, ?_⟩
    · decide
    · exact mem_cons_self
    · intro tpl hmem
      exact absurd (mem_singleton.mp hmem) (fun heq => Label.noConfusion heq)

end Samples

end Event
end Udk
