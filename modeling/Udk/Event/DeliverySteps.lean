import Udk.Event.Delivery

/-!
# Steps of the event services

Each step of the machine, a call of the code on top of the stack or a step of a function
under way, keeps what `Delivers` states.
-/

namespace Udk
namespace Event

open Variable List

section UnderWay

variable {s : EventState} {e : EfiEvent} {newTpl priority : EfiTpl} {eventGroup : Guid}
  {frame caller : Frame} {rest below : List Frame}

theorem Delivers.quiet_of_mask
    (h : Delivers s)
    (hzero : ¬ (tplMask newTpl &&& s.gEventPending ≠ 0)) :
    Quiet s.gEventQueue newTpl := by
  intro tpl htpl
  rw [eq_nil_iff_forall_not_mem]
  intro e he
  have hset := h.ok.queues.pending tpl e he
  rw [tplMask_and_eq_zero h.ok.queues.belowHigh (not_not.mp hzero) htpl] at hset
  exact Bool.false_ne_true hset

theorem restoreTplLoop_delivers
    (h : Delivers s)
    (hstack : s.stack = .restoreTpl newTpl :: rest) :
    Delivers (restoreTplLoop s newTpl rest) := by
  have hok := h.ok.stack
  rw [hstack] at hok
  obtain ⟨hle, hrest⟩ := hok.of_restoreTpl
  have hgaps : rest.filter Frame.isGap = s.stack.filter Frame.isGap := by
    rw [hstack]
    exact (filter_cons_of_neg (by simp [Frame.isGap])).symm
  rw [restoreTplLoop]
  split
  case isTrue hmask =>
    obtain ⟨hlt, hset⟩ := lt_highBitSet64 h.ok.queues.belowHigh hmask
    have hhigh := h.ok.queues.belowHigh _ hset
    constructor
    case ok =>
      refine h.ok.sameGaps (le_of_lt hhigh) ?_ ?_ (highBitSet64 s.gEventPending)
      · rw [hstack]
        exact StackOk.dispatch hhigh hlt hrest
      · exact filter_cons_of_neg (by simp [Frame.isGap])
    case quiet =>
      intro _ tpl htpl
      rw [eq_nil_iff_forall_not_mem]
      intro e he
      exact absurd (le_highBitSet64 (h.ok.queues.pending tpl e he)) (not_le.mpr htpl)
  case isFalse hmask =>
    exact ⟨h.ok.sameGaps (hle.trans h.ok.level) hrest hgaps newTpl,
      fun _ => h.quiet_of_mask hmask⟩

theorem clear_queuesOk
    (h : QueuesOk s)
    (hhigh : priority < tplHighLevel)
    (hempty : s.gEventQueue priority = []) :
    QueuesOk { s with gEventPending := s.gEventPending &&& ~~~(tplBit priority) } :=
  { h with
    belowHigh := h.belowHigh.clear
    pending := by
      intro tpl e he
      refine getLsbD_clear hhigh ?_ (h.pending tpl e he)
      rintro rfl
      exact absurd (hempty ▸ he) not_mem_nil }

/-- The head of a queue leaves it for its notification function. -/
def taken (s : EventState) (e : EfiEvent) (priority : EfiTpl) (tail : List EfiEvent) :
    EventState :=
  { s with gEventQueue := Function.update s.gEventQueue priority tail }.setEvent e
    { s.events e with
      notifyLink := false
      signalCount := if (s.events e).has evtNotifySignal then 0 else (s.events e).signalCount }

section Taken

variable {tail : List EfiEvent} {x : EfiEvent} {tpl : EfiTpl}

theorem taken_queue :
    (taken s e priority tail).gEventQueue = Function.update s.gEventQueue priority tail :=
  rfl

theorem taken_events_self :
    (taken s e priority tail).events e =
      { s.events e with
        notifyLink := false
        signalCount :=
          if (s.events e).has evtNotifySignal then 0 else (s.events e).signalCount } := by
  simp only [taken, EventState.setEvent, Function.update_self]

theorem taken_events_ne
    (h : x ≠ e) :
    (taken s e priority tail).events x = s.events x := by
  simp only [taken, EventState.setEvent, Function.update_of_ne h]

theorem taken_sameTable :
    SameTable s (taken s e priority tail) := by
  intro x
  by_cases hx : x = e
  · subst hx
    rw [taken_events_self]
    rfl
  · rw [taken_events_ne hx]

theorem mem_of_taken
    (hqueue : s.gEventQueue priority = e :: tail)
    (hx : x ∈ (taken s e priority tail).gEventQueue tpl) :
    x ∈ s.gEventQueue tpl := by
  rw [taken_queue] at hx
  by_cases heq : tpl = priority
  · subst heq
    rw [Function.update_self] at hx
    rw [hqueue]
    exact mem_cons_of_mem e hx
  · rwa [Function.update_of_ne heq] at hx

theorem mem_taken
    (hqueue : s.gEventQueue priority = e :: tail)
    (hne : x ≠ e)
    (hx : x ∈ s.gEventQueue tpl) :
    x ∈ (taken s e priority tail).gEventQueue tpl := by
  rw [taken_queue]
  by_cases heq : tpl = priority
  · subst heq
    rw [hqueue, mem_cons, or_iff_right hne] at hx
    rwa [Function.update_self]
  · rwa [Function.update_of_ne heq]

theorem taken_queuesOk
    (h : QueuesOk s)
    (hqueue : s.gEventQueue priority = e :: tail) :
    QueuesOk (taken s e priority tail) := by
  have hhead : e ∈ s.gEventQueue priority := by
    rw [hqueue]
    exact mem_cons_self
  have htpl : (s.events e).notifyTpl = priority := h.notifyTpl _ e hhead
  have hnodup := h.nodup priority
  rw [hqueue] at hnodup
  have htable : SameTable s (taken s e priority tail) := taken_sameTable
  constructor
  case belowHigh => exact h.belowHigh
  case pending => exact fun tpl x hx => h.pending tpl x (mem_of_taken hqueue hx)
  case notifyTpl =>
    intro tpl x hx
    rw [htable.notifyTpl]
    exact h.notifyTpl tpl x (mem_of_taken hqueue hx)
  case queued =>
    intro tpl x hx
    rw [htable.notifies]
    exact h.queued tpl x (mem_of_taken hqueue hx)
  case nodup =>
    intro tpl
    rw [taken_queue]
    by_cases heq : tpl = priority
    · subst heq
      rw [Function.update_self]
      exact hnodup.of_cons
    · rw [Function.update_of_ne heq]
      exact h.nodup tpl
  case linked =>
    intro x hx
    rw [htable.notifyTpl]
    by_cases hxe : x = e
    · subst hxe
      rw [taken_events_self, taken_queue, htpl, Function.update_self]
      constructor
      · exact fun hfalse => absurd hfalse Bool.false_ne_true
      · exact fun hmem => absurd hmem (nodup_cons.mp hnodup).1
    · rw [taken_events_ne hxe, h.linked x hx]
      exact ⟨mem_taken hqueue hxe, mem_of_taken hqueue⟩
  case bounds =>
    intro x hx hnotifies
    rw [htable.notifyTpl]
    exact h.bounds x hx (htable.notifies.mp hnotifies)
  case signalQueue =>
    intro x
    rw [htable.has]
    exact h.signalQueue x
  case signalNodup => exact h.signalNodup

theorem noGap_of_taken
    (hbelow : StackOk (Quiet s.gEventQueue) newTpl below)
    (hlt : newTpl < priority)
    (hqueue : s.gEventQueue priority = e :: tail) :
    NoGap below := by
  by_contra hgap
  have hquiet := hbelow.quiet_of_gap (fun _ _ hq hle => hq.mono hle) hgap
  exact absurd (hqueue.symm.trans (hquiet priority hlt)) (cons_ne_nil e tail)

theorem taken_eventsOk
    (h : EventsOk s priority)
    (hstack : s.stack = .dispatchEventNotifies priority :: rest)
    (hquiet : Quiet s.gEventQueue priority)
    (hqueue : s.gEventQueue priority = e :: tail) :
    EventsOk ((taken s e priority tail).push (.deliver e priority)) priority := by
  have hok := h.stack
  rw [hstack] at hok
  obtain ⟨-, hhigh, newTpl, below, rfl, hlt, hbelow⟩ := hok.of_dispatch
  have hbelowGap : NoGap below := noGap_of_taken hbelow hlt hqueue
  have hgap : NoGap s.stack := by
    rw [hstack]
    exact NoGap.cons rfl (NoGap.cons rfl hbelowGap)
  have hnone : ∀ eventGroup, .signalGroup eventGroup ∉ s.stack :=
    fun eventGroup hmem => absurd (hgap _ hmem) (by simp [Frame.isGap])
  have htpl : (s.events e).notifyTpl = priority := by
    refine h.queues.notifyTpl priority e ?_
    rw [hqueue]
    exact mem_cons_self
  have htable : SameTable s (taken s e priority tail) := taken_sameTable
  have hsignals : ∀ x, Signals ((taken s e priority tail).push (.deliver e priority)) x →
      Signals s x := fun x hx => ⟨hx.1, (htable.has _).symm.trans hx.2⟩
  constructor
  case queues =>
    exact (taken_queuesOk h.queues hqueue).of_sameTable (SameTable.refl _) (fun _ => rfl)
      rfl rfl rfl rfl
  case level => exact h.level
  case stack =>
    have hquiet' : Quiet (taken s e priority tail).gEventQueue priority := by
      intro tpl hgt
      rw [taken_queue, Function.update_of_ne (ne_of_gt hgt)]
      exact hquiet tpl hgt
    change StackOk (Quiet (taken s e priority tail).gEventQueue) priority
      (.deliver e priority :: s.stack)
    rw [hstack]
    refine StackOk.deliver hquiet' (NoGap.cons rfl hbelowGap) ?_
    exact StackOk.dispatch hhigh hlt (hbelow.of_noGap hbelowGap)
  case flight =>
    intro x tpl hx
    change ((taken s e priority tail).events x).notifyTpl = tpl
    rw [htable.notifyTpl]
    rcases mem_cons.mp hx with heq | hx
    · cases heq
      exact htpl
    · exact absurd (hgap _ hx) (by simp [Frame.isGap])
  case fifo =>
    intro tpl
    change waiting tpl s.history =
      (if priority = tpl then e :: inFlight tpl s.stack else inFlight tpl s.stack) ++
        Function.update s.gEventQueue priority tail tpl
    rw [h.fifo tpl, hgap.inFlight]
    by_cases heq : priority = tpl
    · subst heq
      rw [if_pos rfl, Function.update_self, hqueue]
      rfl
    · rw [if_neg heq, Function.update_of_ne (Ne.symm heq)]
  case counted =>
    intro x hx _ hcount
    refine Or.inl ?_
    change x ∈ (taken s e priority tail).gEventQueue ((taken s e priority tail).events x).notifyTpl
    change ((taken s e priority tail).events x).signalCount ≠ 0 at hcount
    rw [htable.notifyTpl]
    by_cases hxe : x = e
    · subst hxe
      rw [taken_events_self, (hsignals x hx).2, if_pos rfl] at hcount
      exact absurd rfl hcount
    · rw [taken_events_ne hxe] at hcount
      rcases h.counted x (hsignals x hx) id hcount with hmem | hgroup
      · exact mem_taken hqueue hxe hmem
      · exact absurd hgroup (hnone _)
  case toCome =>
    intro x hx _ howed
    refine Or.inl ?_
    change x ∈ waiting ((taken s e priority tail).events x).notifyTpl s.history
    rw [htable.notifyTpl]
    rcases h.toCome x (hsignals x hx) id howed with hmem | hgroup
    · exact hmem
    · exact absurd hgroup (hnone _)
  case inOrder =>
    have hfun : (fun x => ((taken s e priority tail).events x).notifyTpl) =
        fun x => (s.events x).notifyTpl := funext fun x => htable.notifyTpl
    change InOrder (fun x => ((taken s e priority tail).events x).notifyTpl) s.history
    rw [hfun]
    exact h.inOrder

end Taken

theorem dispatchTurn_delivers
    (h : Delivers s)
    (hstack : s.stack = .dispatchEventNotifies priority :: rest) :
    Delivers (dispatchTurn s priority rest) := by
  have hok := h.ok.stack
  rw [hstack] at hok
  obtain ⟨hcur, hhigh, newTpl, below, rfl, hlt, hbelow⟩ := hok.of_dispatch
  subst hcur
  have hquiet : Quiet s.gEventQueue s.gEfiCurrentTpl := by
    refine h.quiet ?_
    rw [hstack]
    exact not_restoring fun _ heq => Frame.noConfusion heq
  rw [dispatchTurn]
  cases hqueue : s.gEventQueue s.gEfiCurrentTpl with
  | nil =>
      have hcleared : EventsOk
          { s with gEventPending := s.gEventPending &&& ~~~(tplBit s.gEfiCurrentTpl) }
          s.gEfiCurrentTpl :=
        { h.ok with queues := clear_queuesOk h.ok.queues hhigh hqueue }
      refine EventsOkBut.release
        (hcleared.sameGaps (le_of_lt hhigh) (StackOk.restoreTpl (le_of_lt hlt) hbelow) ?_
          s.gEfiCurrentTpl)
      change _ = s.stack.filter Frame.isGap
      rw [hstack]
      rfl
  | cons e tail => exact (taken_eventsOk h.ok hstack hquiet hqueue).release

/-- The notification function is called, as the first of those that waited. -/
theorem deliver_delivers
    (h : Delivers s)
    (hstack : s.stack = .deliver e priority :: rest) :
    Delivers ({ s with stack := .notify e priority :: rest }.note
      (.started e s.gEfiCurrentTpl)) := by
  have hok := h.ok.stack
  rw [hstack] at hok
  obtain ⟨hcur, hquiet, hgap, below, rfl, hbelowGap, hrest⟩ := hok.of_deliver
  have htpl : (s.events e).notifyTpl = priority := by
    refine h.ok.flight e priority ?_
    rw [hstack]
    exact mem_cons_self
  have hflight : ∀ tpl, inFlight tpl s.stack = if priority = tpl then [e] else [] := by
    intro tpl
    rw [hstack, inFlight, hgap.inFlight]
  have hgap' : NoGap (.notify e priority :: .dispatchEventNotifies priority :: below) :=
    NoGap.cons rfl hgap
  have hwaiting : ∀ tpl, (waiting tpl s.history).erase e = s.gEventQueue tpl := by
    intro tpl
    rw [h.ok.fifo, hflight]
    by_cases heq : priority = tpl
    · rw [if_pos heq, singleton_append, erase_cons_head]
    · rw [if_neg heq, nil_append, erase_of_not_mem]
      exact fun hmem => heq (htpl.symm.trans (h.ok.queues.notifyTpl tpl e hmem))
  have hnone : ∀ eventGroup, .signalGroup eventGroup ∉ s.stack := by
    intro eventGroup hmem
    rw [hstack] at hmem
    rcases mem_cons.mp hmem with heq | hmem
    · exact Frame.noConfusion heq
    · exact absurd (hgap _ hmem) (by simp [Frame.isGap])
  constructor
  case ok =>
    constructor
    case queues =>
      exact h.ok.queues.of_sameTable (SameTable.refl s) (fun _ => rfl) rfl rfl rfl rfl
    case level => exact h.ok.level
    case stack => exact StackOk.notify hbelowGap hrest
    case flight => exact fun x tpl hx => absurd (hgap' _ hx) (by simp [Frame.isGap])
    case fifo =>
      intro tpl
      change (waiting tpl s.history).erase e =
        inFlight tpl (.notify e priority :: .dispatchEventNotifies priority :: below) ++
          s.gEventQueue tpl
      rw [hwaiting, hgap'.inFlight]
      rfl
    case counted =>
      intro x hsignals _ hcount
      rcases h.ok.counted x hsignals id hcount with hmem | hgroup
      · exact Or.inl hmem
      · exact absurd hgroup (hnone _)
    case toCome =>
      intro x hsignals _ howed
      simp only [EventState.note, owed, Bool.and_eq_true, decide_eq_true_eq] at howed
      rcases h.ok.toCome x hsignals id howed.2 with hmem | hgroup
      · exact Or.inl ((mem_erase_of_ne (Ne.symm howed.1)).mpr hmem)
      · exact absurd hgroup (hnone _)
    case inOrder =>
      refine ⟨hcur.trans htpl.symm, ?_, h.ok.inOrder⟩
      change (waiting (s.events e).notifyTpl s.history).head? = some e
      rw [htpl, h.ok.fifo, hflight, if_pos rfl]
      rfl
  case quiet =>
    intro _
    change Quiet s.gEventQueue s.gEfiCurrentTpl
    rw [hcur]
    exact hquiet

theorem coreNotifySignalList_delivers
    (h : EventsOkBut (fun x => (s.events x).eventGroup = eventGroup) s s.gEfiCurrentTpl)
    (hgap : NoGap s.stack) :
    Delivers (coreNotifySignalList s eventGroup) := by
  obtain ⟨henq, hall⟩ :=
    @Enqueued.notifyMembers s eventGroup s.gEventSignalQueue h.queues (fun x hx => hx)
  have hok := h.enqueued hgap henq
    (fun x hsignals hx => hall x ((h.queues.signalQueue x).mpr hsignals) hx)
  exact hok.release

theorem signalGroup_delivers
    (h : Delivers s)
    (hstack : s.stack = .signalGroup eventGroup :: rest) :
    Delivers (coreNotifySignalList { s with stack := .signalled :: rest } eventGroup) := by
  have hok := h.ok.stack
  rw [hstack] at hok
  obtain ⟨hgap, caller, below, rfl, hcaller, hrest⟩ := hok.of_signalGroup
  have hgap' : NoGap (.signalled :: caller :: below) := NoGap.cons rfl hgap
  refine coreNotifySignalList_delivers ?_ hgap'
  refine h.ok.restack h.ok.level (StackOk.tail rfl hcaller hrest) ?_ ?_ ?_ s.gEfiCurrentTpl
  · intro tpl
    rw [hstack, hgap'.inFlight, inFlight]
    · exact (hgap.inFlight tpl).symm
    · exact fun _ _ heq => Frame.noConfusion heq
  · exact fun x tpl hx => absurd (hgap' _ hx) (by simp [Frame.isGap])
  · intro x _ hskip
    refine Or.inl ⟨id, fun hmem => ?_⟩
    rw [hstack] at hmem
    rcases mem_cons.mp hmem with heq | hmem
    · cases heq
      exact absurd rfl hskip
    · exact mem_cons_of_mem _ hmem

theorem tail_eventsOk
    {stack : List Frame}
    (h : Delivers s)
    (hstack : s.stack = frame :: rest)
    (htail : frame.isTail = true)
    (hnew : stack = rest ∨ ∃ frame', frame'.isTail = true ∧ stack = frame' :: rest) :
    EventsOk { s with stack := stack } s.gEfiCurrentTpl ∧
      Quiet s.gEventQueue s.gEfiCurrentTpl := by
  have hok := h.ok.stack
  rw [hstack] at hok
  obtain ⟨caller, below, rfl, hcaller, hrest⟩ := hok.of_tail htail
  have hgap : NoGap (caller :: below) := hrest.noGap_caller hcaller
  have hfilter : ∀ stack, NoGap stack → stack.filter Frame.isGap = [] :=
    fun stack hstack => filter_eq_nil_iff.mpr fun frame hframe => by simp [hstack frame hframe]
  have hold : s.stack.filter Frame.isGap = [] := by
    rw [hstack]
    exact hfilter _ (NoGap.cons (isGap_of_isTail htail) hgap)
  constructor
  · rcases hnew with rfl | ⟨frame', htail', rfl⟩
    · exact h.ok.sameGaps h.ok.level hrest ((hfilter _ hgap).trans hold.symm) s.gEfiCurrentTpl
    · exact h.ok.sameGaps h.ok.level (StackOk.tail htail' hcaller hrest)
        ((hfilter _ (NoGap.cons (isGap_of_isTail htail') hgap)).trans hold.symm) s.gEfiCurrentTpl
  · refine h.quiet ?_
    rw [hstack]
    refine not_restoring fun newTpl heq => ?_
    rw [heq] at htail
    exact Bool.false_ne_true htail

theorem signalled_delivers
    (h : Delivers s)
    (hstack : s.stack = .signalled :: rest) :
    Delivers ({ s with stack := .exit .success :: rest }.coreReleaseEventLock
      s.gEfiCurrentTpl) :=
  (tail_eventsOk h hstack rfl (Or.inr ⟨.exit .success, rfl, rfl⟩)).1.release

theorem checkEventTurn_delivers
    (h : Delivers s)
    (hstack : s.stack = .checkEvent e :: rest) :
    Delivers (checkEventTurn s e rest) := by
  rw [checkEventTurn]
  split
  case isTrue hcount =>
    have hok := (tail_eventsOk h hstack rfl (Or.inr ⟨.exit .success, rfl, rfl⟩)).1
    exact (hok.setSignalCount (fun _ _ hfalse => absurd rfl hfalse)).release
  case isFalse hcount =>
    obtain ⟨hok, hquiet⟩ := tail_eventsOk h hstack rfl (Or.inr ⟨.exit .notReady, rfl, rfl⟩)
    exact ⟨hok, fun _ => hquiet⟩

theorem exit_delivers
    {status : EventStatus}
    (h : Delivers s)
    (hstack : s.stack = .exit status :: rest) :
    Delivers ({ s with stack := rest }.note (.returned status)) := by
  obtain ⟨hok, hquiet⟩ := tail_eventsOk h hstack rfl (Or.inl rfl)
  exact ⟨hok.note (fun _ => rfl) (fun _ _ _ howed => Or.inl howed) (fun _ hin => hin),
    fun _ => hquiet⟩

end UnderWay

section Calls

/-- What a caller does: it raises the level or restores a lower one, it uses no event
that is closed, and a notification function returns at its own level. -/
def MoveOk (s : EventState) : Move → Prop
  | .raiseTpl newTpl => s.gEfiCurrentTpl ≤ newTpl ∧ newTpl ≤ tplHighLevel
  | .restoreTpl newTpl => newTpl ≤ s.gEfiCurrentTpl
  | .signalEvent userEvent => ∀ e ∈ userEvent, s.live e = true
  | .checkEvent userEvent => ∀ e ∈ userEvent, s.live e = true
  | .notifySignalList _ => True
  | .closeEvent userEvent => ∀ e ∈ userEvent, s.live e = true ∧ .checkEvent e ∉ s.stack
  | .return => ∀ e priority rest, s.stack = .notify e priority :: rest →
      s.gEfiCurrentTpl = priority
  | .proceed => True

variable {s : EventState} {e : EfiEvent} {newTpl : EfiTpl} {eventGroup : Guid}
  {userEvent : Option EfiEvent} {frame caller : Frame} {rest : List Frame}

/-- The stack at a call. -/
structure AtCall (s : EventState) (caller : Frame) (rest : List Frame) : Prop where
  delivers : Delivers s
  stack : s.stack = caller :: rest
  isCaller : caller.isCaller = true

namespace AtCall

variable (h : AtCall s caller rest)
include h

theorem stackOk :
    StackOk (Quiet s.gEventQueue) s.gEfiCurrentTpl (caller :: rest) := by
  rw [← h.stack]
  exact h.delivers.ok.stack

theorem noGap :
    NoGap s.stack := by
  rw [h.stack]
  exact h.stackOk.noGap_caller h.isCaller

theorem quiet :
    Quiet s.gEventQueue s.gEfiCurrentTpl := by
  refine h.delivers.quiet ?_
  rw [h.stack]
  refine not_restoring fun newTpl heq => ?_
  have hcaller := h.isCaller
  rw [heq] at hcaller
  exact Bool.false_ne_true hcaller

theorem tail
    (htail : frame.isTail = true) :
    StackOk (Quiet s.gEventQueue) s.gEfiCurrentTpl (frame :: s.stack) := by
  rw [h.stack]
  exact StackOk.tail htail h.isCaller h.stackOk

theorem none_inGroup
    (eventGroup : Guid) :
    .signalGroup eventGroup ∉ s.stack :=
  fun hmem => absurd (h.noGap _ hmem) (by simp [Frame.isGap])

theorem push
    (htail : frame.isTail = true) :
    Delivers (s.push frame) where
  ok := h.delivers.ok.sameGaps h.delivers.ok.level (h.tail htail)
    (filter_cons_of_neg (by simp [isGap_of_isTail htail])) s.gEfiCurrentTpl
  quiet := fun _ => h.quiet

theorem raiseTpl
    (hhigh : newTpl ≤ tplHighLevel)
    (hle : s.gEfiCurrentTpl ≤ newTpl) :
    Delivers (coreRaiseTpl s newTpl) where
  ok := h.delivers.ok.sameGaps hhigh (h.stack ▸ h.stackOk.caller_level h.isCaller) rfl newTpl
  quiet := fun _ => h.quiet.mono hle

theorem restoreTpl
    (hle : newTpl ≤ s.gEfiCurrentTpl) :
    Delivers (coreRestoreTpl s newTpl) := by
  have hlevel : (if s.gEfiCurrentTpl ≥ tplHighLevel ∧ newTpl < tplHighLevel then tplHighLevel
      else s.gEfiCurrentTpl) = s.gEfiCurrentTpl := by
    split
    case isTrue hhigh => exact le_antisymm hhigh.1 h.delivers.ok.level
    case isFalse => rfl
  rw [coreRestoreTpl, hlevel]
  constructor
  case ok =>
    refine h.delivers.ok.sameGaps h.delivers.ok.level ?_ ?_ s.gEfiCurrentTpl
    · rw [h.stack]
      exact StackOk.restoreTpl hle (h.stackOk.caller_level h.isCaller)
    · exact filter_cons_of_neg (by simp [Frame.isGap])
  case quiet => exact fun hnot => absurd ⟨newTpl, s.stack, rfl⟩ hnot

theorem notifySignalList :
    Delivers (coreNotifySignalList s eventGroup) :=
  coreNotifySignalList_delivers (h.delivers.ok.widen fun _ hfalse => hfalse.elim) h.noGap

theorem signalledBut
    (count : UInt32) :
    EventsOkBut (fun x => x = e) ((s.note (.signalled e)).setEvent e
      { s.events e with signalCount := count }) s.gEfiCurrentTpl := by
  have hwide : EventsOkBut (fun x => x = e) s s.gEfiCurrentTpl :=
    h.delivers.ok.widen fun _ hfalse => hfalse.elim
  have hnoted : EventsOkBut (fun x => x = e) (s.note (.signalled e)) s.gEfiCurrentTpl := by
    refine hwide.note (fun _ => rfl) ?_ (fun _ hin => hin)
    intro x _ hne howed
    simp only [owed, Bool.or_eq_true, decide_eq_true_eq] at howed
    exact Or.inl (howed.resolve_left fun heq => hne heq.symm)
  exact hnoted.setSignalCount fun _ hne _ => absurd rfl hne

theorem signalAgain
    (howed : Signals s e → ToCome s e) :
    EventsOk (s.note (.signalled e)) s.gEfiCurrentTpl := by
  refine h.delivers.ok.note (fun _ => rfl) ?_ (fun _ hin => hin)
  intro x hsignals _ hx
  simp only [owed, Bool.or_eq_true, decide_eq_true_eq] at hx
  rcases hx with rfl | hx
  · exact Or.inr (howed hsignals)
  · exact Or.inl hx

end AtCall

end Calls

end Event
end Udk
