import Udk.Event.Tpl

/-!
# The event queues and their history

What the history says: which events wait at a level and in which order, and which
signals have not led to a notification yet.  The queues agree with the links and the
mask, and `CoreNotifyEvent` keeps that.
-/

/-!
## The mask of pending levels

The bits of `1 << Tpl` and of `-2 << NewTpl` after the conversion to `UINTN`, and what
the loop of `CoreRestoreTpl` learns from them about a mask with bits below
`TPL_HIGH_LEVEL` only.
-/

namespace Udk
namespace Event

section Bits

/-- No bit at `TPL_HIGH_LEVEL` or above. -/
def BelowHigh (pending : BitVec 64) : Prop :=
  ∀ tpl, pending.getLsbD tpl = true → tpl < tplHighLevel

variable {pending : BitVec 64} {tpl newTpl i : Nat}

theorem getLsbD_one_int :
    (1 : BitVec 32).getLsbD i = decide (i = 0) := by
  change (1#32).getLsbD i = _
  rw [BitVec.getLsbD_one]
  by_cases hi : i = 0
  · simp [hi]
  · simp [hi]

theorem getLsbD_tplBit
    (htpl : tpl < tplHighLevel) :
    (tplBit tpl).getLsbD i = decide (i = tpl) := by
  have h31 : tpl < 31 := htpl
  have hmsb : ((1 : BitVec 32) <<< tpl).msb = false := by
    rw [BitVec.msb_eq_getLsbD_last, BitVec.getLsbD_shiftLeft, getLsbD_one_int]
    have hpos : 32 - 1 - tpl ≠ 0 := by omega
    simp [hpos]
  rw [tplBit, BitVec.getLsbD_signExtend, hmsb, BitVec.getLsbD_shiftLeft, getLsbD_one_int]
  by_cases hi : i = tpl
  · subst hi
    simp [show i < 64 by omega, show i < 32 by omega]
  · have hne : i < tpl ∨ i - tpl ≠ 0 := by omega
    rcases hne with hlt | hne
    · simp [hi, hlt]
    · simp [hi, hne]

theorem getLsbD_tplMask
    (hi : i < tplHighLevel) :
    (tplMask newTpl).getLsbD i = decide (newTpl < i) := by
  have hi31 : i < 31 := hi
  have htwo : ∀ j < 32, (-2 : BitVec 32).getLsbD j = decide (0 < j) := by decide
  rw [tplMask, BitVec.getLsbD_signExtend, BitVec.getLsbD_shiftLeft,
    htwo (i - newTpl) (by omega)]
  simp only [show i < 64 by omega, show i < 32 by omega, if_true, decide_true, Bool.true_and]
  by_cases hlt : newTpl < i
  · simp [hlt, show ¬ i < newTpl by omega]
  · simp [hlt]

theorem BelowHigh.set
    (h : BelowHigh pending)
    (htpl : tpl < tplHighLevel) :
    BelowHigh (pending ||| tplBit tpl) := by
  intro i hi
  rw [BitVec.getLsbD_or, Bool.or_eq_true, getLsbD_tplBit htpl, decide_eq_true_eq] at hi
  rcases hi with hi | rfl
  · exact h i hi
  · exact htpl

theorem BelowHigh.clear
    (h : BelowHigh pending) :
    BelowHigh (pending &&& ~~~(tplBit tpl)) := by
  intro i hi
  rw [BitVec.getLsbD_and, Bool.and_eq_true] at hi
  exact h i hi.1

theorem getLsbD_clear
    (htpl : tpl < tplHighLevel)
    (hne : i ≠ tpl)
    (hi : pending.getLsbD i = true) :
    (pending &&& ~~~(tplBit tpl)).getLsbD i = true := by
  have hi64 : i < 64 := BitVec.lt_of_getLsbD hi
  rw [BitVec.getLsbD_and, BitVec.getLsbD_not, getLsbD_tplBit htpl, hi]
  simp [hi64, hne]

end Bits

section RestoreLoop

variable {pending : BitVec 64} {newTpl : Nat} {i : Nat}

theorem ne_zero_of_getLsbD
    (h : pending.getLsbD i = true) :
    pending.toNat ≠ 0 := by
  intro hzero
  have hpending : pending = 0#64 := BitVec.eq_of_toNat_eq (by simpa using hzero)
  rw [hpending, BitVec.getLsbD_zero] at h
  exact Bool.false_ne_true h

theorem getLsbD_highBitSet64
    (h : pending.toNat ≠ 0) :
    pending.getLsbD (highBitSet64 pending) = true :=
  Nat.testBit_log2 h

theorem le_highBitSet64
    (h : pending.getLsbD i = true) :
    i ≤ highBitSet64 pending := by
  have hle : 2 ^ i ≤ pending.toNat := Nat.ge_two_pow_of_testBit h
  exact (Nat.le_log2 (ne_zero_of_getLsbD h)).mpr hle

theorem tplMask_and_eq_zero
    (hbelow : BelowHigh pending)
    (hzero : tplMask newTpl &&& pending = 0)
    (hi : newTpl < i) :
    pending.getLsbD i = false := by
  by_contra hset
  have hset' : pending.getLsbD i = true := by simpa using hset
  have hbit : (tplMask newTpl &&& pending).getLsbD i = true := by
    rw [BitVec.getLsbD_and, getLsbD_tplMask (hbelow i hset'), hset']
    simp [hi]
  rw [hzero] at hbit
  simp at hbit

theorem lt_highBitSet64
    (hbelow : BelowHigh pending)
    (hne : tplMask newTpl &&& pending ≠ 0) :
    newTpl < highBitSet64 pending ∧ pending.getLsbD (highBitSet64 pending) = true := by
  obtain ⟨i, hi⟩ : ∃ i, (tplMask newTpl &&& pending).getLsbD i = true := by
    by_contra hnone
    refine hne (BitVec.eq_of_getLsbD_eq fun i _ => ?_)
    have hbit : (tplMask newTpl &&& pending).getLsbD i ≠ true := fun h => hnone ⟨i, h⟩
    simpa using hbit
  rw [BitVec.getLsbD_and, Bool.and_eq_true] at hi
  obtain ⟨hmask, hset⟩ := hi
  rw [getLsbD_tplMask (hbelow i hset), decide_eq_true_eq] at hmask
  exact ⟨lt_of_lt_of_le hmask (le_highBitSet64 hset),
    getLsbD_highBitSet64 (ne_zero_of_getLsbD hset)⟩

end RestoreLoop

end Event
end Udk

namespace Udk
namespace Event

open Variable List

section History

/-- The events that wait at a level, in the order they were last queued. -/
def waiting (tpl : EfiTpl) : List Label → List EfiEvent
  | [] => []
  | .queued e tpl' :: history =>
    if tpl' = tpl then (waiting tpl history).erase e ++ [e] else waiting tpl history
  | .started e _ :: history => (waiting tpl history).erase e
  | .closed e :: history => (waiting tpl history).erase e
  | .signalled _ :: history => waiting tpl history
  | .returned _ :: history => waiting tpl history

/-- The event was signalled and has not been notified since. -/
def owed (e : EfiEvent) : List Label → Bool
  | [] => false
  | .signalled e' :: history => decide (e' = e) || owed e history
  | .started e' _ :: history => decide (e' ≠ e) && owed e history
  | .queued _ _ :: history => owed e history
  | .closed _ :: history => owed e history
  | .returned _ :: history => owed e history

/-- Each notification function started at its level, and as the first of those that
waited there. -/
def InOrder (notifyTpl : EfiEvent → EfiTpl) : List Label → Prop
  | [] => True
  | .started e tpl :: history =>
    tpl = notifyTpl e ∧ (waiting (notifyTpl e) history).head? = some e ∧
      InOrder notifyTpl history
  | _ :: history => InOrder notifyTpl history

theorem InOrder.started
    {notifyTpl : EfiEvent → EfiTpl} {newer older : List Label} {e : EfiEvent} {tpl : EfiTpl}
    (h : InOrder notifyTpl (newer ++ .started e tpl :: older)) :
    tpl = notifyTpl e ∧ (waiting (notifyTpl e) older).head? = some e := by
  induction newer with
  | nil => exact ⟨h.1, h.2.1⟩
  | cons label newer ih =>
      cases label with
      | started e' tpl' => exact ih h.2.2
      | signalled e' | queued e' tpl' | closed e' | returned status => exact ih h

end History

section Queues

/-- The fields of an event that no service writes. -/
def IEvent.fixed (event : IEvent) : UInt64 × UInt32 × EfiTpl × Guid × Bool :=
  (event.signature, event.type, event.notifyTpl, event.eventGroup, event.exFlag)

/-- The event has a notification function. -/
def IEvent.notifies (event : IEvent) : Prop :=
  event.has evtNotifyWait = true ∨ event.has evtNotifySignal = true

/-- Two event tables that agree on the fields that no service writes. -/
def SameTable (s s' : EventState) : Prop :=
  ∀ e, (s'.events e).fixed = (s.events e).fixed

/-- No event is queued above a level. -/
def Quiet (queue : EfiTpl → List EfiEvent) (tpl : EfiTpl) : Prop :=
  ∀ tpl', tpl < tpl' → queue tpl' = []

/-- The queues, the links in the events and the mask agree. -/
structure QueuesOk (s : EventState) : Prop where
  belowHigh : BelowHigh s.gEventPending
  pending : ∀ tpl, ∀ e ∈ s.gEventQueue tpl, s.gEventPending.getLsbD tpl = true
  notifyTpl : ∀ tpl, ∀ e ∈ s.gEventQueue tpl, (s.events e).notifyTpl = tpl
  queued : ∀ tpl, ∀ e ∈ s.gEventQueue tpl, s.live e = true ∧ (s.events e).notifies
  nodup : ∀ tpl, (s.gEventQueue tpl).Nodup
  linked : ∀ e, s.live e = true →
    ((s.events e).notifyLink = true ↔ e ∈ s.gEventQueue (s.events e).notifyTpl)
  bounds : ∀ e, s.live e = true → (s.events e).notifies → (s.events e).notifyTpl < tplHighLevel
  signalQueue : ∀ e, e ∈ s.gEventSignalQueue ↔
    s.live e = true ∧ (s.events e).has evtNotifySignal = true
  signalNodup : s.gEventSignalQueue.Nodup

variable {s s' : EventState} {e x : EfiEvent} {tpl : EfiTpl}

theorem Quiet.mono
    {queue : EfiTpl → List EfiEvent} {tpl' : EfiTpl}
    (h : Quiet queue tpl)
    (hle : tpl ≤ tpl') :
    Quiet queue tpl' :=
  fun tpl'' htpl => h tpl'' (lt_of_le_of_lt hle htpl)

namespace SameTable

theorem refl (s : EventState) : SameTable s s :=
  fun _ => rfl

variable (h : SameTable s s')
include h

theorem trans
    {s'' : EventState}
    (h' : SameTable s' s'') :
    SameTable s s'' :=
  fun e => (h' e).trans (h e)

theorem notifyTpl :
    (s'.events e).notifyTpl = (s.events e).notifyTpl :=
  congrArg (fun fields => fields.2.2.1) (h e)

theorem eventGroup :
    (s'.events e).eventGroup = (s.events e).eventGroup :=
  congrArg (fun fields => fields.2.2.2.1) (h e)

theorem has
    (mask : UInt32) :
    (s'.events e).has mask = (s.events e).has mask := by
  have htype : (s'.events e).type = (s.events e).type := congrArg (fun fields => fields.2.1) (h e)
  rw [IEvent.has, IEvent.has, htype]

theorem notifies :
    (s'.events e).notifies ↔ (s.events e).notifies := by
  rw [IEvent.notifies, IEvent.notifies, h.has, h.has]

end SameTable

theorem sameTable_setEvent
    {event : IEvent}
    (h : event.fixed = (s.events e).fixed) :
    SameTable s (s.setEvent e event) := by
  intro x
  by_cases hx : x = e
  · subst hx
    simp only [EventState.setEvent, Function.update_self]
    exact h
  · simp only [EventState.setEvent, Function.update_of_ne hx]

/-- The queues after a change that writes none of what `QueuesOk` reads but the fields
of events that no service writes. -/
theorem QueuesOk.of_sameTable
    (h : QueuesOk s)
    (htable : SameTable s s')
    (hlink : ∀ x, (s'.events x).notifyLink = (s.events x).notifyLink)
    (hlive : s'.live = s.live)
    (hqueue : s'.gEventQueue = s.gEventQueue)
    (hpending : s'.gEventPending = s.gEventPending)
    (hsignal : s'.gEventSignalQueue = s.gEventSignalQueue) :
    QueuesOk s' where
  belowHigh := by
    rw [hpending]
    exact h.belowHigh
  pending := by
    rw [hpending, hqueue]
    exact h.pending
  notifyTpl tpl e he := by
    rw [hqueue] at he
    rw [htable.notifyTpl]
    exact h.notifyTpl tpl e he
  queued tpl e he := by
    rw [hqueue] at he
    rw [hlive, htable.notifies]
    exact h.queued tpl e he
  nodup := by
    rw [hqueue]
    exact h.nodup
  linked e he := by
    rw [hlive] at he
    rw [hlink, htable.notifyTpl, hqueue]
    exact h.linked e he
  bounds e he hnotifies := by
    rw [hlive] at he
    rw [htable.notifyTpl]
    exact h.bounds e he (htable.notifies.mp hnotifies)
  signalQueue e := by
    rw [hsignal, hlive, htable.has]
    exact h.signalQueue e
  signalNodup := by
    rw [hsignal]
    exact h.signalNodup

end Queues

section NotifyEvent

variable {s s' s'' : EventState} {e x : EfiEvent} {tpl : EfiTpl}

theorem coreNotifyEvent_queue
    (h : QueuesOk s)
    (hlive : s.live e = true) :
    (coreNotifyEvent s e).gEventQueue =
      Function.update s.gEventQueue (s.events e).notifyTpl
        ((s.gEventQueue (s.events e).notifyTpl).erase e ++ [e]) := by
  have hnot : ∀ tpl, tpl ≠ (s.events e).notifyTpl → e ∉ s.gEventQueue tpl :=
    fun tpl hne he => hne (h.notifyTpl tpl e he).symm
  funext tpl
  by_cases htpl : tpl = (s.events e).notifyTpl
  · subst htpl
    rw [Function.update_self]
    cases hlink : (s.events e).notifyLink with
    | true =>
        simp [coreNotifyEvent, hlink, EventState.note, EventState.setEvent,
          EventState.insertNotifyLink, EventState.removeNotifyLink]
    | false =>
        have he : e ∉ s.gEventQueue (s.events e).notifyTpl := by
          intro hmem
          have hlinked := (h.linked e hlive).mpr hmem
          rw [hlink] at hlinked
          exact Bool.false_ne_true hlinked
        rw [erase_of_not_mem he]
        simp [coreNotifyEvent, hlink, EventState.note, EventState.setEvent,
          EventState.insertNotifyLink]
  · rw [Function.update_of_ne htpl]
    cases hlink : (s.events e).notifyLink with
    | true =>
        simp [coreNotifyEvent, hlink, EventState.note, EventState.setEvent,
          EventState.insertNotifyLink, EventState.removeNotifyLink, htpl,
          erase_of_not_mem (hnot tpl htpl)]
    | false =>
        simp [coreNotifyEvent, hlink, EventState.note, EventState.setEvent,
          EventState.insertNotifyLink, htpl]

theorem mem_coreNotifyEvent
    (h : QueuesOk s)
    (hlive : s.live e = true) :
    x ∈ (coreNotifyEvent s e).gEventQueue tpl ↔
      x ∈ s.gEventQueue tpl ∨ x = e ∧ tpl = (s.events e).notifyTpl := by
  rw [coreNotifyEvent_queue h hlive]
  by_cases htpl : tpl = (s.events e).notifyTpl
  · subst htpl
    rw [Function.update_self, mem_append, mem_singleton]
    by_cases hx : x = e
    · simp [hx]
    · simp [hx, mem_erase_of_ne hx]
  · rw [Function.update_of_ne htpl]
    simp [htpl]

theorem coreNotifyEvent_events :
    (coreNotifyEvent s e).events =
      Function.update s.events e { s.events e with notifyLink := true } := by
  cases hlink : (s.events e).notifyLink with
  | true =>
      simp [coreNotifyEvent, hlink, EventState.note, EventState.setEvent,
        EventState.insertNotifyLink, EventState.removeNotifyLink]
  | false =>
      simp [coreNotifyEvent, hlink, EventState.note, EventState.setEvent,
        EventState.insertNotifyLink]

theorem coreNotifyEvent_sameTable :
    SameTable s (coreNotifyEvent s e) := by
  intro x
  rw [coreNotifyEvent_events]
  by_cases hx : x = e
  · subst hx
    rw [Function.update_self]
    rfl
  · rw [Function.update_of_ne hx]

theorem coreNotifyEvent_notifyLink :
    ((coreNotifyEvent s e).events x).notifyLink = true ↔
      x = e ∨ (s.events x).notifyLink = true := by
  rw [coreNotifyEvent_events]
  by_cases hx : x = e
  · subst hx
    simp
  · simp [hx]

theorem coreNotifyEvent_signalCount :
    ((coreNotifyEvent s e).events x).signalCount = (s.events x).signalCount := by
  rw [coreNotifyEvent_events]
  by_cases hx : x = e
  · subst hx
    rw [Function.update_self]
  · rw [Function.update_of_ne hx]

section Frame

variable (s e)

theorem coreNotifyEvent_pending :
    (coreNotifyEvent s e).gEventPending = s.gEventPending ||| tplBit (s.events e).notifyTpl := by
  simp only [coreNotifyEvent]
  split <;> rfl

theorem coreNotifyEvent_history :
    (coreNotifyEvent s e).history = .queued e (s.events e).notifyTpl :: s.history := by
  simp only [coreNotifyEvent]
  split <;> rfl

theorem coreNotifyEvent_live : (coreNotifyEvent s e).live = s.live := by
  simp only [coreNotifyEvent]
  split <;> rfl

theorem coreNotifyEvent_stack : (coreNotifyEvent s e).stack = s.stack := by
  simp only [coreNotifyEvent]
  split <;> rfl

theorem coreNotifyEvent_tpl : (coreNotifyEvent s e).gEfiCurrentTpl = s.gEfiCurrentTpl := by
  simp only [coreNotifyEvent]
  split <;> rfl

theorem coreNotifyEvent_signalQueue :
    (coreNotifyEvent s e).gEventSignalQueue = s.gEventSignalQueue := by
  simp only [coreNotifyEvent]
  split <;> rfl

end Frame

/-- `CoreNotifyEvent` on an event with a notification function keeps the agreement. -/
theorem coreNotifyEvent_queuesOk
    (h : QueuesOk s)
    (hlive : s.live e = true)
    (hnotifies : (s.events e).notifies) :
    QueuesOk (coreNotifyEvent s e) := by
  have htable : SameTable s (coreNotifyEvent s e) := coreNotifyEvent_sameTable
  have hbound : (s.events e).notifyTpl < tplHighLevel := h.bounds e hlive hnotifies
  constructor
  case belowHigh =>
    rw [coreNotifyEvent_pending]
    exact h.belowHigh.set hbound
  case pending =>
    intro tpl x hx
    rw [coreNotifyEvent_pending, BitVec.getLsbD_or, Bool.or_eq_true]
    rcases (mem_coreNotifyEvent h hlive).mp hx with hx | ⟨rfl, rfl⟩
    · exact Or.inl (h.pending tpl x hx)
    · refine Or.inr ?_
      rw [getLsbD_tplBit hbound, decide_eq_true_eq]
  case notifyTpl =>
    intro tpl x hx
    rw [htable.notifyTpl]
    rcases (mem_coreNotifyEvent h hlive).mp hx with hx | ⟨rfl, rfl⟩
    · exact h.notifyTpl tpl x hx
    · rfl
  case queued =>
    intro tpl x hx
    rw [coreNotifyEvent_live, htable.notifies]
    rcases (mem_coreNotifyEvent h hlive).mp hx with hx | ⟨rfl, rfl⟩
    · exact h.queued tpl x hx
    · exact ⟨hlive, hnotifies⟩
  case nodup =>
    intro tpl
    rw [coreNotifyEvent_queue h hlive]
    by_cases htpl : tpl = (s.events e).notifyTpl
    · subst htpl
      rw [Function.update_self, nodup_append]
      refine ⟨(h.nodup _).erase e, nodup_singleton e, ?_⟩
      intro x hx y hy hxy
      rw [mem_singleton.mp hy] at hxy
      subst hxy
      exact (h.nodup _).not_mem_erase hx
    · rw [Function.update_of_ne htpl]
      exact h.nodup tpl
  case linked =>
    intro x hx
    rw [coreNotifyEvent_live] at hx
    rw [coreNotifyEvent_notifyLink, htable.notifyTpl, mem_coreNotifyEvent h hlive,
      h.linked x hx]
    constructor
    · rintro (rfl | hmem)
      · exact Or.inr ⟨rfl, rfl⟩
      · exact Or.inl hmem
    · rintro (hmem | ⟨rfl, -⟩)
      · exact Or.inr hmem
      · exact Or.inl rfl
  case bounds =>
    intro x hx hnot
    rw [coreNotifyEvent_live] at hx
    rw [htable.notifyTpl]
    exact h.bounds x hx (htable.notifies.mp hnot)
  case signalQueue =>
    intro x
    rw [coreNotifyEvent_signalQueue, coreNotifyEvent_live, htable.has]
    exact h.signalQueue x
  case signalNodup =>
    rw [coreNotifyEvent_signalQueue]
    exact h.signalNodup

/-- The queues are what the history says waits. -/
def Faithful (s : EventState) : Prop :=
  ∀ tpl, waiting tpl s.history = s.gEventQueue tpl

/-- What calls of `CoreNotifyEvent` under one lock section do. -/
structure Enqueued (s s' : EventState) : Prop where
  ok : QueuesOk s'
  table : SameTable s s'
  signalCount : ∀ x, (s'.events x).signalCount = (s.events x).signalCount
  live : s'.live = s.live
  stack : s'.stack = s.stack
  currentTpl : s'.gEfiCurrentTpl = s.gEfiCurrentTpl
  signalQueue : s'.gEventSignalQueue = s.gEventSignalQueue
  faithful : Faithful s → Faithful s'
  grows : ∀ tpl, ∀ x ∈ s.gEventQueue tpl, x ∈ s'.gEventQueue tpl
  owed : ∀ x, owed x s'.history = true →
    owed x s.history = true ∨ x ∈ s'.gEventQueue (s.events x).notifyTpl
  inOrder : ∀ notifyTpl, InOrder notifyTpl s.history → InOrder notifyTpl s'.history

namespace Enqueued

variable {eventGroup : Guid}

theorem refl
    (h : QueuesOk s) :
    Enqueued s s where
  ok := h
  table := SameTable.refl s
  signalCount _ := rfl
  live := rfl
  stack := rfl
  currentTpl := rfl
  signalQueue := rfl
  faithful := id
  grows _ _ := id
  owed _ := Or.inl
  inOrder _ := id

theorem trans
    (h : Enqueued s s')
    (h' : Enqueued s' s'') :
    Enqueued s s'' where
  ok := h'.ok
  table := h.table.trans h'.table
  signalCount x := (h'.signalCount x).trans (h.signalCount x)
  live := h'.live.trans h.live
  stack := h'.stack.trans h.stack
  currentTpl := h'.currentTpl.trans h.currentTpl
  signalQueue := h'.signalQueue.trans h.signalQueue
  faithful := fun hfaithful => h'.faithful (h.faithful hfaithful)
  grows tpl x hx := h'.grows tpl x (h.grows tpl x hx)
  owed x hx := by
    rcases h'.owed x hx with howed | hmem
    · rcases h.owed x howed with howed | hmem
      · exact Or.inl howed
      · exact Or.inr (h'.grows _ x hmem)
    · rw [h.table.notifyTpl] at hmem
      exact Or.inr hmem
  inOrder notifyTpl hin := h'.inOrder notifyTpl (h.inOrder notifyTpl hin)

theorem notifyEvent
    (h : QueuesOk s)
    (hlive : s.live e = true)
    (hnotifies : (s.events e).notifies) :
    Enqueued s (coreNotifyEvent s e) where
  ok := coreNotifyEvent_queuesOk h hlive hnotifies
  table := coreNotifyEvent_sameTable
  signalCount _ := coreNotifyEvent_signalCount
  live := coreNotifyEvent_live s e
  stack := coreNotifyEvent_stack s e
  currentTpl := coreNotifyEvent_tpl s e
  signalQueue := coreNotifyEvent_signalQueue s e
  faithful hfaithful tpl := by
    rw [coreNotifyEvent_history, coreNotifyEvent_queue h hlive, waiting]
    by_cases htpl : tpl = (s.events e).notifyTpl
    · subst htpl
      rw [if_pos rfl, Function.update_self, hfaithful]
    · rw [if_neg (Ne.symm htpl), Function.update_of_ne htpl, hfaithful]
  grows tpl x hx := (mem_coreNotifyEvent h hlive).mpr (Or.inl hx)
  owed x hx := by
    rw [coreNotifyEvent_history] at hx
    exact Or.inl hx
  inOrder notifyTpl hin := by
    rw [coreNotifyEvent_history]
    exact hin

theorem noteSignalled
    (h : Enqueued s s')
    (he : e ∈ s'.gEventQueue (s.events e).notifyTpl) :
    Enqueued s (s'.note (.signalled e)) where
  ok := h.ok.of_sameTable (SameTable.refl s') (fun _ => rfl) rfl rfl rfl rfl
  table := h.table
  signalCount := h.signalCount
  live := h.live
  stack := h.stack
  currentTpl := h.currentTpl
  signalQueue := h.signalQueue
  faithful := h.faithful
  grows := h.grows
  owed x hx := by
    have hcases : e = x ∨ Event.owed x s'.history = true := by
      simpa [EventState.note, Event.owed] using hx
    rcases hcases with rfl | howed
    · exact Or.inr he
    · exact h.owed x howed
  inOrder := h.inOrder

theorem notifyMember
    (h : QueuesOk s)
    (he : e ∈ s.gEventSignalQueue) :
    Enqueued s (notifyMember eventGroup s e) ∧
      ((s.events e).eventGroup = eventGroup →
        e ∈ (Event.notifyMember eventGroup s e).gEventQueue (s.events e).notifyTpl) := by
  obtain ⟨hlive, hsignal⟩ := (h.signalQueue e).mp he
  rw [Event.notifyMember]
  split
  case isTrue hgroup =>
    have hmem : e ∈ (coreNotifyEvent s e).gEventQueue (s.events e).notifyTpl :=
      (mem_coreNotifyEvent h hlive).mpr (Or.inr ⟨rfl, rfl⟩)
    exact ⟨(notifyEvent h hlive (Or.inr hsignal)).noteSignalled hmem, fun _ => hmem⟩
  case isFalse hgroup =>
    exact ⟨refl h, fun hfalse => absurd hfalse hgroup⟩

theorem notifyMembers
    {members : List EfiEvent}
    (h : QueuesOk s)
    (hmembers : ∀ x ∈ members, x ∈ s.gEventSignalQueue) :
    Enqueued s (members.foldl (Event.notifyMember eventGroup) s) ∧
      ∀ x ∈ members, (s.events x).eventGroup = eventGroup →
        x ∈ (members.foldl (Event.notifyMember eventGroup) s).gEventQueue
          (s.events x).notifyTpl := by
  induction members generalizing s with
  | nil => exact ⟨refl h, fun x hx => absurd hx not_mem_nil⟩
  | cons e members ih =>
      rw [foldl_cons]
      obtain ⟨hfirst, hqueued⟩ :=
        @notifyMember s e eventGroup h (hmembers e mem_cons_self)
      obtain ⟨hrest, hall⟩ := ih hfirst.ok (fun x hx => by
        rw [hfirst.signalQueue]
        exact hmembers x (mem_cons_of_mem e hx))
      refine ⟨hfirst.trans hrest, ?_⟩
      intro x hx hgroup
      rcases mem_cons.mp hx with rfl | hx
      · exact hrest.grows _ x (hqueued hgroup)
      · have hmem := hall x hx (by rw [hfirst.table.eventGroup]; exact hgroup)
        rw [hfirst.table.notifyTpl] at hmem
        exact hmem

end Enqueued

end NotifyEvent

end Event
end Udk
