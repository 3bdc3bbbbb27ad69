import Udk.Event.Queues

/-!
# The call stack of the event services

Which functions can be under way, one above the other, and at which level each of them
goes on.  An event that has left its queue, and a group whose events are about to be
queued, stand in a gap between two lock sections; above a gap nothing is delivered.
-/

namespace Udk
namespace Event

open Variable List

section Frames

/-- The frames between two lock sections that belong together. -/
def Frame.isGap : Frame → Bool
  | .deliver _ _ => true
  | .signalGroup _ => true
  | _ => false

/-- The frames of `CoreRestoreTpl` and of what it calls. -/
def Frame.isRestoring : Frame → Bool
  | .restoreTpl _ => true
  | .dispatchEventNotifies _ => true
  | _ => false

/-- The last part of a function that a caller called. -/
def Frame.isTail : Frame → Bool
  | .signalled => true
  | .checkEvent _ => true
  | .exit _ => true
  | _ => false

/-- No function is in a gap. -/
def NoGap (stack : List Frame) : Prop :=
  ∀ frame ∈ stack, frame.isGap = false

/-- The events between their queue of a level and their notification function. -/
def inFlight (tpl : EfiTpl) : List Frame → List EfiEvent
  | [] => []
  | .deliver e priority :: stack =>
    if priority = tpl then e :: inFlight tpl stack else inFlight tpl stack
  | _ :: stack => inFlight tpl stack

/-- A stack whose top goes on at a level; `quiet` tells the levels above which no event
is queued. -/
inductive StackOk (quiet : EfiTpl → Prop) : EfiTpl → List Frame → Prop
  | user
      {tpl : EfiTpl} :
      StackOk quiet tpl [.user]
  | restoreTpl
      {tpl newTpl : EfiTpl} {stack : List Frame}
      (hle : newTpl ≤ tpl)
      (hrest : StackOk quiet newTpl stack) :
      StackOk quiet tpl (.restoreTpl newTpl :: stack)
  | dispatch
      {priority newTpl : EfiTpl} {stack : List Frame}
      (hhigh : priority < tplHighLevel)
      (hlt : newTpl < priority)
      (hrest : StackOk quiet newTpl stack) :
      StackOk quiet priority (.dispatchEventNotifies priority :: .restoreTpl newTpl :: stack)
  | deliver
      {e : EfiEvent} {priority : EfiTpl} {stack : List Frame}
      (hquiet : quiet priority)
      (hgap : NoGap stack)
      (hrest : StackOk quiet priority (.dispatchEventNotifies priority :: stack)) :
      StackOk quiet priority (.deliver e priority :: .dispatchEventNotifies priority :: stack)
  | notify
      {e : EfiEvent} {tpl priority : EfiTpl} {stack : List Frame}
      (hgap : NoGap stack)
      (hrest : StackOk quiet priority (.dispatchEventNotifies priority :: stack)) :
      StackOk quiet tpl (.notify e priority :: .dispatchEventNotifies priority :: stack)
  | signalGroup
      {eventGroup : Guid} {tpl : EfiTpl} {caller : Frame} {stack : List Frame}
      (hcaller : caller.isCaller = true)
      (hquiet : quiet tpl)
      (hrest : StackOk quiet tpl (caller :: stack)) :
      StackOk quiet tpl (.signalGroup eventGroup :: caller :: stack)
  | tail
      {frame caller : Frame} {tpl : EfiTpl} {stack : List Frame}
      (htail : frame.isTail = true)
      (hcaller : caller.isCaller = true)
      (hrest : StackOk quiet tpl (caller :: stack)) :
      StackOk quiet tpl (frame :: caller :: stack)

variable {quiet quiet' : EfiTpl → Prop} {tpl tpl' : EfiTpl} {stack : List Frame}
  {frame caller : Frame}

theorem NoGap.cons
    (hframe : frame.isGap = false)
    (hstack : NoGap stack) :
    NoGap (frame :: stack) :=
  forall_mem_cons.mpr ⟨hframe, hstack⟩

theorem NoGap.tail
    (h : NoGap (frame :: stack)) :
    NoGap stack :=
  (forall_mem_cons.mp h).2

theorem isGap_of_isTail
    (h : frame.isTail = true) :
    frame.isGap = false := by
  cases frame <;> first | rfl | exact absurd h Bool.false_ne_true

theorem inFlight_filter
    (tpl : EfiTpl)
    (stack : List Frame) :
    inFlight tpl (stack.filter Frame.isGap) = inFlight tpl stack := by
  induction stack with
  | nil => rfl
  | cons frame stack ih =>
      cases frame with
      | deliver e priority =>
          rw [filter_cons_of_pos (by rfl), inFlight, inFlight, ih]
      | signalGroup eventGroup =>
          rw [filter_cons_of_pos (by rfl), inFlight, inFlight]
          · exact ih
          · exact fun _ _ h => Frame.noConfusion h
          · exact fun _ _ h => Frame.noConfusion h
      | user | notify e priority | restoreTpl newTpl | dispatchEventNotifies priority
      | signalled | checkEvent e | exit status => exact ih

theorem mem_of_inFlight
    {e : EfiEvent}
    (h : e ∈ inFlight tpl stack) :
    .deliver e tpl ∈ stack := by
  induction stack with
  | nil => exact absurd h not_mem_nil
  | cons frame stack ih =>
      cases frame with
      | deliver e' priority =>
          rw [inFlight] at h
          split at h
          case isTrue hpriority =>
            subst hpriority
            rcases mem_cons.mp h with rfl | h
            · exact mem_cons_self
            · exact mem_cons_of_mem _ (ih h)
          case isFalse hpriority => exact mem_cons_of_mem _ (ih h)
      | signalGroup eventGroup | user | notify e' priority | restoreTpl newTpl
      | dispatchEventNotifies priority | signalled | checkEvent e'
      | exit status => exact mem_cons_of_mem _ (ih h)

theorem NoGap.inFlight
    (h : NoGap stack)
    (tpl : EfiTpl) :
    Event.inFlight tpl stack = [] := by
  rw [← inFlight_filter, filter_eq_nil_iff.mpr (fun frame hframe => by simp [h frame hframe])]
  rfl

namespace StackOk

theorem of_noGap
    (h : StackOk quiet tpl stack)
    (hgap : NoGap stack) :
    StackOk quiet' tpl stack := by
  induction h with
  | user => exact user
  | restoreTpl hle _ ih => exact restoreTpl hle (ih hgap.tail)
  | dispatch hhigh hlt _ ih => exact dispatch hhigh hlt (ih hgap.tail.tail)
  | deliver _ _ _ _ => exact absurd (hgap _ mem_cons_self) Bool.true_eq_false_eq_False
  | notify hgap' _ ih => exact notify hgap' (ih hgap.tail)
  | signalGroup _ _ _ _ =>
      exact absurd (hgap _ mem_cons_self) Bool.true_eq_false_eq_False
  | tail htail hcaller _ ih => exact tail htail hcaller (ih hgap.tail)

theorem noGap_caller
    (h : StackOk quiet tpl (caller :: stack))
    (hcaller : caller.isCaller = true) :
    NoGap (caller :: stack) := by
  cases h with
  | user => exact NoGap.cons rfl (fun _ hmem => absurd hmem not_mem_nil)
  | notify hgap _ => exact NoGap.cons rfl (NoGap.cons rfl hgap)
  | restoreTpl | dispatch | deliver | signalGroup => exact absurd hcaller Bool.false_ne_true
  | tail htail =>
      cases caller <;> first | exact absurd hcaller Bool.false_ne_true |
        exact absurd htail Bool.false_ne_true

theorem caller_level
    (h : StackOk quiet tpl (caller :: stack))
    (hcaller : caller.isCaller = true) :
    StackOk quiet tpl' (caller :: stack) := by
  cases h with
  | user => exact user
  | notify hgap hrest => exact notify hgap hrest
  | restoreTpl | dispatch | deliver | signalGroup => exact absurd hcaller Bool.false_ne_true
  | tail htail =>
      cases caller <;> first | exact absurd hcaller Bool.false_ne_true |
        exact absurd htail Bool.false_ne_true

theorem quiet_of_gap
    (hup : ∀ tpl tpl', quiet tpl → tpl ≤ tpl' → quiet tpl')
    (h : StackOk quiet tpl stack)
    (hgap : ¬ NoGap stack) :
    quiet tpl := by
  induction h with
  | user => exact absurd (NoGap.cons rfl (fun _ hmem => absurd hmem not_mem_nil)) hgap
  | restoreTpl hle _ ih => exact hup _ _ (ih fun h => hgap (NoGap.cons rfl h)) hle
  | dispatch _ hlt _ ih =>
      exact hup _ _ (ih fun h => hgap (NoGap.cons rfl (NoGap.cons rfl h))) (le_of_lt hlt)
  | deliver hquiet _ _ _ => exact hquiet
  | notify hgap' _ _ => exact absurd (NoGap.cons rfl (NoGap.cons rfl hgap')) hgap
  | signalGroup _ hquiet _ _ => exact hquiet
  | tail htail hcaller hrest _ =>
      exact absurd (NoGap.cons (isGap_of_isTail htail) (hrest.noGap_caller hcaller)) hgap

/-- Above a function in a gap nothing runs but `CoreRestoreTpl`, from no lower level. -/
theorem gap_split
    (h : StackOk quiet tpl stack)
    (hmem : frame ∈ stack)
    (hgap : frame.isGap = true) :
    ∃ above below tpl', stack = above ++ frame :: below ∧
      (∀ frame ∈ above, frame.isRestoring = true) ∧ tpl' ≤ tpl ∧
      StackOk quiet tpl' (frame :: below) := by
  have hnone : ∀ {stack : List Frame}, NoGap stack → frame ∉ stack := by
    intro stack hstack hmem
    rw [hstack _ hmem] at hgap
    exact Bool.false_ne_true hgap
  induction h with
  | user => exact absurd hmem (hnone (NoGap.cons rfl fun _ hmem => absurd hmem not_mem_nil))
  | restoreTpl hle _ ih =>
      rcases mem_cons.mp hmem with rfl | hmem
      · exact absurd hgap Bool.false_ne_true
      · obtain ⟨above, below, tpl', rfl, habove, hlow, hframe⟩ := ih hmem
        exact ⟨_ :: above, below, tpl', rfl, forall_mem_cons.mpr ⟨rfl, habove⟩, hlow.trans hle,
          hframe⟩
  | dispatch _ hlt _ ih =>
      rcases mem_cons.mp hmem with rfl | hmem
      · exact absurd hgap Bool.false_ne_true
      · rcases mem_cons.mp hmem with rfl | hmem
        · exact absurd hgap Bool.false_ne_true
        · obtain ⟨above, below, tpl', rfl, habove, hlow, hframe⟩ := ih hmem
          exact ⟨_ :: _ :: above, below, tpl', rfl,
            forall_mem_cons.mpr ⟨rfl, forall_mem_cons.mpr ⟨rfl, habove⟩⟩,
            hlow.trans (le_of_lt hlt), hframe⟩
  | deliver hquiet hgap' hrest _ =>
      rcases mem_cons.mp hmem with rfl | hmem
      · exact ⟨[], _, _, rfl, fun _ h => absurd h not_mem_nil, le_refl _,
          deliver hquiet hgap' hrest⟩
      · exact absurd hmem (hnone (NoGap.cons rfl hgap'))
  | notify hgap' _ _ => exact absurd hmem (hnone (NoGap.cons rfl (NoGap.cons rfl hgap')))
  | signalGroup hcaller hquiet hrest _ =>
      rcases mem_cons.mp hmem with rfl | hmem
      · exact ⟨[], _, _, rfl, fun _ h => absurd h not_mem_nil, le_refl _,
          signalGroup hcaller hquiet hrest⟩
      · exact absurd hmem (hnone (hrest.noGap_caller hcaller))
  | tail htail hcaller hrest _ =>
      exact absurd hmem (hnone (NoGap.cons (isGap_of_isTail htail) (hrest.noGap_caller hcaller)))

section Inversion

variable {e : EfiEvent} {newTpl priority : EfiTpl} {eventGroup : Guid}

theorem of_restoreTpl
    (h : StackOk quiet tpl (.restoreTpl newTpl :: stack)) :
    newTpl ≤ tpl ∧ StackOk quiet newTpl stack := by
  cases h with
  | restoreTpl hle hrest => exact ⟨hle, hrest⟩
  | tail htail => exact absurd htail Bool.false_ne_true

theorem of_dispatch
    (h : StackOk quiet tpl (.dispatchEventNotifies priority :: stack)) :
    tpl = priority ∧ priority < tplHighLevel ∧ ∃ newTpl below,
      stack = .restoreTpl newTpl :: below ∧ newTpl < priority ∧ StackOk quiet newTpl below := by
  cases h with
  | dispatch hhigh hlt hrest => exact ⟨rfl, hhigh, _, _, rfl, hlt, hrest⟩
  | tail htail => exact absurd htail Bool.false_ne_true

theorem of_deliver
    (h : StackOk quiet tpl (.deliver e priority :: stack)) :
    tpl = priority ∧ quiet priority ∧ NoGap stack ∧ ∃ below,
      stack = .dispatchEventNotifies priority :: below ∧ NoGap below ∧
        StackOk quiet priority stack := by
  cases h with
  | deliver hquiet hgap hrest => exact ⟨rfl, hquiet, NoGap.cons rfl hgap, _, rfl, hgap, hrest⟩
  | tail htail => exact absurd htail Bool.false_ne_true

theorem of_notify
    (h : StackOk quiet tpl (.notify e priority :: stack)) :
    StackOk quiet priority stack := by
  cases h with
  | notify _ hrest => exact hrest
  | tail htail => exact absurd htail Bool.false_ne_true

theorem of_signalGroup
    (h : StackOk quiet tpl (.signalGroup eventGroup :: stack)) :
    NoGap stack ∧ ∃ caller below, stack = caller :: below ∧ caller.isCaller = true ∧
      StackOk quiet tpl stack := by
  cases h with
  | signalGroup hcaller _ hrest => exact ⟨hrest.noGap_caller hcaller, _, _, rfl, hcaller, hrest⟩
  | tail htail => exact absurd htail Bool.false_ne_true

theorem of_tail
    (h : StackOk quiet tpl (frame :: stack))
    (htail : frame.isTail = true) :
    ∃ caller below, stack = caller :: below ∧ caller.isCaller = true ∧
      StackOk quiet tpl stack := by
  cases h with
  | tail _ hcaller hrest => exact ⟨_, _, rfl, hcaller, hrest⟩
  | user | restoreTpl | dispatch | deliver | notify
  | signalGroup => exact absurd htail Bool.false_ne_true

end Inversion

end StackOk

/-- `CoreSignalEvent` is in front of `CoreNotifySignalList`, and nothing but the release
of its lock runs above it. -/
def InGroupBranch (eventGroup : Guid) (stack : List Frame) : Prop :=
  ∃ above below, stack = above ++ .signalGroup eventGroup :: below ∧
    ∀ frame ∈ above, frame.isRestoring = true

theorem StackOk.deliver_le
    {e : EfiEvent} {priority : EfiTpl}
    (h : StackOk quiet tpl stack)
    (hmem : .deliver e priority ∈ stack) :
    priority ≤ tpl := by
  obtain ⟨above, below, tpl', rfl, -, hlow, hframe⟩ := h.gap_split hmem rfl
  rw [← hframe.of_deliver.1]
  exact hlow

theorem StackOk.inGroupBranch
    {eventGroup : Guid}
    (h : StackOk quiet tpl stack)
    (hmem : .signalGroup eventGroup ∈ stack) :
    InGroupBranch eventGroup stack := by
  obtain ⟨above, below, _, rfl, habove, -⟩ := h.gap_split hmem rfl
  exact ⟨above, below, rfl, habove⟩

end Frames

end Event
end Udk
