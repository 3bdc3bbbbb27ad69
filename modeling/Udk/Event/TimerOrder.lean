import Udk.Event.Timer

/-!
# The timer list stays sorted

What each operation does to the list and to `Event->Timer`, and the invariant that
every call keeps whatever the times are: the list is sorted by trigger time and holds
each armed event once.
-/

namespace Udk
namespace Event

open List

section InsertBeforeFirst

variable {α : Type*} (later : α → Bool) (x : α)

theorem insertBeforeFirst_perm
    (l : List α) :
    (insertBeforeFirst later x l).Perm (x :: l) := by
  induction l with
  | nil => exact List.Perm.refl _
  | cons y ys ih =>
      simp only [insertBeforeFirst]
      split
      · exact List.Perm.refl _
      · exact (ih.cons y).trans (List.Perm.swap x y ys)

theorem insertBeforeFirst_sorted
    {β : Type*} [LinearOrder β]
    (key : α → β)
    (hlater : ∀ y, later y = true ↔ key x < key y)
    {l : List α}
    (hl : l.Pairwise (fun a b => key a ≤ key b)) :
    (insertBeforeFirst later x l).Pairwise (fun a b => key a ≤ key b) := by
  induction l with
  | nil => exact pairwise_singleton _ _
  | cons y ys ih =>
      obtain ⟨hhead, htail⟩ := pairwise_cons.mp hl
      simp only [insertBeforeFirst]
      split
      case isTrue hy =>
        have hxy : key x < key y := (hlater y).mp hy
        refine pairwise_cons.mpr ⟨fun z hz => ?_, hl⟩
        rcases mem_cons.mp hz with rfl | hz
        · exact hxy.le
        · exact hxy.le.trans (hhead z hz)
      case isFalse hy =>
        have hyx : key y ≤ key x := not_lt.mp (fun h => hy ((hlater y).mpr h))
        refine pairwise_cons.mpr ⟨fun z hz => ?_, ih htail⟩
        rcases mem_cons.mp ((insertBeforeFirst_perm _ x ys).mem_iff.mp hz) with rfl | hz
        · exact hyx
        · exact hhead z hz

end InsertBeforeFirst

namespace TimerState

/-- `Event->Timer.TriggerTime` as a number. -/
def dueTime (s : TimerState) (e : EfiEvent) : Nat :=
  (s.timer e).triggerTime.toNat

section Updates

variable (s : TimerState) (e e' : EfiEvent) (info : TimerEventInfo) (event : Signal)

@[simp] theorem timer_setTimer_self : (s.setTimer e info).timer e = info := by
  simp [timer, setTimer]

@[simp] theorem timer_setTimer_ne (h : e' ≠ e) :
    (s.setTimer e info).timer e' = s.timer e' := by
  simp [timer, setTimer, h]

@[simp] theorem setTimer_list : (s.setTimer e info).mEfiTimerList = s.mEfiTimerList := rfl

@[simp] theorem setTimer_systemTime :
    (s.setTimer e info).mEfiSystemTime = s.mEfiSystemTime := rfl

@[simp] theorem setTimer_signals : (s.setTimer e info).signals = s.signals := rfl

@[simp] theorem signal_timer : (s.signal event).timer e = s.timer e := rfl

@[simp] theorem signal_list : (s.signal event).mEfiTimerList = s.mEfiTimerList := rfl

@[simp] theorem signal_systemTime : (s.signal event).mEfiSystemTime = s.mEfiSystemTime := rfl

@[simp] theorem signal_signals : (s.signal event).signals = s.signals ++ [event] := rfl

@[simp] theorem remove_timer_self :
    (removeEventTimer s e).timer e = { s.timer e with linked := false } :=
  timer_setTimer_self s e _

@[simp] theorem remove_timer_ne (h : e' ≠ e) :
    (removeEventTimer s e).timer e' = s.timer e' :=
  timer_setTimer_ne s e e' _ h

@[simp] theorem remove_list :
    (removeEventTimer s e).mEfiTimerList = s.mEfiTimerList.erase e := rfl

@[simp] theorem remove_systemTime :
    (removeEventTimer s e).mEfiSystemTime = s.mEfiSystemTime := rfl

@[simp] theorem remove_signals : (removeEventTimer s e).signals = s.signals := rfl

@[simp] theorem insert_timer_self :
    (coreInsertEventTimer s e).timer e = { s.timer e with linked := true } :=
  timer_setTimer_self s e _

@[simp] theorem insert_timer_ne (h : e' ≠ e) :
    (coreInsertEventTimer s e).timer e' = s.timer e' :=
  timer_setTimer_ne s e e' _ h

@[simp] theorem insert_systemTime :
    (coreInsertEventTimer s e).mEfiSystemTime = s.mEfiSystemTime := rfl

@[simp] theorem insert_signals : (coreInsertEventTimer s e).signals = s.signals := rfl

theorem insert_list_perm :
    (coreInsertEventTimer s e).mEfiTimerList.Perm (e :: s.mEfiTimerList) :=
  insertBeforeFirst_perm _ e _

@[simp] theorem mem_insert_list :
    e' ∈ (coreInsertEventTimer s e).mEfiTimerList ↔ e' = e ∨ e' ∈ s.mEfiTimerList :=
  (insert_list_perm s e).mem_iff.trans mem_cons

theorem insert_dueTime : (coreInsertEventTimer s e).dueTime e' = s.dueTime e' := by
  by_cases h : e' = e
  · rw [h, dueTime, insert_timer_self, dueTime]
  · rw [dueTime, insert_timer_ne s e e' h, dueTime]

theorem remove_dueTime : (removeEventTimer s e).dueTime e' = s.dueTime e' := by
  by_cases h : e' = e
  · rw [h, dueTime, remove_timer_self, dueTime]
  · rw [dueTime, remove_timer_ne s e e' h, dueTime]

end Updates

/-- The timer list is sorted and holds each armed event once. -/
structure Ordered (s : TimerState) : Prop where
  sorted : s.mEfiTimerList.Pairwise (fun a b => s.dueTime a ≤ s.dueTime b)
  nodup : s.mEfiTimerList.Nodup
  linked : ∀ e, (s.timer e).linked = true ↔ e ∈ s.mEfiTimerList

namespace Ordered

variable {s : TimerState}

theorem congr
    {s' : TimerState}
    (h : s.Ordered)
    (hlist : s'.mEfiTimerList = s.mEfiTimerList)
    (hlinked : ∀ e, (s'.timer e).linked = (s.timer e).linked)
    (htime : ∀ e ∈ s.mEfiTimerList, s'.dueTime e = s.dueTime e) :
    s'.Ordered where
  sorted := by
    rw [hlist]
    refine h.sorted.imp_of_mem fun ha hb hab => ?_
    rw [htime _ ha, htime _ hb]
    exact hab
  nodup := hlist ▸ h.nodup
  linked e := by rw [hlist, hlinked]; exact h.linked e

theorem remove
    (h : s.Ordered)
    (e : EfiEvent) :
    (removeEventTimer s e).Ordered where
  sorted := by
    have hsub := h.sorted.sublist (@erase_sublist _ _ e s.mEfiTimerList)
    simpa only [remove_list, remove_dueTime] using hsub
  nodup := h.nodup.erase e
  linked e' := by
    by_cases he : e' = e
    · subst he
      simp [h.nodup.not_mem_erase]
    · rw [remove_timer_ne s e e' he, h.linked e', remove_list, mem_erase_of_ne he]

theorem setTimer
    (h : s.Ordered)
    {e : EfiEvent}
    (he : e ∉ s.mEfiTimerList)
    {info : TimerEventInfo}
    (hinfo : info.linked = false) :
    (s.setTimer e info).Ordered := by
  have hfree : (s.timer e).linked = false := by
    rw [← Bool.not_eq_true, h.linked e]
    exact he
  refine h.congr rfl (fun e' => ?_) (fun e' he' => ?_)
  · by_cases heq : e' = e
    · rw [heq, timer_setTimer_self, hinfo, hfree]
    · rw [timer_setTimer_ne s e e' info heq]
  · have heq : e' ≠ e := fun heq => he (heq ▸ he')
    rw [dueTime, timer_setTimer_ne s e e' info heq, dueTime]

theorem signal
    (h : s.Ordered)
    (event : Signal) :
    (s.signal event).Ordered :=
  h.congr rfl (fun _ => rfl) (fun _ _ => rfl)

theorem insert
    (h : s.Ordered)
    {e : EfiEvent}
    (he : e ∉ s.mEfiTimerList) :
    (coreInsertEventTimer s e).Ordered where
  sorted := by
    simp only [insert_dueTime]
    refine insertBeforeFirst_sorted _ e s.dueTime (fun e2 => ?_) h.sorted
    exact decide_eq_true_iff.trans UInt64.lt_iff_toNat_lt
  nodup := (insert_list_perm s e).nodup_iff.mpr (nodup_cons.mpr ⟨he, h.nodup⟩)
  linked e' := by
    by_cases heq : e' = e
    · subst heq
      simp
    · rw [insert_timer_ne s e e' heq, h.linked e', mem_insert_list]
      simp [heq]

end Ordered

section Calls

variable {s : TimerState} {e : EfiEvent} {e' : EfiEvent}

theorem Ordered.not_linked
    (h : s.Ordered)
    (he : (s.timer e).linked = false) :
    e ∉ s.mEfiTimerList := by
  rw [← h.linked e, he]
  exact Bool.false_ne_true

theorem clear_timer_ne
    (h : e' ≠ e) :
    (clearEventTimer s e).timer e' = s.timer e' := by
  simp only [clearEventTimer]
  rw [timer_setTimer_ne _ _ _ _ h]
  split
  · exact remove_timer_ne s e e' h
  · rfl

theorem clear_timer_self :
    (clearEventTimer s e).timer e = ⟨false, 0, 0⟩ := by
  simp only [clearEventTimer, timer_setTimer_self]
  split
  case isTrue => rw [remove_timer_self]
  case isFalse h => rw [Bool.eq_false_of_not_eq_true h]

@[simp] theorem clear_systemTime :
    (clearEventTimer s e).mEfiSystemTime = s.mEfiSystemTime := by
  simp only [clearEventTimer, setTimer_systemTime]
  split <;> rfl

theorem Ordered.clear_list
    (h : s.Ordered) :
    (clearEventTimer s e).mEfiTimerList = s.mEfiTimerList.erase e := by
  simp only [clearEventTimer, setTimer_list]
  split
  case isTrue => rfl
  case isFalse hlinked =>
    exact (erase_of_not_mem (h.not_linked (Bool.eq_false_of_not_eq_true hlinked))).symm

theorem Ordered.clear
    (h : s.Ordered)
    (e : EfiEvent) :
    (clearEventTimer s e).Ordered := by
  simp only [clearEventTimer]
  split
  case isTrue =>
    refine (h.remove e).setTimer h.nodup.not_mem_erase ?_
    rw [remove_timer_self]
  case isFalse hlinked =>
    have hfree := Bool.eq_false_of_not_eq_true hlinked
    exact h.setTimer (h.not_linked hfree) hfree

variable (type : UInt32) (triggerTime timerPeriod : UInt64)

theorem arm_timer_ne
    (h : e' ≠ e) :
    (armEventTimer s e type triggerTime timerPeriod).timer e' = s.timer e' := by
  have hins : ∀ info, (coreInsertEventTimer (s.setTimer e info) e).timer e' = s.timer e' :=
    fun info => by rw [insert_timer_ne _ _ _ h, timer_setTimer_ne _ _ _ _ h]
  simp only [armEventTimer]
  split
  · exact hins _
  · exact hins _

theorem arm_timer_self :
    (armEventTimer s e type triggerTime timerPeriod).timer e =
      { linked := true
        triggerTime := s.mEfiSystemTime + timerDelay type triggerTime timerPeriod
        period :=
          if type = timerPeriodic then timerDelay type triggerTime timerPeriod
          else (s.timer e).period } := by
  simp only [armEventTimer]
  split
  · rw [signal_timer, insert_timer_self, timer_setTimer_self]
  · rw [insert_timer_self, timer_setTimer_self]

@[simp] theorem arm_systemTime :
    (armEventTimer s e type triggerTime timerPeriod).mEfiSystemTime = s.mEfiSystemTime := by
  simp only [armEventTimer]
  split <;> rfl

theorem mem_arm_list
    (e' : EfiEvent) :
    e' ∈ (armEventTimer s e type triggerTime timerPeriod).mEfiTimerList ↔
      e' = e ∨ e' ∈ s.mEfiTimerList := by
  simp only [armEventTimer]
  split
  · rw [signal_list, mem_insert_list, setTimer_list]
  · rw [mem_insert_list, setTimer_list]

theorem Ordered.arm
    (h : s.Ordered)
    (he : (s.timer e).linked = false) :
    (armEventTimer s e type triggerTime timerPeriod).Ordered := by
  have hins : ∀ info : TimerEventInfo, info.linked = false →
      (coreInsertEventTimer (s.setTimer e info) e).Ordered :=
    fun info hinfo => (h.setTimer (h.not_linked he) hinfo).insert (h.not_linked he)
  simp only [armEventTimer]
  split
  · refine Ordered.signal (hins _ ?_) _
    exact he
  · refine hins _ ?_
    exact he

theorem Ordered.set
    (h : s.Ordered)
    (userEvent : Option EfiEvent) :
    (coreSetTimer s userEvent type triggerTime timerPeriod).2.Ordered := by
  cases userEvent with
  | none => exact h
  | some e =>
      simp only [coreSetTimer]
      split
      · exact h
      · split
        · exact h.clear e
        · exact (h.clear e).arm type triggerTime timerPeriod (by rw [clear_timer_self])

theorem Ordered.tick
    (h : s.Ordered)
    (duration : UInt64) :
    (coreTimerTick s duration).Ordered := by
  have htick : ({ s with mEfiSystemTime := s.mEfiSystemTime + duration } : TimerState).Ordered :=
    h.congr rfl (fun _ => rfl) (fun _ _ => rfl)
  simp only [coreTimerTick]
  split
  · exact htick
  · split
    · exact htick.signal _
    · exact htick

variable (systemTime : UInt64)

/-- The time of the next turn of a periodic timer. -/
def rearmTime (info : TimerEventInfo) : UInt64 :=
  if info.triggerTime + info.period ≤ systemTime then systemTime
  else info.triggerTime + info.period

theorem expireTimer_oneShot
    (hperiod : (s.timer e).period = 0) :
    expireTimer systemTime s e = (removeEventTimer s e).signal (.user e) := by
  simp [expireTimer, hperiod]

/-- The state in which a periodic timer is put back on the list. -/
def rearmed (s : TimerState) (e : EfiEvent) : TimerState :=
  ((removeEventTimer s e).signal (.user e)).setTimer e
    ⟨false, rearmTime systemTime (s.timer e), (s.timer e).period⟩

theorem expireTimer_periodic
    (hperiod : (s.timer e).period ≠ 0) :
    expireTimer systemTime s e = coreInsertEventTimer (rearmed systemTime s e) e ∨
      expireTimer systemTime s e =
        coreInsertEventTimer ((rearmed systemTime s e).signal .checkTimer) e := by
  by_cases hlate : (s.timer e).triggerTime + (s.timer e).period ≤ systemTime
  · right
    simp [expireTimer, rearmed, rearmTime, hperiod, hlate]
  · left
    simp [expireTimer, rearmed, rearmTime, hperiod, hlate]

theorem expire_timer_ne
    (h : e' ≠ e) :
    (expireTimer systemTime s e).timer e' = s.timer e' := by
  have hrearmed : (rearmed systemTime s e).timer e' = s.timer e' := by
    rw [rearmed, timer_setTimer_ne _ _ _ _ h, signal_timer, remove_timer_ne _ _ _ h]
  by_cases hperiod : (s.timer e).period = 0
  · rw [expireTimer_oneShot systemTime hperiod, signal_timer, remove_timer_ne _ _ _ h]
  · rcases expireTimer_periodic systemTime hperiod with heq | heq
    · rw [heq, insert_timer_ne _ _ _ h, hrearmed]
    · rw [heq, insert_timer_ne _ _ _ h, signal_timer, hrearmed]

theorem expire_timer_periodic
    (hperiod : (s.timer e).period ≠ 0) :
    (expireTimer systemTime s e).timer e =
      ⟨true, rearmTime systemTime (s.timer e), (s.timer e).period⟩ := by
  rcases expireTimer_periodic systemTime hperiod with heq | heq
  · rw [heq, insert_timer_self, rearmed, timer_setTimer_self]
  · rw [heq, insert_timer_self, signal_timer, rearmed, timer_setTimer_self]

@[simp] theorem expire_systemTime :
    (expireTimer systemTime s e).mEfiSystemTime = s.mEfiSystemTime := by
  by_cases hperiod : (s.timer e).period = 0
  · rw [expireTimer_oneShot systemTime hperiod]
    rfl
  · rcases expireTimer_periodic systemTime hperiod with heq | heq
    · rw [heq]
      rfl
    · rw [heq]
      rfl

theorem expire_list_oneShot
    (hperiod : (s.timer e).period = 0) :
    (expireTimer systemTime s e).mEfiTimerList = s.mEfiTimerList.erase e := by
  rw [expireTimer_oneShot systemTime hperiod]
  rfl

theorem expire_list_periodic
    (hperiod : (s.timer e).period ≠ 0) :
    (expireTimer systemTime s e).mEfiTimerList.Perm (e :: s.mEfiTimerList.erase e) := by
  rcases expireTimer_periodic systemTime hperiod with heq | heq
  · rw [heq]
    exact insert_list_perm _ e
  · rw [heq]
    exact insert_list_perm _ e

theorem mem_expire_list
    (h : e' ≠ e) :
    e' ∈ (expireTimer systemTime s e).mEfiTimerList ↔ e' ∈ s.mEfiTimerList := by
  by_cases hperiod : (s.timer e).period = 0
  · rw [expire_list_oneShot systemTime hperiod, mem_erase_of_ne h]
  · rw [(expire_list_periodic systemTime hperiod).mem_iff, mem_cons,
      mem_erase_of_ne h]
    simp [h]

theorem Ordered.expire
    (h : s.Ordered)
    (e : EfiEvent) :
    (expireTimer systemTime s e).Ordered := by
  have hremoved := (h.remove e).signal (.user e)
  have hfree : e ∉ ((removeEventTimer s e).signal (.user e)).mEfiTimerList :=
    h.nodup.not_mem_erase
  by_cases hperiod : (s.timer e).period = 0
  · rw [expireTimer_oneShot systemTime hperiod]
    exact hremoved
  · have hrearmed : (rearmed systemTime s e).Ordered := hremoved.setTimer hfree rfl
    rcases expireTimer_periodic systemTime hperiod with heq | heq
    · rw [heq]
      exact hrearmed.insert hfree
    · rw [heq]
      exact (hrearmed.signal _).insert hfree

/-- How often the timer services signalled an event. -/
def signalled (s : TimerState) (e : EfiEvent) : Nat :=
  s.signals.count (.user e)

theorem signalled_signal_checkTimer
    (e' : EfiEvent) :
    (s.signal .checkTimer).signalled e' = s.signalled e' := by
  simp [signalled]

theorem expire_signalled
    (e' : EfiEvent) :
    (expireTimer systemTime s e).signalled e' =
      s.signalled e' + if e' = e then 1 else 0 := by
  have hremoved : ((removeEventTimer s e).signal (.user e)).signalled e' =
      s.signalled e' + if e' = e then 1 else 0 := by
    by_cases heq : e' = e
    · simp [signalled, heq]
    · simp [signalled, heq, Ne.symm heq]
  by_cases hperiod : (s.timer e).period = 0
  · rw [expireTimer_oneShot systemTime hperiod, hremoved]
  · rcases expireTimer_periodic systemTime hperiod with heq | heq
    · rw [heq]
      exact hremoved
    · rw [heq]
      exact (signalled_signal_checkTimer e').trans hremoved

end Calls

end TimerState

end Event
end Udk
