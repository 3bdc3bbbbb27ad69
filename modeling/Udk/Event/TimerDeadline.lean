import Udk.Event.TimerOrder

/-!
# Timers fire neither early nor never

Runs of `CoreSetTimer`, `CoreTimerTick` and `CoreCheckTimers`.  As long as no sum of
times leaves 64 bits, the checks terminate, an armed event waits for its delay, and the
first check after it signals the event.  A far trigger time that wraps is an expired one.
-/

namespace Udk
namespace Event

open List

/-- A call of the timer services with what it is given. -/
inductive TimerCall where
  | setTimer (userEvent : Option EfiEvent) (type : UInt32) (triggerTime timerPeriod : UInt64)
  | timerTick (duration : UInt64)
  | checkTimers
deriving DecidableEq

/-- One call that returns. -/
inductive TimerStep : TimerState → TimerCall → TimerState → Prop
  | setTimer (s : TimerState) (userEvent : Option EfiEvent) (type : UInt32)
      (triggerTime timerPeriod : UInt64) :
      TimerStep s (.setTimer userEvent type triggerTime timerPeriod)
        (coreSetTimer s userEvent type triggerTime timerPeriod).2
  | timerTick (s : TimerState) (duration : UInt64) :
      TimerStep s (.timerTick duration) (coreTimerTick s duration)
  | checkTimers {s s' : TimerState} {turns : Nat} (h : coreCheckTimers turns s = some s') :
      TimerStep s .checkTimers s'

namespace TimerState

section Loop

variable {systemTime : UInt64} {s s' : TimerState} {turns : Nat}

theorem checkTimersLoop_nil
    (h : s.mEfiTimerList = []) :
    checkTimersLoop systemTime (turns + 1) s = some s := by
  simp only [checkTimersLoop, h]

theorem checkTimersLoop_waiting
    {e : EfiEvent} {rest : List EfiEvent}
    (h : s.mEfiTimerList = e :: rest)
    (hdue : systemTime.toNat < s.dueTime e) :
    checkTimersLoop systemTime (turns + 1) s = some s := by
  have hlater : (s.timer e).triggerTime > systemTime := UInt64.lt_iff_toNat_lt.mpr hdue
  simp only [checkTimersLoop, h, if_pos hlater]

theorem checkTimersLoop_expired
    {e : EfiEvent} {rest : List EfiEvent}
    (h : s.mEfiTimerList = e :: rest)
    (hdue : s.dueTime e ≤ systemTime.toNat) :
    checkTimersLoop systemTime (turns + 1) s =
      checkTimersLoop systemTime turns (expireTimer systemTime s e) := by
  have hlater : ¬(s.timer e).triggerTime > systemTime :=
    fun h => absurd (UInt64.lt_iff_toNat_lt.mp h) (not_lt.mpr hdue)
  simp only [checkTimersLoop, h, if_neg hlater]

theorem checkTimersLoop_invariant
    {I : TimerState → Prop}
    (hkeep : ∀ s e rest, I s → s.mEfiTimerList = e :: rest → s.dueTime e ≤ systemTime.toNat →
      I (expireTimer systemTime s e))
    (h : checkTimersLoop systemTime turns s = some s')
    (hs : I s) :
    I s' ∧ ∀ e rest, s'.mEfiTimerList = e :: rest → systemTime.toNat < s'.dueTime e := by
  induction turns generalizing s with
  | zero => simp [checkTimersLoop] at h
  | succ turns ih =>
      cases hlist : s.mEfiTimerList with
      | nil =>
          rw [checkTimersLoop_nil hlist, Option.some_inj] at h
          subst h
          exact ⟨hs, fun e rest he => by simp [hlist] at he⟩
      | cons e rest =>
          rcases Nat.lt_or_ge systemTime.toNat (s.dueTime e) with hdue | hdue
          · rw [checkTimersLoop_waiting hlist hdue, Option.some_inj] at h
            subst h
            refine ⟨hs, fun e' rest' he => ?_⟩
            rw [hlist, List.cons.injEq] at he
            exact he.1 ▸ hdue
          · rw [checkTimersLoop_expired hlist hdue] at h
            exact ih h (hkeep s e rest hs hlist hdue)

end Loop

theorem Ordered.head_le
    {s : TimerState} {e e' : EfiEvent} {rest : List EfiEvent}
    (h : s.Ordered)
    (hlist : s.mEfiTimerList = e :: rest)
    (he' : e' ∈ s.mEfiTimerList) :
    s.dueTime e ≤ s.dueTime e' := by
  have hsorted := h.sorted
  rw [hlist] at hsorted he'
  rcases mem_cons.mp he' with rfl | hrest
  · exact le_rfl
  · exact (pairwise_cons.mp hsorted).1 e' hrest

section Check

variable {s s' : TimerState} {turns : Nat} {e : EfiEvent}

theorem Ordered.check
    (hord : s.Ordered)
    (h : coreCheckTimers turns s = some s') :
    s'.Ordered ∧ s'.mEfiSystemTime = s.mEfiSystemTime := by
  have hinv := checkTimersLoop_invariant
    (I := fun t => t.Ordered ∧ t.mEfiSystemTime = s.mEfiSystemTime)
    (fun t e _ ht _ _ => ⟨ht.1.expire s.mEfiSystemTime e, by rw [expire_systemTime, ht.2]⟩)
    h ⟨hord, rfl⟩
  exact hinv.1

theorem check_unarmed
    (h : coreCheckTimers turns s = some s')
    (he : e ∉ s.mEfiTimerList) :
    e ∉ s'.mEfiTimerList ∧ s'.signalled e = s.signalled e := by
  have hinv := checkTimersLoop_invariant
    (I := fun t => e ∉ t.mEfiTimerList ∧ t.signalled e = s.signalled e)
    (fun t x rest ht hlist _ => by
      have hne : e ≠ x := fun heq => ht.1 (by rw [hlist, heq]; exact mem_cons_self)
      refine ⟨fun hmem => ht.1 ((mem_expire_list s.mEfiSystemTime hne).mp hmem), ?_⟩
      rw [expire_signalled, if_neg hne, Nat.add_zero, ht.2])
    h ⟨he, rfl⟩
  exact hinv.1

theorem check_early
    (h : coreCheckTimers turns s = some s')
    (he : e ∈ s.mEfiTimerList)
    (hdue : s.mEfiSystemTime.toNat < s.dueTime e) :
    e ∈ s'.mEfiTimerList ∧ s'.dueTime e = s.dueTime e ∧ s'.signalled e = s.signalled e := by
  have hinv := checkTimersLoop_invariant
    (I := fun t => e ∈ t.mEfiTimerList ∧ t.dueTime e = s.dueTime e ∧
      t.signalled e = s.signalled e)
    (fun t x rest ht _ hx => by
      have hne : e ≠ x := fun heq => by rw [← heq, ht.2.1] at hx; omega
      refine ⟨(mem_expire_list s.mEfiSystemTime hne).mpr ht.1, ?_, ?_⟩
      · rw [dueTime, expire_timer_ne s.mEfiSystemTime hne]
        exact ht.2.1
      · rw [expire_signalled, if_neg hne, Nat.add_zero, ht.2.2])
    h ⟨he, rfl, rfl⟩
  exact hinv.1

/-- A check at the trigger time or after it signals the event. -/
theorem Ordered.check_due
    (hord : s.Ordered)
    (h : coreCheckTimers turns s = some s')
    (he : e ∈ s.mEfiTimerList)
    (hdue : s.dueTime e ≤ s.mEfiSystemTime.toNat) :
    s.signalled e < s'.signalled e := by
  have hinv := checkTimersLoop_invariant
    (I := fun t => t.Ordered ∧ s.signalled e ≤ t.signalled e ∧
      (s.signalled e < t.signalled e ∨
        e ∈ t.mEfiTimerList ∧ t.dueTime e ≤ s.mEfiSystemTime.toNat))
    (fun t x rest ht _ _ => by
      refine ⟨ht.1.expire s.mEfiSystemTime x, ?_, ?_⟩
      · rw [expire_signalled]
        omega
      · rw [expire_signalled]
        by_cases heq : e = x
        · left
          rw [if_pos heq]
          omega
        · rcases ht.2.2 with hlt | ⟨hmem, hle⟩
          · left
            omega
          · right
            refine ⟨(mem_expire_list s.mEfiSystemTime heq).mpr hmem, ?_⟩
            rw [dueTime, expire_timer_ne s.mEfiSystemTime heq]
            exact hle)
    h ⟨hord, le_rfl, Or.inr ⟨he, hdue⟩⟩
  obtain ⟨⟨hord', -, hlt | ⟨hmem, hle⟩⟩, hexit⟩ := hinv
  · exact hlt
  · cases hlist : s'.mEfiTimerList with
    | nil => simp [hlist] at hmem
    | cons x rest =>
        have hhead := hord'.head_le hlist hmem
        have hwait := hexit x rest hlist
        omega

end Check

section Termination

variable {systemTime : UInt64} {s : TimerState} {e : EfiEvent}
  {info : TimerEventInfo} {rest : List EfiEvent}

/-- A periodic timer that expired comes back at a time that 64 bits hold. -/
def Rearms (systemTime : UInt64) (info : TimerEventInfo) : Prop :=
  (systemTime.toNat < info.triggerTime.toNat + info.period.toNat ∧
    info.triggerTime.toNat + info.period.toNat < 2 ^ 64) ∨
  systemTime.toNat + info.period.toNat < 2 ^ 64

/-- The periodic timers that the check finds expired come back at times that 64 bits
hold. -/
def AllRearm (systemTime : UInt64) (s : TimerState) : Prop :=
  ∀ e ∈ s.mEfiTimerList, s.dueTime e ≤ systemTime.toNat → (s.timer e).period ≠ 0 →
    Rearms systemTime (s.timer e)

/-- How many turns an event takes: a late periodic timer is first set to now. -/
def turnsOf (systemTime : UInt64) (info : TimerEventInfo) : Nat :=
  if systemTime.toNat < info.triggerTime.toNat then 0
  else if info.period = 0 then 1
  else if systemTime.toNat < info.triggerTime.toNat + info.period.toNat then 1
  else 2

/-- How many turns a check takes. -/
def turnsLeft (systemTime : UInt64) (s : TimerState) : Nat :=
  (s.mEfiTimerList.map (fun e => turnsOf systemTime (s.timer e))).sum

theorem rearmTime_toNat
    (hdue : info.triggerTime.toNat ≤ systemTime.toNat)
    (h : Rearms systemTime info) :
    (rearmTime systemTime info).toNat =
      if info.triggerTime.toNat + info.period.toNat ≤ systemTime.toNat then systemTime.toNat
      else info.triggerTime.toNat + info.period.toNat := by
  have hsum : (info.triggerTime + info.period).toNat =
      info.triggerTime.toNat + info.period.toNat := by
    rw [UInt64.toNat_add, Nat.mod_eq_of_lt]
    rcases h with ⟨-, h⟩ | h
    · exact h
    · omega
  simp only [rearmTime, UInt64.le_iff_toNat_le, hsum]
  split <;> simp [hsum]

theorem rearmTime_wraps
    (hdue : info.triggerTime.toNat ≤ systemTime.toNat)
    (h : ¬Rearms systemTime info) :
    rearmTime systemTime info = systemTime := by
  have hle : info.triggerTime + info.period ≤ systemTime := by
    rw [UInt64.le_iff_toNat_le, UInt64.toNat_add]
    have htrigger := info.triggerTime.toNat_lt
    have hperiod := info.period.toNat_lt
    simp only [Rearms, not_or, not_and, not_lt] at h
    omega
  rw [rearmTime, if_pos hle]

theorem turns_rest
    (he : e ∉ rest) :
    (rest.map (fun e' => turnsOf systemTime ((expireTimer systemTime s e).timer e'))).sum =
      (rest.map (fun e' => turnsOf systemTime (s.timer e'))).sum := by
  congr 1
  refine map_congr_left fun e' he' => ?_
  have hne : e' ≠ e := fun heq => he (heq ▸ he')
  rw [expire_timer_ne systemTime hne]

theorem Ordered.turnsLeft_expire
    (hord : s.Ordered)
    (hlist : s.mEfiTimerList = e :: rest)
    (hdue : s.dueTime e ≤ systemTime.toNat)
    (hrearm : AllRearm systemTime s) :
    turnsLeft systemTime (expireTimer systemTime s e) < turnsLeft systemTime s := by
  have hnodup := hord.nodup
  rw [hlist, nodup_cons] at hnodup
  have hrest : s.mEfiTimerList.erase e = rest := by rw [hlist, erase_cons_head]
  have hbefore : turnsLeft systemTime s = turnsOf systemTime (s.timer e) +
      (rest.map (fun e' => turnsOf systemTime (s.timer e'))).sum := by
    simp only [turnsLeft, hlist, map_cons, sum_cons]
  have hnow : ¬systemTime.toNat < (s.timer e).triggerTime.toNat := not_lt.mpr hdue
  by_cases hperiod : (s.timer e).period = 0
  · have hafter : turnsLeft systemTime (expireTimer systemTime s e) =
        (rest.map (fun e' => turnsOf systemTime (s.timer e'))).sum := by
      rw [turnsLeft, expire_list_oneShot systemTime hperiod, hrest, turns_rest hnodup.1]
    rw [hbefore, hafter, turnsOf, if_neg hnow, if_pos hperiod]
    omega
  · have hafter : turnsLeft systemTime (expireTimer systemTime s e) =
        turnsOf systemTime ⟨true, rearmTime systemTime (s.timer e), (s.timer e).period⟩ +
          (rest.map (fun e' => turnsOf systemTime (s.timer e'))).sum := by
      have hperm := (expire_list_periodic systemTime hperiod).map
        (fun e' => turnsOf systemTime ((expireTimer systemTime s e).timer e'))
      rw [turnsLeft, hperm.sum_eq, map_cons, sum_cons, hrest, turns_rest hnodup.1,
        expire_timer_periodic systemTime hperiod]
    have hfits := hrearm e (by rw [hlist]; exact mem_cons_self) hdue hperiod
    have hpos : 0 < (s.timer e).period.toNat :=
      Nat.pos_of_ne_zero fun h0 => hperiod (UInt64.toNat_inj.mp h0)
    have hnext := rearmTime_toNat hdue hfits
    rw [hbefore, hafter, turnsOf, turnsOf, if_neg hnow, if_neg hperiod, if_neg hperiod]
    simp only [hnext]
    split_ifs <;> omega

theorem AllRearm.expire
    (hrearm : AllRearm systemTime s)
    (hlist : s.mEfiTimerList = e :: rest)
    (hdue : s.dueTime e ≤ systemTime.toNat) :
    AllRearm systemTime (expireTimer systemTime s e) := by
  intro e' he' hdue' hperiod'
  by_cases heq : e' = e
  · subst heq
    by_cases hperiod : (s.timer e').period = 0
    · rw [expireTimer_oneShot systemTime hperiod, signal_timer, remove_timer_self] at hperiod'
      exact absurd hperiod hperiod'
    · have hfits := hrearm e' (by rw [hlist]; exact mem_cons_self) hdue hperiod
      rw [dueTime] at hdue'
      rw [expire_timer_periodic systemTime hperiod] at hdue' ⊢
      rw [rearmTime_toNat hdue hfits] at hdue'
      right
      rcases hfits with ⟨hlt, -⟩ | hfits
      · rw [if_neg (not_le.mpr hlt)] at hdue'
        omega
      · exact hfits
  · have hmem := (mem_expire_list systemTime heq).mp he'
    rw [dueTime] at hdue'
    rw [expire_timer_ne systemTime heq] at hdue' hperiod' ⊢
    exact hrearm e' hmem hdue' hperiod'

theorem Ordered.checkTimersLoop_terminates
    {turns : Nat}
    (hord : s.Ordered)
    (hrearm : AllRearm systemTime s)
    (hturns : turnsLeft systemTime s < turns) :
    ∃ s', checkTimersLoop systemTime turns s = some s' := by
  induction turns generalizing s with
  | zero => omega
  | succ turns ih =>
      cases hlist : s.mEfiTimerList with
      | nil => exact ⟨s, checkTimersLoop_nil hlist⟩
      | cons e rest =>
          rcases Nat.lt_or_ge systemTime.toNat (s.dueTime e) with hdue | hdue
          · exact ⟨s, checkTimersLoop_waiting hlist hdue⟩
          · rw [checkTimersLoop_expired hlist hdue]
            have hless := hord.turnsLeft_expire hlist hdue hrearm
            exact ih (hord.expire systemTime e) (hrearm.expire hlist hdue) (by omega)

/-- A periodic timer whose next time wraps is expired again after every turn. -/
theorem checkTimersLoop_diverges
    (he : e ∈ s.mEfiTimerList)
    (hord : s.Ordered)
    (hdue : s.dueTime e ≤ systemTime.toNat)
    (hperiod : (s.timer e).period ≠ 0)
    (hwrap : ¬Rearms systemTime (s.timer e))
    (turns : Nat) :
    checkTimersLoop systemTime turns s = none := by
  induction turns generalizing s with
  | zero => rfl
  | succ turns ih =>
      cases hlist : s.mEfiTimerList with
      | nil => simp [hlist] at he
      | cons x rest =>
          have hhead := hord.head_le hlist he
          rw [checkTimersLoop_expired hlist (by omega)]
          by_cases heq : e = x
          · subst heq
            have htimer := expire_timer_periodic systemTime hperiod
            have hnow := rearmTime_wraps hdue hwrap
            refine ih ?_ (hord.expire systemTime e) ?_ ?_ ?_
            · exact (expire_list_periodic systemTime hperiod).mem_iff.mpr mem_cons_self
            · rw [dueTime, htimer, hnow]
            · rw [htimer]
              exact hperiod
            · rw [htimer, hnow]
              simp only [Rearms, not_or, not_and, not_lt] at hwrap ⊢
              exact ⟨fun _ => hwrap.2, hwrap.2⟩
          · refine ih ?_ (hord.expire systemTime x) ?_ ?_ ?_
            · exact (mem_expire_list systemTime heq).mpr he
            · rw [dueTime, expire_timer_ne systemTime heq]
              exact hdue
            · rw [expire_timer_ne systemTime heq]
              exact hperiod
            · rw [expire_timer_ne systemTime heq]
              exact hwrap

theorem Ordered.coreCheckTimers_terminates
    (hord : s.Ordered) :
    (∃ turns s', coreCheckTimers turns s = some s') ↔ AllRearm s.mEfiSystemTime s := by
  constructor
  · rintro ⟨turns, s', h⟩ e he hdue hperiod
    by_contra hwrap
    have hnone := checkTimersLoop_diverges he hord hdue hperiod hwrap turns
    exact Option.some_ne_none s' (h.symm.trans hnone)
  · intro hrearm
    exact ⟨_, hord.checkTimersLoop_terminates hrearm (Nat.lt_succ_self _)⟩

end Termination

/-- How long the call lets the clock run. -/
def duration : TimerCall → Nat
  | .timerTick duration => duration.toNat
  | _ => 0

/-- The time that passed over a run. -/
def elapsed (trace : List (TimerState × TimerCall)) : Nat :=
  (trace.map (fun x => duration x.2)).sum

/-- A call of `CoreSetTimer` for this event that passes the checks. -/
def Sets (x : TimerState × TimerCall) (e : EfiEvent) : Prop :=
  match x.2 with
  | .setTimer userEvent type _ _ => userEvent = some e ∧ validTimer x.1 userEvent type = true
  | _ => False

/-- The event is armed with this delay. -/
def Arms (x : TimerState × TimerCall) (e : EfiEvent) (delay : Nat) : Prop :=
  Sets x e ∧
    match x.2 with
    | .setTimer _ type triggerTime timerPeriod =>
        type ≠ timerCancel ∧ delay = (timerDelay type triggerTime timerPeriod).toNat
    | _ => False

/-- The timer of the event is cancelled. -/
def Cancels (x : TimerState × TimerCall) (e : EfiEvent) : Prop :=
  Sets x e ∧
    match x.2 with
    | .setTimer _ type _ _ => type = timerCancel
    | _ => False

/-- The sums of times in a call fit 64 bits. -/
def Fits (s : TimerState) : TimerCall → Prop
  | .setTimer userEvent type triggerTime timerPeriod =>
      validTimer s userEvent type = true → type ≠ timerCancel →
        s.mEfiSystemTime.toNat + (timerDelay type triggerTime timerPeriod).toNat < 2 ^ 64
  | .timerTick duration => s.mEfiSystemTime.toNat + duration.toNat < 2 ^ 64
  | .checkTimers => AllRearm s.mEfiSystemTime s

/-- No timer is armed. -/
structure Initial (s : TimerState) : Prop where
  empty : s.mEfiTimerList = []
  unlinked : ∀ e, (s.timer e).linked = false

/-- What holds of the timers after a run, and of the next check. -/
structure OnTime (trace : List (TimerState × TimerCall)) (s : TimerState) : Prop where
  /-- The list is sorted and holds each armed event once. -/
  ordered : s.Ordered
  /-- The check terminates. -/
  terminates : ∃ turns s', coreCheckTimers turns s = some s'
  /-- The check does not signal an armed event before its delay has passed. -/
  notEarly : ∀ {before armed since e delay s'}, trace = before ++ armed :: since →
    Arms armed e delay → (∀ x ∈ since, ¬Sets x e) → elapsed since < delay →
    TimerStep s .checkTimers s' → s'.signalled e = s.signalled e
  /-- The first check at the end of the delay or after it signals the event. -/
  onTime : ∀ {before armed since e delay s'}, trace = before ++ armed :: since →
    Arms armed e delay → (∀ x ∈ since, ¬Sets x e) → delay ≤ elapsed since →
    (∀ {wait check rest}, since = wait ++ check :: rest → check.2 = .checkTimers →
      elapsed wait < delay) →
    TimerStep s .checkTimers s' → s.signalled e < s'.signalled e
  /-- A cancelled timer does not signal its event. -/
  cancelled : ∀ {before cancel since e s'}, trace = before ++ cancel :: since →
    Cancels cancel e → (∀ x ∈ since, ¬Sets x e) →
    TimerStep s .checkTimers s' → s'.signalled e = s.signalled e

section Steps

variable {s s' : TimerState} {call : TimerCall} {e : EfiEvent}
  {type : UInt32} {userEvent : Option EfiEvent}

theorem Initial.ordered
    (h : s.Initial) :
    s.Ordered where
  sorted := by rw [h.empty]; exact List.Pairwise.nil
  nodup := by rw [h.empty]; exact nodup_nil
  linked e := by simp [h.empty, h.unlinked e]

theorem Ordered.step
    (hord : s.Ordered)
    (h : TimerStep s call s') :
    s'.Ordered := by
  cases h with
  | setTimer userEvent type triggerTime timerPeriod =>
      exact hord.set type triggerTime timerPeriod userEvent
  | timerTick duration => exact hord.tick duration
  | checkTimers h => exact (hord.check h).1

theorem coreSetTimer_valid
    {triggerTime timerPeriod : UInt64}
    (h : validTimer s (some e) type = true) :
    (coreSetTimer s (some e) type triggerTime timerPeriod).2 =
      if type = timerCancel then clearEventTimer s e
      else armEventTimer (clearEventTimer s e) e type triggerTime timerPeriod := by
  simp only [coreSetTimer, h, Bool.not_true, Bool.false_eq_true, if_false]
  split <;> rfl

theorem coreSetTimer_invalid
    {triggerTime timerPeriod : UInt64}
    (h : validTimer s userEvent type = false) :
    (coreSetTimer s userEvent type triggerTime timerPeriod).2 = s := by
  cases userEvent with
  | none => rfl
  | some e => simp only [coreSetTimer, h, Bool.not_false, if_true]

theorem Ordered.set_other
    (hord : s.Ordered)
    {triggerTime timerPeriod : UInt64}
    (hne : ¬Sets (s, .setTimer userEvent type triggerTime timerPeriod) e) :
    let s' := (coreSetTimer s userEvent type triggerTime timerPeriod).2
    (e ∈ s'.mEfiTimerList ↔ e ∈ s.mEfiTimerList) ∧ s'.dueTime e = s.dueTime e := by
  cases hvalid : validTimer s userEvent type with
  | false =>
      rw [coreSetTimer_invalid hvalid]
      exact ⟨Iff.rfl, rfl⟩
  | true =>
      cases userEvent with
      | none => exact absurd hvalid Bool.false_ne_true
      | some x =>
          have hx : e ≠ x := fun heq => hne ⟨by rw [heq], hvalid⟩
          have hclear : e ∈ (clearEventTimer s x).mEfiTimerList ↔ e ∈ s.mEfiTimerList := by
            rw [hord.clear_list, mem_erase_of_ne hx]
          rw [coreSetTimer_valid hvalid]
          split
          · refine ⟨hclear, ?_⟩
            rw [dueTime, clear_timer_ne hx]
            rfl
          · refine ⟨?_, ?_⟩
            · rw [mem_arm_list, hclear]
              simp [hx]
            · rw [dueTime, arm_timer_ne type triggerTime timerPeriod hx, clear_timer_ne hx]
              rfl

theorem coreSetTimer_systemTime
    (userEvent : Option EfiEvent) (type : UInt32) (triggerTime timerPeriod : UInt64) :
    (coreSetTimer s userEvent type triggerTime timerPeriod).2.mEfiSystemTime =
      s.mEfiSystemTime := by
  cases hvalid : validTimer s userEvent type with
  | false => rw [coreSetTimer_invalid hvalid]
  | true =>
      cases userEvent with
      | none => exact absurd hvalid Bool.false_ne_true
      | some x =>
          rw [coreSetTimer_valid hvalid]
          split
          · exact clear_systemTime
          · rw [arm_systemTime, clear_systemTime]

theorem tick_keeps
    (duration : UInt64) :
    (coreTimerTick s duration).mEfiTimerList = s.mEfiTimerList ∧
      (coreTimerTick s duration).mEfiSystemTime = s.mEfiSystemTime + duration ∧
      (coreTimerTick s duration).dueTime e = s.dueTime e := by
  simp only [coreTimerTick]
  split
  · exact ⟨rfl, rfl, rfl⟩
  · split
    · exact ⟨rfl, rfl, rfl⟩
    · exact ⟨rfl, rfl, rfl⟩

theorem Ordered.step_clock
    (hord : s.Ordered)
    (h : TimerStep s call s')
    (hfits : Fits s call) :
    s'.mEfiSystemTime.toNat = s.mEfiSystemTime.toNat + duration call := by
  cases h with
  | setTimer userEvent type triggerTime timerPeriod =>
      rw [coreSetTimer_systemTime]
      rfl
  | timerTick ticks =>
      obtain ⟨-, hclock, -⟩ := @tick_keeps s 0 ticks
      rw [hclock, UInt64.toNat_add, Nat.mod_eq_of_lt hfits]
      rfl
  | checkTimers h =>
      rw [(hord.check h).2]
      rfl

/-- An event waits for its trigger time. -/
def Waits (e : EfiEvent) (due : Nat) (s : TimerState) : Prop :=
  e ∈ s.mEfiTimerList ∧ s.dueTime e = due

theorem Ordered.step_waits
    {due : Nat}
    (hord : s.Ordered)
    (h : TimerStep s call s')
    (hne : ¬Sets (s, call) e)
    (hcheck : call = .checkTimers → s.mEfiSystemTime.toNat < due)
    (hwaits : Waits e due s) :
    Waits e due s' := by
  cases h with
  | setTimer userEvent type triggerTime timerPeriod =>
      obtain ⟨hmem, hdue⟩ := hord.set_other hne
      exact ⟨hmem.mpr hwaits.1, hdue.trans hwaits.2⟩
  | timerTick duration =>
      obtain ⟨hlist, -, hdue⟩ := @tick_keeps s e duration
      exact ⟨hlist ▸ hwaits.1, hdue.trans hwaits.2⟩
  | checkTimers h =>
      have hearly := check_early h hwaits.1 (by rw [hwaits.2]; exact hcheck rfl)
      exact ⟨hearly.1, hearly.2.1.trans hwaits.2⟩

theorem Ordered.step_unarmed
    (hord : s.Ordered)
    (h : TimerStep s call s')
    (hne : ¬Sets (s, call) e)
    (he : e ∉ s.mEfiTimerList) :
    e ∉ s'.mEfiTimerList := by
  cases h with
  | setTimer userEvent type triggerTime timerPeriod =>
      exact fun hmem => he ((hord.set_other hne).1.mp hmem)
  | timerTick duration =>
      rw [(@tick_keeps s e duration).1]
      exact he
  | checkTimers h => exact (check_unarmed h he).1

theorem arms_waits
    {delay : Nat}
    (h : TimerStep s call s')
    (harms : Arms (s, call) e delay)
    (hfits : Fits s call) :
    Waits e (s.mEfiSystemTime.toNat + delay) s' := by
  cases h with
  | timerTick | checkTimers => exact harms.1.elim
  | setTimer userEvent type triggerTime timerPeriod =>
      obtain ⟨⟨rfl, hvalid⟩, htype, rfl⟩ := harms
      rw [coreSetTimer_valid hvalid, if_neg htype]
      refine ⟨(mem_arm_list type triggerTime timerPeriod e).mpr (Or.inl rfl), ?_⟩
      rw [dueTime, arm_timer_self, clear_systemTime, UInt64.toNat_add]
      exact Nat.mod_eq_of_lt (hfits hvalid htype)

theorem Ordered.cancels_unarmed
    (hord : s.Ordered)
    (h : TimerStep s call s')
    (hcancels : Cancels (s, call) e) :
    e ∉ s'.mEfiTimerList := by
  cases h with
  | timerTick | checkTimers => exact hcancels.1.elim
  | setTimer userEvent type triggerTime timerPeriod =>
      obtain ⟨⟨rfl, hvalid⟩, htype⟩ := hcancels
      rw [coreSetTimer_valid hvalid, if_pos htype, hord.clear_list]
      exact hord.nodup.not_mem_erase

end Steps

section Run

variable {s s' : TimerState} {trace : List (TimerState × TimerCall)} {e : EfiEvent}

@[simp] theorem elapsed_cons
    (x : TimerState × TimerCall) :
    elapsed (x :: trace) = duration x.2 + elapsed trace := by
  simp [elapsed]

theorem Ordered.run
    (hrun : Run TimerStep s trace s')
    (hord : s.Ordered) :
    s'.Ordered := by
  induction hrun with
  | nil => exact hord
  | cons hstep _ ih => exact ih (hord.step hstep)

/-- Over a run that does not set an event, it waits as long as no check finds it
expired, and the clock shows the time that passed. -/
theorem Ordered.run_waits
    {due : Nat}
    (hrun : Run TimerStep s trace s')
    (hord : s.Ordered)
    (hfits : ∀ x ∈ trace, Fits x.1 x.2)
    (hne : ∀ x ∈ trace, ¬Sets x e)
    (hcheck : ∀ {wait check rest}, trace = wait ++ check :: rest → check.2 = .checkTimers →
      s.mEfiSystemTime.toNat + elapsed wait < due)
    (hwaits : Waits e due s) :
    Waits e due s' ∧ s'.mEfiSystemTime.toNat = s.mEfiSystemTime.toNat + elapsed trace := by
  induction hrun with
  | nil s => exact ⟨hwaits, rfl⟩
  | @cons s s₁ s₂ call rest hstep _ ih =>
      have hclock := hord.step_clock hstep (hfits (s, call) mem_cons_self)
      have hfirst : call = .checkTimers → s.mEfiSystemTime.toNat < due := fun hcall =>
        @hcheck [] (s, call) rest rfl hcall
      have hwaits₁ := hord.step_waits hstep (hne (s, call) mem_cons_self) hfirst hwaits
      have hrest := ih (hord.step hstep) (fun x hx => hfits x (mem_cons_of_mem _ hx))
        (fun x hx => hne x (mem_cons_of_mem _ hx))
        (fun {wait check tail} htail hcall => by
          have hlater := @hcheck ((s, call) :: wait) check tail (by rw [htail]; rfl) hcall
          simp only [elapsed_cons] at hlater
          rw [hclock]
          omega)
        hwaits₁
      refine ⟨hrest.1, ?_⟩
      simp only [elapsed_cons]
      rw [hrest.2, hclock]
      omega

theorem Ordered.run_unarmed
    (hrun : Run TimerStep s trace s')
    (hord : s.Ordered)
    (hne : ∀ x ∈ trace, ¬Sets x e)
    (he : e ∉ s.mEfiTimerList) :
    e ∉ s'.mEfiTimerList := by
  induction hrun with
  | nil s => exact he
  | @cons s s₁ _ call rest hstep _ ih =>
      exact ih (hord.step hstep) (fun x hx => hne x (mem_cons_of_mem _ hx))
        (hord.step_unarmed hstep (hne (s, call) mem_cons_self) he)

theorem elapsed_prefix_le
    {wait rest : List (TimerState × TimerCall)}
    (h : trace = wait ++ rest) :
    elapsed wait ≤ elapsed trace := by
  rw [h, elapsed, elapsed, map_append, sum_append]
  omega

theorem Initial.armed_waits
    {s₀ : TimerState} {before since : List (TimerState × TimerCall)}
    {armed : TimerState × TimerCall} {delay : Nat}
    (hinit : s₀.Initial)
    (hrun : Run TimerStep s₀ (before ++ armed :: since) s)
    (hfits : ∀ x ∈ before ++ armed :: since, Fits x.1 x.2)
    (harms : Arms armed e delay)
    (hne : ∀ x ∈ since, ¬Sets x e)
    (hcheck : ∀ {wait check rest}, since = wait ++ check :: rest → check.2 = .checkTimers →
      elapsed wait < delay) :
    ∃ start, Waits e (start + delay) s ∧ s.mEfiSystemTime.toNat = start + elapsed since := by
  obtain ⟨s₁, hbefore, hrest⟩ := hrun.split
  cases hrest with
  | @cons _ s₂ _ call _ hstep hsince =>
      have hord₁ := hinit.ordered.run hbefore
      have harmed : Fits s₁ call := hfits (s₁, call) (by simp)
      have hclock : s₂.mEfiSystemTime.toNat = s₁.mEfiSystemTime.toNat := by
        rw [hord₁.step_clock hstep harmed]
        cases call with
        | setTimer => rfl
        | timerTick | checkTimers => exact harms.1.elim
      have hfits' : ∀ x ∈ since, Fits x.1 x.2 := fun x hx => hfits x (by simp [hx])
      have hwaits := (hord₁.step hstep).run_waits hsince hfits' hne
        (fun hsplit hcall => by
          have hearly := hcheck hsplit hcall
          rw [hclock]
          omega)
        (arms_waits hstep harms harmed)
      refine ⟨s₁.mEfiSystemTime.toNat, hwaits.1, ?_⟩
      rw [hwaits.2, hclock]

/-- In every run whose sums of times fit 64 bits, the timer list is sorted, the check
terminates, and no event is signalled early, too late or after a cancel. -/
theorem timers_onTime
    {s₀ : TimerState}
    (hinit : s₀.Initial)
    (hrun : Run TimerStep s₀ trace s)
    (hfits : ∀ x ∈ trace, Fits x.1 x.2)
    (hnext : Fits s .checkTimers) :
    OnTime trace s := by
  have hord := hinit.ordered.run hrun
  constructor
  case ordered => exact hord
  case terminates => exact hord.coreCheckTimers_terminates.mpr hnext
  case notEarly =>
    rintro before armed since e delay s' rfl harms hne helapsed hcheck
    obtain ⟨start, hwaits, hclock⟩ := hinit.armed_waits hrun hfits harms hne
      (fun hsplit _ => lt_of_le_of_lt (elapsed_prefix_le hsplit) helapsed)
    cases hcheck with
    | checkTimers h =>
        have hdue : s.mEfiSystemTime.toNat < s.dueTime e := by
          rw [hwaits.2, hclock]
          omega
        exact (check_early h hwaits.1 hdue).2.2
  case onTime =>
    rintro before armed since e delay s' rfl harms hne helapsed hfirst hcheck
    obtain ⟨start, hwaits, hclock⟩ := hinit.armed_waits hrun hfits harms hne hfirst
    cases hcheck with
    | checkTimers h =>
        have hdue : s.dueTime e ≤ s.mEfiSystemTime.toNat := by
          rw [hwaits.2, hclock]
          omega
        exact hord.check_due h hwaits.1 hdue
  case cancelled =>
    rintro before cancel since e s' rfl hcancels hne hcheck
    obtain ⟨s₁, hbefore, hrest⟩ := hrun.split
    cases hrest with
    | @cons _ s₂ _ call _ hstep hsince =>
        have hord₁ := hinit.ordered.run hbefore
        have hfree := (hord₁.step hstep).run_unarmed hsince hne
          (hord₁.cancels_unarmed hstep hcancels)
        cases hcheck with
        | checkTimers h => exact (check_unarmed h hfree).2

/-- A timer event that is not armed. -/
def sampleTimers : TimerState where
  events _ :=
    { signature := eventSignature
      type := evtTimer
      signalCount := 0
      notifyTpl := 0
      eventGroup := ⟨List.replicate 16 0, Variable.length_zeroGuid⟩
      notifyLink := false
      exFlag := false
      timer := ⟨false, 0, 0⟩ }
  mEfiTimerList := []
  mEfiSystemTime := 0
  signals := []

theorem timers_onTime_sample :
    OnTime
      [(sampleTimers, .setTimer (some 0) timerRelative 5 0),
        ((coreSetTimer sampleTimers (some 0) timerRelative 5 0).2, .timerTick 5)]
      (coreTimerTick (coreSetTimer sampleTimers (some 0) timerRelative 5 0).2 5) := by
  refine timers_onTime ⟨rfl, fun _ => rfl⟩
    (.cons (.setTimer sampleTimers (some 0) timerRelative 5 0)
      (.cons (.timerTick _ 5) (.nil _))) ?_ ?_
  · intro x hx
    simp only [mem_cons, not_mem_nil, or_false] at hx
    rcases hx with rfl | rfl
    · exact fun _ _ => by decide
    · show _ < 2 ^ 64
      decide
  · intro e he _ hperiod
    have h0 : e = 0 := mem_singleton.mp he
    subst h0
    exact absurd rfl hperiod

/-- A delay of `2 ^ 64 - 1` set one tick after the start has wrapped: the next check
signals the event at once. -/
theorem farTimer_firesEarly :
    ¬∀ s₀ s trace, Initial s₀ → Run TimerStep s₀ trace s → OnTime trace s := by
  intro h
  have hontime := h sampleTimers _ _ ⟨rfl, fun _ => rfl⟩
    (.cons (.timerTick sampleTimers 1)
      (.cons (.setTimer _ (some 0) timerRelative 0xffffffffffffffff 0) (.nil _)))
  have hearly := @OnTime.notEarly _ _ hontime [(sampleTimers, .timerTick 1)] _ [] 0
    (2 ^ 64 - 1) _ rfl ⟨⟨rfl, by decide⟩, by decide, by decide⟩
    (fun x hx => absurd hx not_mem_nil) (by decide)
    (@TimerStep.checkTimers _ _ 2 rfl)
  exact absurd hearly (by decide)

end Run

end TimerState

end Event
end Udk
