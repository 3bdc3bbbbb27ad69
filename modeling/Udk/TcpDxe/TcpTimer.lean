import Mathlib
import Udk.NetLib.NetBuffer
import Udk.NetLib.NetBytes

/-!
# TCP timers

The timers of a TCB on `mTcpRunQue`.  Times are 32-bit numbers that wrap, and one countdown
stands for the nearest timer.  As long as no timeout reaches `TCP_EXPIRE_TIME`, each timer
is handled in the first tick at which its time has come.
-/

namespace Udk
namespace Tcp

open List

open NetLib (sub32 toUint32)

variable {handlers : Fin 6 → HandlerRun}

/-- `TCP_EXPIRE_TIME`. -/
def tcpExpireTime : Nat := 65535

/-- The timers of a TCB, and the tick of the driver. -/
structure TimerTcb where
  /-- The ticks as a number that does not wrap. -/
  now : Nat
  /-- `EnabledTimer` by its bits. -/
  enabledTimer : Fin 6 → Bool
  timer : Fin 6 → Nat
  nextExpire : Int
  /-- `TCP_CTRL_TIMER_ON` in `CtrlFlag`. -/
  timerOn : Bool
  /-- `State` is `TCP_CLOSED`. -/
  closed : Bool
  /-- The TCB is not on `mTcpRunQue` any more. -/
  removed : Bool
  /-- The expiry times as numbers that do not wrap; no decision reads them. -/
  deadline : Fin 6 → Nat

/-- `mTcpTick`. -/
def TimerTcb.mTcpTick (s : TimerTcb) : Nat :=
  s.now % 2 ^ 32

/-- `TCP_TIME_LT`. -/
def timeLt (a b : Nat) : Prop :=
  2 ^ 31 ≤ sub32 a b

/-- `TCP_TIME_LEQ`. -/
def timeLeq (a b : Nat) : Prop :=
  2 ^ 31 ≤ sub32 a b ∨ sub32 a b = 0

instance decidableTimeLt (a b : Nat) : Decidable (timeLt a b) :=
  inferInstanceAs (Decidable (2 ^ 31 ≤ sub32 a b))

instance decidableTimeLeq (a b : Nat) : Decidable (timeLeq a b) :=
  inferInstanceAs (Decidable (2 ^ 31 ≤ sub32 a b ∨ sub32 a b = 0))

/-- A `UINT32` as an `INT32`. -/
def toInt32 (n : Nat) : Int :=
  if n < 2 ^ 31 then n else n - 2 ^ 32

/-- A turn of the loop of `TcpUpdateTimer`, with `NextExpire` and `TCP_CTRL_TIMER_ON`. -/
def TimerTcb.scan (s : TimerTcb) (next : Int × Bool) (index : Fin 6) : Int × Bool :=
  if s.enabledTimer index = true ∧
      timeLt (s.timer index) (toUint32 (s.mTcpTick + next.1)) then
    (toInt32 (sub32 (s.timer index) s.mTcpTick), true)
  else next

/-- `TcpUpdateTimer`. -/
def tcpUpdateTimer (s : TimerTcb) : TimerTcb :=
  let next := (List.finRange 6).foldl s.scan (tcpExpireTime, false)
  { s with nextExpire := next.1, timerOn := next.2 }

/-- `TCP_CLEAR_TIMER`. -/
def TimerTcb.disable (s : TimerTcb) (timer : Fin 6) : TimerTcb :=
  { s with enabledTimer := Function.update s.enabledTimer timer false }

/-- `TcpSetTimer`. -/
def tcpSetTimer (s : TimerTcb) (timer : Fin 6) (timeOut : Nat) : TimerTcb :=
  tcpUpdateTimer
    { s with
      enabledTimer := Function.update s.enabledTimer timer true
      timer := Function.update s.timer timer ((s.mTcpTick + timeOut) % 2 ^ 32)
      deadline := Function.update s.deadline timer (s.now + timeOut) }

/-- `TcpClearTimer`. -/
def tcpClearTimer (s : TimerTcb) (timer : Fin 6) : TimerTcb :=
  tcpUpdateTimer (s.disable timer)

/-- `TcpClearAllTimer`. -/
def tcpClearAllTimer (s : TimerTcb) : TimerTcb :=
  tcpUpdateTimer { s with enabledTimer := fun _ => false }

/-- A call on the timers. -/
inductive TimerCall where
  | setTimer (timer : Fin 6) (timeOut : Nat)
  | clearTimer (timer : Fin 6)
  | clearAllTimer

def TimerTcb.run (s : TimerTcb) : TimerCall → TimerTcb
  | .setTimer timer timeOut => tcpSetTimer s timer timeOut
  | .clearTimer timer => tcpClearTimer s timer
  | .clearAllTimer => tcpClearAllTimer s

/-- What a run of a timeout handler does to the TCB: its calls on the timers, and whether
it closes the TCB or takes it off the queue. -/
structure HandlerRun where
  calls : List TimerCall
  closes : Bool
  removes : Bool

/-- The call of a timeout handler, with its timer disabled. -/
def TimerTcb.callHandler (s : TimerTcb) (index : Fin 6) (handler : HandlerRun) : TimerTcb :=
  let s := handler.calls.foldl TimerTcb.run (s.disable index)
  { s with closed := s.closed || handler.closes, removed := s.removed || handler.removes }

/-- What the loop of `TcpTickingDpc` over the timers leaves: the TCB, the timers whose
handlers are called with the TCB at the call, and whether `Index` is `TCP_TIMER_NUMBER`. -/
structure ExpireResult where
  tcb : TimerTcb
  called : List (Fin 6 × TimerTcb)
  finished : Bool

/-- The loop of `TcpTickingDpc` over the timers. -/
def expireLoop (handlers : Fin 6 → HandlerRun) : List (Fin 6) → TimerTcb → ExpireResult
  | [], s => ⟨s, [], true⟩
  | index :: rest, s =>
    if s.enabledTimer index = true ∧ timeLeq (s.timer index) s.mTcpTick then
      let next := s.callHandler index (handlers index)
      if next.removed = true ∨ ∀ i, next.enabledTimer i = false then ⟨next, [(index, s)], false⟩
      else
        let r := expireLoop handlers rest next
        { r with called := (index, s) :: r.called }
    else expireLoop handlers rest s

/-- `TcpTickingDpc` for a TCB: the TCB, and the handlers called. -/
def tcpTickingDpc (handlers : Fin 6 → HandlerRun) (s : TimerTcb) :
    TimerTcb × List (Fin 6 × TimerTcb) :=
  let s := { s with now := s.now + 1 }
  if s.closed = true then (s, [])
  else if s.timerOn = false then (s, [])
  else
    let s := { s with nextExpire := s.nextExpire - 1 }
    if s.nextExpire > 0 then (s, [])
    else
      let r := expireLoop handlers (List.finRange 6) s
      (if r.finished = true then tcpUpdateTimer r.tcb else r.tcb, r.called)

/-- The TCB is on the queue and not closed. -/
def TimerTcb.Open (s : TimerTcb) : Prop :=
  s.closed = false ∧ s.removed = false

/-- The timeout of a call is below `TCP_EXPIRE_TIME`. -/
def TimerCall.Near : TimerCall → Prop
  | .setTimer _ timeOut => timeOut < tcpExpireTime
  | _ => True

/-- A call sets or clears a timer. -/
def TimerCall.Touches (timer : Fin 6) : TimerCall → Prop
  | .setTimer t _ => t = timer
  | .clearTimer t => t = timer
  | .clearAllTimer => True

/-- The states that calls and ticks lead to while the TCB is open. -/
inductive TimersReached : TimerTcb → Prop
  | start
      {s : TimerTcb}
      (hnone : ∀ i, s.enabledTimer i = false) :
      TimersReached s
  | call
      {s : TimerTcb} {c : TimerCall}
      (h : TimersReached s)
      (hopen : s.Open)
      (hnear : c.Near) :
      TimersReached (s.run c)
  | tick
      {s : TimerTcb} {handlers : Fin 6 → HandlerRun}
      (h : TimersReached s)
      (hopen : s.Open)
      (hnear : ∀ i, ∀ c ∈ (handlers i).calls, c.Near) :
      TimersReached (tcpTickingDpc handlers s).1

/-- The handlers called in a tick, with the TCB at each call. -/
structure CallsOnTime (handlers : Fin 6 → HandlerRun) (s : TimerTcb)
    (calls : List (Fin 6 × TimerTcb)) : Prop where
  /-- The handler of a timer whose time has come is called, unless a handler called before
  it in this tick sets or clears the timer or takes the TCB off the queue. -/
  called : ∀ i, s.enabledTimer i = true → s.deadline i ≤ s.now + 1 →
    (∃ call ∈ calls, call.1 = i) ∨
      ∃ call ∈ calls, call.1 < i ∧
        ((handlers call.1).removes = true ∨ ∃ c ∈ (handlers call.1).calls, c.Touches i)
  /-- A handler is called for an enabled timer whose time has come. -/
  due : ∀ call ∈ calls, call.2.enabledTimer call.1 = true ∧ call.2.deadline call.1 ≤ s.now + 1

/-- What has to hold of an open TCB and of its next tick. -/
structure ExpiresOnTime (handlers : Fin 6 → HandlerRun) (s : TimerTcb) : Prop where
  /-- No tick has passed over the time of an enabled timer. -/
  pending : ∀ i, s.enabledTimer i = true → s.now ≤ s.deadline i
  calls : CallsOnTime handlers s (tcpTickingDpc handlers s).2

/-- The enabled timers lie less than `TCP_EXPIRE_TIME` ahead. -/
def Armed (s : TimerTcb) : Prop :=
  ∀ i, s.enabledTimer i = true → s.timer i = s.deadline i % 2 ^ 32 ∧
    s.now ≤ s.deadline i + 1 ∧ s.deadline i < s.now + tcpExpireTime

/-- The countdown ends when the nearest enabled timer expires, or before. -/
def Covered (s : TimerTcb) : Prop :=
  ∀ i, s.enabledTimer i = true → s.timerOn = true ∧ s.nextExpire ≤ s.deadline i - s.now

/-- The time of a timer has not passed. -/
def NotPast (s : TimerTcb) (i : Fin 6) : Prop :=
  s.enabledTimer i = true → s.now ≤ s.deadline i

section Update

variable {s : TimerTcb} {c : TimerCall} {i j : Fin 6}

/-- One turn lowers the countdown to a timer that expires earlier. -/
theorem Armed.scan
    {next : Int × Bool}
    (h : Armed s)
    (hlow : -1 ≤ next.1)
    (hhigh : next.1 ≤ tcpExpireTime)
    (hon : next.2 = true ∨ next.1 = tcpExpireTime) :
    -1 ≤ (s.scan next i).1 ∧ (s.scan next i).1 ≤ next.1 ∧
      ((s.scan next i).2 = true ∨ (s.scan next i).1 = tcpExpireTime) ∧
      (next.2 = true → (s.scan next i).2 = true) ∧
      (s.enabledTimer i = true →
        (s.scan next i).2 = true ∧ (s.scan next i).1 ≤ s.deadline i - s.now) := by
  rw [TimerTcb.scan]
  by_cases henabled : s.enabledTimer i = true
  · obtain ⟨htimer, hnear, hfar⟩ := h i henabled
    rw [tcpExpireTime] at *
    have hless : timeLt (s.timer i) (toUint32 (s.mTcpTick + next.1)) ↔
        (s.deadline i : Int) - s.now < next.1 := by
      rw [timeLt, htimer, sub32, toUint32, TimerTcb.mTcpTick]
      omega
    have hnext : toInt32 (sub32 (s.timer i) s.mTcpTick) = (s.deadline i : Int) - s.now := by
      rw [toInt32, htimer, sub32, TimerTcb.mTcpTick]
      omega
    by_cases hlt : (s.deadline i : Int) - s.now < next.1
    · rw [if_pos ⟨henabled, hless.mpr hlt⟩, hnext]
      exact ⟨by omega, by omega, Or.inl rfl, fun _ => rfl, fun _ => ⟨rfl, le_rfl⟩⟩
    · rw [if_neg fun hboth => hlt (hless.mp hboth.2)]
      have htrue : next.2 = true := hon.resolve_right (by omega)
      exact ⟨hlow, le_rfl, hon, id, fun _ => ⟨htrue, by omega⟩⟩
  · rw [if_neg (fun hboth => henabled hboth.1)]
    exact ⟨hlow, le_rfl, hon, id, fun h => absurd h henabled⟩

theorem Armed.foldl_scan
    (l : List (Fin 6)) (next : Int × Bool)
    (h : Armed s)
    (hlow : -1 ≤ next.1)
    (hhigh : next.1 ≤ tcpExpireTime)
    (hon : next.2 = true ∨ next.1 = tcpExpireTime) :
    (l.foldl s.scan next).1 ≤ next.1 ∧ (next.2 = true → (l.foldl s.scan next).2 = true) ∧
      ∀ i ∈ l, s.enabledTimer i = true → (l.foldl s.scan next).2 = true ∧
        (l.foldl s.scan next).1 ≤ s.deadline i - s.now := by
  induction l generalizing next with
  | nil => exact ⟨le_rfl, id, fun i hi => absurd hi not_mem_nil⟩
  | cons j l ih =>
      obtain ⟨hlow', hle, hon', hkeep, hcovers⟩ := h.scan hlow hhigh hon (i := j)
      obtain ⟨hrest, hkeepRest, hcoversRest⟩ := ih _ hlow' (hle.trans hhigh) hon'
      rw [foldl_cons]
      refine ⟨hrest.trans hle, fun htrue => hkeepRest (hkeep htrue), fun i hi henabled => ?_⟩
      rcases mem_cons.mp hi with rfl | hi
      · obtain ⟨htrue, hbound⟩ := hcovers henabled
        exact ⟨hkeepRest htrue, hrest.trans hbound⟩
      · exact hcoversRest i hi henabled

theorem Armed.update
    (h : Armed s) :
    Armed (tcpUpdateTimer s) ∧ Covered (tcpUpdateTimer s) := by
  obtain ⟨-, -, hcovers⟩ := h.foldl_scan (List.finRange 6) (tcpExpireTime, false)
    (by decide) le_rfl (Or.inr rfl)
  exact ⟨h, fun i henabled => hcovers i (mem_finRange i) henabled⟩

theorem enabledTimer_disable :
    (s.disable i).enabledTimer j = true ↔ j ≠ i ∧ s.enabledTimer j = true := by
  show Function.update s.enabledTimer i false j = true ↔ _
  by_cases hj : j = i
  · subst hj
    rw [Function.update_self]
    exact iff_of_false Bool.false_ne_true fun h => h.1 rfl
  · rw [Function.update_of_ne hj]
    exact (and_iff_right hj).symm

theorem Armed.disable
    (h : Armed s) :
    Armed (s.disable i) :=
  fun j henabled => h j (enabledTimer_disable.mp henabled).2

theorem NotPast.disable
    (h : j = i ∨ NotPast s j) :
    NotPast (s.disable i) j := by
  intro henabled
  obtain ⟨hj, henabled⟩ := enabledTimer_disable.mp henabled
  exact h.resolve_left hj henabled

/-- A call keeps the timers in reach, and sets the countdown to the nearest one. -/
theorem Armed.run
    (h : Armed s)
    (hnear : c.Near) :
    Armed (s.run c) ∧ Covered (s.run c) := by
  cases c with
  | setTimer timer timeOut =>
      refine Armed.update fun i henabled => ?_
      by_cases hi : i = timer
      · subst hi
        have hlt : timeOut < tcpExpireTime := hnear
        simp only [Function.update_self, TimerTcb.mTcpTick]
        omega
      · simp only [Function.update_of_ne hi] at henabled ⊢
        exact h i henabled
  | clearTimer timer => exact h.disable.update
  | clearAllTimer => exact Armed.update fun i henabled => absurd henabled Bool.false_ne_true

theorem run_now : (s.run c).now = s.now := by
  cases c <;> rfl

theorem run_removed : (s.run c).removed = s.removed := by
  cases c <;> rfl

theorem run_untouched
    (hnot : ¬ c.Touches i) :
    (s.run c).enabledTimer i = s.enabledTimer i ∧ (s.run c).deadline i = s.deadline i := by
  cases c with
  | setTimer timer timeOut =>
      have hi : i ≠ timer := fun h => hnot h.symm
      exact ⟨Function.update_of_ne hi _ _, Function.update_of_ne hi _ _⟩
  | clearTimer timer =>
      exact ⟨Function.update_of_ne (fun h => hnot h.symm) _ _, rfl⟩
  | clearAllTimer => exact absurd trivial hnot

theorem NotPast.run
    (h : NotPast s i) :
    NotPast (s.run c) i := by
  intro henabled
  rw [run_now]
  by_cases htouch : c.Touches i
  · cases c with
    | setTimer timer timeOut =>
        cases htouch
        show s.now ≤ Function.update s.deadline i (s.now + timeOut) i
        rw [Function.update_self]
        omega
    | clearTimer timer =>
        exact absurd htouch.symm (enabledTimer_disable.mp henabled).1
    | clearAllTimer => exact absurd henabled Bool.false_ne_true
  · obtain ⟨hsame, htime⟩ := run_untouched (s := s) htouch
    rw [hsame] at henabled
    rw [htime]
    exact h henabled

end Update

section Tick

variable {s : TimerTcb} {handlers : Fin 6 → HandlerRun} {handler : HandlerRun}
  {calls : List TimerCall} {i j : Fin 6} {l : List (Fin 6)}

/-- What the calls of a handler leave. -/
theorem Armed.foldl_run
    (h : Armed s)
    (hnear : ∀ c ∈ calls, c.Near) :
    Armed (calls.foldl TimerTcb.run s) ∧ (calls.foldl TimerTcb.run s).now = s.now ∧
      (∀ i, NotPast s i → NotPast (calls.foldl TimerTcb.run s) i) ∧
      ∀ i, (∀ c ∈ calls, ¬ c.Touches i) →
        (calls.foldl TimerTcb.run s).enabledTimer i = s.enabledTimer i ∧
          (calls.foldl TimerTcb.run s).deadline i = s.deadline i := by
  induction calls generalizing s with
  | nil => exact ⟨h, rfl, fun _ => id, fun _ _ => ⟨rfl, rfl⟩⟩
  | cons c calls ih =>
      obtain ⟨hc, hcalls⟩ := forall_mem_cons.mp hnear
      obtain ⟨harmed, hnow, hpast, hsame⟩ := ih (h.run hc).1 hcalls
      rw [foldl_cons]
      refine ⟨harmed, hnow.trans run_now, fun i hi => hpast i hi.run, fun i hnot => ?_⟩
      obtain ⟨hnotc, hnots⟩ := forall_mem_cons.mp hnot
      obtain ⟨henabled, htime⟩ := hsame i hnots
      obtain ⟨henabled', htime'⟩ := run_untouched (s := s) hnotc
      exact ⟨henabled.trans henabled', htime.trans htime'⟩

/-- What the call of a handler leaves: its own timer is not past, whatever it was. -/
theorem Armed.callHandler
    (h : Armed s)
    (hnear : ∀ c ∈ handler.calls, c.Near) :
    Armed (s.callHandler i handler) ∧ (s.callHandler i handler).now = s.now ∧
      (∀ j, j = i ∨ NotPast s j → NotPast (s.callHandler i handler) j) ∧
      ∀ j, j ≠ i → (∀ c ∈ handler.calls, ¬ c.Touches j) →
        (s.callHandler i handler).enabledTimer j = s.enabledTimer j ∧
          (s.callHandler i handler).deadline j = s.deadline j := by
  obtain ⟨harmed, hnow, hpast, hsame⟩ := (h.disable (i := i)).foldl_run hnear
  refine ⟨harmed, hnow, fun j hj => hpast j (NotPast.disable hj), fun j hj hnot => ?_⟩
  obtain ⟨henabled, htime⟩ := hsame j hnot
  exact ⟨henabled.trans (Function.update_of_ne hj _ _), htime⟩

theorem removes_of_removed
    (hkept : s.removed = false)
    (h : (s.callHandler i handler).removed = true) :
    handler.removes = true := by
  have hcalls : ∀ calls : List TimerCall, ∀ s : TimerTcb,
      (calls.foldl TimerTcb.run s).removed = s.removed := by
    intro calls
    induction calls with
    | nil => exact fun _ => rfl
    | cons c calls ih => exact fun s => (ih (s.run c)).trans run_removed
  have hor := Bool.or_eq_true _ _ ▸ h
  rw [hcalls] at hor
  exact hor.resolve_left fun htrue => Bool.false_ne_true (hkept.symm.trans htrue)

theorem Armed.due_iff
    (h : Armed s)
    (henabled : s.enabledTimer i = true) :
    timeLeq (s.timer i) s.mTcpTick ↔ s.deadline i ≤ s.now := by
  obtain ⟨htimer, hnear, hfar⟩ := h i henabled
  rw [tcpExpireTime] at hfar
  rw [timeLeq, htimer, sub32, TimerTcb.mTcpTick]
  omega

/-- The loop calls the handlers of the timers that are due, in order. -/
theorem expireLoop_spec
    (h : Armed s)
    (hnear : ∀ i, ∀ c ∈ (handlers i).calls, c.Near)
    (hkept : s.removed = false)
    (hsorted : l.Pairwise (· < ·))
    (hpast : ∀ i, i ∉ l → NotPast s i) :
    Armed (expireLoop handlers l s).tcb ∧ (expireLoop handlers l s).tcb.now = s.now ∧
      ((expireLoop handlers l s).finished = false →
        (expireLoop handlers l s).tcb.removed = true ∨
          ∀ i, (expireLoop handlers l s).tcb.enabledTimer i = false) ∧
      ((expireLoop handlers l s).tcb.removed = false →
        ∀ i, NotPast (expireLoop handlers l s).tcb i) ∧
      (∀ i ∈ l, s.enabledTimer i = true → s.deadline i ≤ s.now →
        (∃ call ∈ (expireLoop handlers l s).called, call.1 = i) ∨
          ∃ call ∈ (expireLoop handlers l s).called, call.1 < i ∧
            ((handlers call.1).removes = true ∨ ∃ c ∈ (handlers call.1).calls, c.Touches i)) ∧
      ∀ call ∈ (expireLoop handlers l s).called,
        call.2.enabledTimer call.1 = true ∧ call.2.deadline call.1 ≤ s.now := by
  induction l generalizing s with
  | nil =>
      exact ⟨h, rfl, fun hfalse => absurd hfalse.symm Bool.false_ne_true,
        fun _ i => hpast i not_mem_nil, fun i hi => absurd hi not_mem_nil,
        fun call hcall => absurd hcall not_mem_nil⟩
  | cons i l ih =>
      obtain ⟨hfirst, hrest⟩ := pairwise_cons.mp hsorted
      rw [expireLoop]
      by_cases hdue : s.enabledTimer i = true ∧ timeLeq (s.timer i) s.mTcpTick
      · obtain ⟨harmed, hnow, hpast', hsame⟩ := h.callHandler (i := i) (hnear i)
        have htime : s.deadline i ≤ s.now := (h.due_iff hdue.1).mp hdue.2
        -- a due timer behind this one is still due after the handler, or the handler touched it
        have hbehind : ∀ j ∈ l, s.enabledTimer j = true → s.deadline j ≤ s.now →
            (∃ c ∈ (handlers i).calls, c.Touches j) ∨
              (s.callHandler i (handlers i)).enabledTimer j = true ∧
                (s.callHandler i (handlers i)).deadline j ≤ s.now := by
          intro j hj henabled hjdue
          by_cases htouch : ∃ c ∈ (handlers i).calls, c.Touches j
          · exact Or.inl htouch
          · obtain ⟨hsame, hsameTime⟩ := hsame j (hfirst j hj).ne'
              fun c hc hcj => htouch ⟨c, hc, hcj⟩
            exact Or.inr ⟨hsame.trans henabled, hsameTime.symm ▸ hjdue⟩
        simp only [if_pos hdue]
        by_cases hstop : (s.callHandler i (handlers i)).removed = true ∨
            ∀ j, (s.callHandler i (handlers i)).enabledTimer j = false
        · simp only [if_pos hstop]
          refine ⟨harmed, hnow, fun _ => hstop, fun hnext j henabled => ?_,
            fun j hj henabled hjdue => ?_, ?_⟩
          · rcases hstop with hgone | hnone
            · exact absurd (hnext.symm.trans hgone) Bool.false_ne_true
            · exact absurd ((hnone j).symm.trans henabled) Bool.false_ne_true
          · rcases mem_cons.mp hj with rfl | hj
            · exact Or.inl ⟨_, mem_singleton_self _, rfl⟩
            · refine Or.inr ⟨_, mem_singleton_self _, hfirst j hj, ?_⟩
              rcases hbehind j hj henabled hjdue with htouch | ⟨hstill, -⟩
              · exact Or.inr htouch
              · rcases hstop with hgone | hnone
                · exact Or.inl (removes_of_removed hkept hgone)
                · exact absurd ((hnone j).symm.trans hstill) Bool.false_ne_true
          · exact forall_mem_singleton.mpr ⟨hdue.1, htime⟩
        · obtain ⟨hgone, -⟩ := not_or.mp hstop
          obtain ⟨harmed', hnow', hbreak, hpast'', hcalled, hall⟩ :=
            ih harmed (Bool.eq_false_of_not_eq_true hgone) hrest (by
              intro j hj
              by_cases hji : j = i
              · exact hpast' j (Or.inl hji)
              · exact hpast' j (Or.inr (hpast j fun hmem => (mem_cons.mp hmem).elim hji hj)))
          rw [hnow] at hcalled hall
          simp only [if_neg hstop]
          refine ⟨harmed', hnow'.trans hnow, hbreak, hpast'', fun j hj henabled hjdue => ?_,
            forall_mem_cons.mpr ⟨⟨hdue.1, htime⟩, hall⟩⟩
          rcases mem_cons.mp hj with rfl | hj
          · exact Or.inl ⟨_, mem_cons_self, rfl⟩
          · rcases hbehind j hj henabled hjdue with htouch | ⟨hstill, hlate⟩
            · exact Or.inr ⟨_, mem_cons_self, hfirst j hj, Or.inr htouch⟩
            · rcases hcalled j hj hstill hlate with ⟨call, hmem, hcall⟩ | ⟨call, hmem, hcall⟩
              · exact Or.inl ⟨call, mem_cons_of_mem _ hmem, hcall⟩
              · exact Or.inr ⟨call, mem_cons_of_mem _ hmem, hcall⟩
      · rw [if_neg hdue]
        have hnot : s.enabledTimer i = true → s.now < s.deadline i := by
          intro henabled
          by_contra hle
          exact hdue ⟨henabled, (h.due_iff henabled).mpr (Nat.le_of_not_lt hle)⟩
        obtain ⟨harmed, hnow, hbreak, hpast', hcalled, hall⟩ := ih h hkept hrest (by
          intro j hj
          by_cases hji : j = i
          · exact fun henabled => (hnot (hji ▸ henabled)).le.trans_eq (by rw [hji])
          · exact hpast j fun hmem => (mem_cons.mp hmem).elim hji hj)
        refine ⟨harmed, hnow, hbreak, hpast', fun j hj henabled hjdue => ?_, hall⟩
        rcases mem_cons.mp hj with rfl | hj
        · exact absurd hjdue (by have := hnot henabled; omega)
        · exact hcalled j hj henabled hjdue

/-- What holds of an open TCB between two ticks. -/
structure TimersOk (s : TimerTcb) : Prop where
  armed : Armed s
  covered : Covered s
  notPast : ∀ i, NotPast s i

/-- A tick of an open TCB. -/
theorem TimersOk.tick
    (h : TimersOk s)
    (hopen : s.Open)
    (hnear : ∀ i, ∀ c ∈ (handlers i).calls, c.Near) :
    ((tcpTickingDpc handlers s).1.removed = false → TimersOk (tcpTickingDpc handlers s).1) ∧
      CallsOnTime handlers s (tcpTickingDpc handlers s).2 := by
  obtain ⟨hclosed, hkept⟩ := hopen
  have harmed : ∀ next, Armed { s with now := s.now + 1, nextExpire := next } := by
    intro next i henabled
    obtain ⟨htimer, -, hfar⟩ := h.armed i henabled
    have hnow := h.notPast i henabled
    exact ⟨htimer, by show s.now + 1 ≤ s.deadline i + 1; omega,
      by show s.deadline i < s.now + 1 + tcpExpireTime; omega⟩
  have hclosed : ¬ s.closed = true := fun h => Bool.false_ne_true (hclosed.symm.trans h)
  rw [tcpTickingDpc]
  dsimp only
  rw [if_neg hclosed]
  by_cases hoff : s.timerOn = false
  · have hnone : ∀ i, ¬ s.enabledTimer i = true := fun i henabled =>
      Bool.false_ne_true (hoff.symm.trans (h.covered i henabled).1)
    rw [if_pos hoff]
    refine ⟨fun _ => ⟨harmed s.nextExpire, fun i hi => absurd hi (hnone i),
      fun i hi => absurd hi (hnone i)⟩, fun i hi => absurd hi (hnone i), ?_⟩
    exact fun call hcall => absurd hcall not_mem_nil
  rw [if_neg hoff]
  by_cases hcount : s.nextExpire - 1 > 0
  · have hlate : ∀ i, s.enabledTimer i = true →
        s.timerOn = true ∧ s.nextExpire ≤ s.deadline i - s.now := h.covered
    rw [if_pos hcount]
    refine ⟨fun _ => ⟨harmed (s.nextExpire - 1), fun i hi => ?_, fun i hi => ?_⟩,
      fun i hi hdue => ?_, fun call hcall => absurd hcall not_mem_nil⟩
    · obtain ⟨hon, hbound⟩ := hlate i hi
      refine ⟨hon, ?_⟩
      show s.nextExpire - 1 ≤ (s.deadline i : Int) - (s.now + 1 : Nat)
      omega
    · obtain ⟨-, hbound⟩ := hlate i hi
      show s.now + 1 ≤ s.deadline i
      omega
    · obtain ⟨-, hbound⟩ := hlate i hi
      omega
  · obtain ⟨harmed', hnow, hbreak, hpast, hcalled, hdue⟩ :=
      expireLoop_spec (harmed (s.nextExpire - 1)) hnear hkept
        (pairwise_lt_finRange 6) (fun i hi => absurd (mem_finRange i) hi)
    rw [if_neg hcount]
    refine ⟨?_, fun i hi => hcalled i (mem_finRange i) hi, hdue⟩
    dsimp only
    generalize expireLoop handlers (List.finRange 6) _ = r at *
    by_cases hfinished : r.finished = true
    · rw [if_pos hfinished]
      exact fun hgone => ⟨harmed'.update.1, harmed'.update.2, hpast hgone⟩
    · rw [if_neg hfinished]
      intro hgone
      have hnone := (hbreak (Bool.eq_false_of_not_eq_true hfinished)).resolve_left
        fun htrue => Bool.false_ne_true (hgone.symm.trans htrue)
      exact ⟨harmed', fun i hi => absurd ((hnone i).symm.trans hi) Bool.false_ne_true, hpast hgone⟩

theorem TimersReached.timersOk
    (h : TimersReached s)
    (hopen : s.Open) :
    TimersOk s := by
  induction h with
  | start hnone =>
      have hall : ∀ i, ¬ _ = true := fun i hi => Bool.false_ne_true ((hnone i).symm.trans hi)
      exact ⟨fun i hi => absurd hi (hall i), fun i hi => absurd hi (hall i),
        fun i hi => absurd hi (hall i)⟩
  | call h hopen' hnear ih =>
      obtain ⟨harmed, hcovered⟩ := (ih hopen').armed.run hnear
      exact ⟨harmed, hcovered, fun i => ((ih hopen').notPast i).run⟩
  | tick h hopen' hnear ih => exact ((ih hopen').tick hopen' hnear).1 hopen.2

/-- In every run whose timeouts stay below `TCP_EXPIRE_TIME`, the timers of an open TCB
expire on time. -/
theorem tcpTimers_expireOnTime
    (h : TimersReached s)
    (hopen : s.Open)
    (hnear : ∀ i, ∀ c ∈ (handlers i).calls, c.Near) :
    ExpiresOnTime handlers s :=
  ⟨(h.timersOk hopen).notPast, ((h.timersOk hopen).tick hopen hnear).2⟩

end Tick

/-- A TCB without timers. -/
def freshTcb : TimerTcb where
  now := 0
  enabledTimer := fun _ => false
  timer := fun _ => 0
  nextExpire := 0
  timerOn := false
  closed := false
  removed := false
  deadline := fun _ => 0

/-- A handler that does nothing to the TCB. -/
def idleHandler : Fin 6 → HandlerRun := fun _ => ⟨[], false, false⟩

/-- The retransmission timer with one tick to go. -/
theorem tcpTimers_expireOnTime_retransmit :
    ExpiresOnTime idleHandler (tcpSetTimer freshTcb 1 1) :=
  tcpTimers_expireOnTime
    (.call (c := .setTimer 1 1) (.start fun _ => rfl) ⟨rfl, rfl⟩ (by decide : 1 < 65535))
    ⟨rfl, rfl⟩ fun _ c hc => absurd hc not_mem_nil

/-- While the countdown is off, a tick only counts. -/
theorem tcpTickingDpc_off
    {s : TimerTcb}
    (hoff : s.timerOn = false) :
    tcpTickingDpc handlers s = ({ s with now := s.now + 1 }, []) := by
  rw [tcpTickingDpc]
  simp only [hoff, if_true, ite_self]

theorem ticks_off
    {s : TimerTcb}
    (hoff : s.timerOn = false)
    (n : Nat) :
    (fun s => (tcpTickingDpc handlers s).1)^[n] s = { s with now := s.now + n } := by
  induction n with
  | zero => rfl
  | succ n ih =>
      rw [Function.iterate_succ_apply', ih, tcpTickingDpc_off (by exact hoff)]
      rfl

/-- `TCP_KEEPALIVE_IDLE_MAX`: 4 hours with 5 ticks a second. -/
def tcpKeepaliveIdleMax : Nat := 5 * 60 * 60 * 4

/-- A keepalive timer set to the longest time does not start the countdown, and no handler
is called in the tick in which its time comes. -/
theorem keepaliveTimer_missed :
    ∃ s, s = (fun s => (tcpTickingDpc idleHandler s).1)^[tcpKeepaliveIdleMax - 1]
        (tcpSetTimer freshTcb 3 tcpKeepaliveIdleMax) ∧
      s.Open ∧ s.enabledTimer 3 = true ∧ s.deadline 3 = s.now + 1 ∧
      (tcpTickingDpc idleHandler s).2 = [] ∧ ¬ ExpiresOnTime idleHandler s := by
  have hoff : (tcpSetTimer freshTcb 3 tcpKeepaliveIdleMax).timerOn = false := by decide
  rw [ticks_off hoff]
  refine ⟨_, rfl, ⟨rfl, rfl⟩, rfl, rfl, ?_, fun h => ?_⟩
  · rw [tcpTickingDpc_off (by exact hoff)]
  · have hcalled := h.calls.called 3 rfl le_rfl
    rw [tcpTickingDpc_off (by exact hoff)] at hcalled
    rcases hcalled with ⟨call, hcall, -⟩ | ⟨call, hcall, -⟩ <;>
      exact not_mem_nil hcall

end Tcp
end Udk
