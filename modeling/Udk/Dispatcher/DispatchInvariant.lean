import Udk.Dispatcher.Dispatch

/-!
# The states of a driver

Each driver is in one state, its flags are those of the state, and every function of the
dispatcher moves it along one edge of the state diagram.  `Consistent` relates the states
with `mScheduledQueue` and with what has been started; `Consistent.edge` is what one move
along an edge needs.
-/

namespace Udk
namespace Dispatcher

open Variable List

/-- The states of a driver; a driver whose dependency section could not be read yet is
only discovered. -/
inductive DriverPhase where
  | discovered
  | unrequested
  | dependent
  | scheduled
  | untrusted
  | initialized
deriving DecidableEq

/-- Dependent, Unrequested, Scheduled, Untrusted and Initialized. -/
def EfiCoreDriverEntry.flags (entry : EfiCoreDriverEntry) : List Bool :=
  [entry.dependent, entry.unrequested, entry.scheduled, entry.untrusted, entry.initialized]

/-- The flags of a state. -/
def DriverPhase.flags : DriverPhase → List Bool
  | discovered => [false, false, false, false, false]
  | unrequested => [false, true, false, false, false]
  | dependent => [true, false, false, false, false]
  | scheduled => [false, false, true, false, false]
  | untrusted => [false, false, false, true, false]
  | initialized => [false, false, false, false, true]

/-- The flags are those of a state. -/
def EfiCoreDriverEntry.HasPhase (entry : EfiCoreDriverEntry) (phase : DriverPhase) : Prop :=
  entry.flags = phase.flags

/-- The dependency expression starts with `SOR`. -/
def EfiCoreDriverEntry.IsSor (entry : EfiCoreDriverEntry) : Prop :=
  ∃ rest, entry.depex = some (Opcode.sor.byte :: rest)

section Phase

variable {entry entry' : EfiCoreDriverEntry} {p q : DriverPhase}

theorem DriverPhase.flags_injective
    (h : p.flags = q.flags) :
    p = q := by
  cases p <;> cases q <;> first | rfl | exact absurd h (by decide)

theorem EfiCoreDriverEntry.HasPhase.unique
    (h : entry.HasPhase p)
    (h' : entry.HasPhase q) :
    p = q :=
  DriverPhase.flags_injective (h.symm.trans h')

theorem EfiCoreDriverEntry.HasPhase.exclusive
    (h : entry.HasPhase p) :
    entry.flags.count true ≤ 1 := by
  rw [h]
  cases p <;> decide

theorem hasPhase_iff :
    entry.HasPhase p ↔
      entry.dependent = p.flags[0]! ∧ entry.unrequested = p.flags[1]! ∧
        entry.scheduled = p.flags[2]! ∧ entry.untrusted = p.flags[3]! ∧
          entry.initialized = p.flags[4]! := by
  cases p <;> simp [EfiCoreDriverEntry.HasPhase, EfiCoreDriverEntry.flags, DriverPhase.flags]

theorem EfiCoreDriverEntry.HasPhase.of_dependent
    (h : entry.HasPhase p)
    (hflag : entry.dependent = true) :
    p = .dependent := by
  rw [(hasPhase_iff.mp h).1] at hflag
  cases p <;> first | rfl | exact absurd hflag (by decide)

theorem EfiCoreDriverEntry.HasPhase.of_unrequested
    (h : entry.HasPhase p)
    (hflag : entry.unrequested = true) :
    p = .unrequested := by
  rw [(hasPhase_iff.mp h).2.1] at hflag
  cases p <;> first | rfl | exact absurd hflag (by decide)

theorem EfiCoreDriverEntry.HasPhase.of_scheduled
    (h : entry.HasPhase p)
    (hflag : entry.scheduled = true) :
    p = .scheduled := by
  rw [(hasPhase_iff.mp h).2.2.1] at hflag
  cases p <;> first | rfl | exact absurd hflag (by decide)

theorem EfiCoreDriverEntry.HasPhase.of_untrusted
    (h : entry.HasPhase p)
    (hflag : entry.untrusted = true) :
    p = .untrusted := by
  rw [(hasPhase_iff.mp h).2.2.2.1] at hflag
  cases p <;> first | rfl | exact absurd hflag (by decide)

end Phase

section Static

/-- What the dependency section and the file say of a driver. -/
structure SameFile (entry entry' : EfiCoreDriverEntry) : Prop where
  fileName : entry'.fileName = entry.fileName
  depex : entry'.depex = entry.depex
  before : entry'.before = entry.before
  after : entry'.after = entry.after
  beforeAfterGuid : entry'.beforeAfterGuid = entry.beforeAfterGuid
  depexProtocolError : entry'.depexProtocolError = entry.depexProtocolError

/-- A driver whose dependency section has not been read. -/
structure Unread (entry : EfiCoreDriverEntry) : Prop where
  phase : entry.HasPhase .discovered
  depex : entry.depex = none
  before : entry.before = false
  after : entry.after = false

/-- What reading the dependency section leaves. -/
structure Preprocessed (entry entry' : EfiCoreDriverEntry) : Prop where
  retry : entry'.depexProtocolError = true → Unread entry'
  phase : entry'.HasPhase .discovered ∨ entry'.HasPhase .unrequested ∨ entry'.HasPhase .dependent
  sor : entry'.IsSor → entry'.HasPhase .unrequested

/-- `CoreGetDepexSectionAndPreProccess` on a driver whose section has not been read. -/
theorem coreGetDepexSectionAndPreProccess_spec
    {entry entry' : EfiCoreDriverEntry} {read : ReadSection}
    (h : Unread entry)
    (hread : coreGetDepexSectionAndPreProccess entry read = some entry') :
    Preprocessed entry entry' := by
  obtain ⟨hphase, hdepex, hbefore, hafter⟩ := h
  obtain ⟨hdependent, hunrequested, hscheduled, huntrusted, hinitialized⟩ := hasPhase_iff.mp hphase
  cases read with
  | protocolError =>
      obtain rfl := Option.some_inj.mp hread
      refine ⟨fun _ => ⟨hphase, hdepex, hbefore, hafter⟩, Or.inl hphase, ?_⟩
      rintro ⟨rest, hrest⟩
      exact absurd (hdepex.symm.trans hrest) (by simp)
  | error =>
      obtain rfl := Option.some_inj.mp hread
      refine ⟨fun hfalse => absurd hfalse (by simp), Or.inr (Or.inr ?_), ?_⟩
      · exact hasPhase_iff.mpr ⟨rfl, hunrequested, hscheduled, huntrusted, hinitialized⟩
      · rintro ⟨rest, hrest⟩
        exact absurd hrest (by simp)
  | success depex =>
      obtain ⟨e, he, rfl⟩ := Option.map_eq_some_iff.mp hread
      cases depex with
      | nil => exact absurd he (by simp [corePreProcessDepex])
      | cons opcode operand =>
          have hflags : e.flags =
              [!(opcode == Opcode.sor.byte), opcode == Opcode.sor.byte, false, false, false] ∧
                e.depex = some (opcode :: operand) := by
            simp only [corePreProcessDepex, hdependent, hunrequested] at he
            split_ifs at he
            all_goals
              obtain rfl := Option.some_inj.mp he
              refine ⟨?_, rfl⟩
              simp [EfiCoreDriverEntry.flags, hscheduled, huntrusted, hinitialized,
                DriverPhase.flags]
          refine ⟨fun hfalse => absurd hfalse (by simp), ?_, ?_⟩
          · cases hsor : opcode == Opcode.sor.byte with
            | true =>
                rw [hsor] at hflags
                exact Or.inr (Or.inl hflags.1)
            | false =>
                rw [hsor] at hflags
                exact Or.inr (Or.inr hflags.1)
          · rintro ⟨rest, hrest⟩
            have hopcode : opcode = Opcode.sor.byte := by
              have hdepex' := hflags.2.symm.trans hrest
              rw [Option.some_inj] at hdepex'
              exact (List.cons.inj hdepex').1
            rw [hopcode] at hflags
            exact hflags.1

end Static

section Consistent

/-- The states of the drivers, the queue and the records agree. -/
structure Consistent (drivers : List EfiCoreDriverEntry) (queue started requested : List Nat) :
    Prop where
  phase : ∀ (i : Nat) e, drivers[i]? = some e → ∃ p, e.HasPhase p
  inQueue : ∀ i, i ∈ queue ↔ ∃ e, drivers[i]? = some e ∧ e.HasPhase .scheduled
  queueNodup : queue.Nodup
  inStarted : ∀ i ∈ started, ∃ e, drivers[i]? = some e ∧ e.HasPhase .initialized
  startedNodup : started.Nodup
  sor : ∀ (i : Nat) e, drivers[i]? = some e → e.IsSor → e.HasPhase .unrequested ∨ i ∈ requested
  retry : ∀ (i : Nat) e, drivers[i]? = some e → e.depexProtocolError = true → Unread e

variable {drivers : List EfiCoreDriverEntry} {queue queue' started started' requested : List Nat}
  {entry : EfiCoreDriverEntry} {f : EfiCoreDriverEntry → EfiCoreDriverEntry} {i : Nat}
  {p q : DriverPhase} {e : EfiCoreDriverEntry}

theorem modify_cases
    {j : Nat}
    (hentry : drivers[i]? = some entry)
    (he : (drivers.modify i f)[j]? = some e) :
    j = i ∧ e = f entry ∨ j ≠ i ∧ drivers[j]? = some e := by
  by_cases hij : i = j
  · subst hij
    rw [getElem?_modify_eq, hentry] at he
    exact Or.inl ⟨rfl, (Option.some_inj.mp he).symm⟩
  · rw [getElem?_modify_ne f drivers hij] at he
    exact Or.inr ⟨fun h => hij h.symm, he⟩

theorem modify_self
    (hentry : drivers[i]? = some entry) :
    (drivers.modify i f)[i]? = some (f entry) := by
  rw [getElem?_modify_eq, hentry]
  rfl

theorem modify_other
    {j : Nat}
    (hj : j ≠ i)
    (he : drivers[j]? = some e) :
    (drivers.modify i f)[j]? = some e := by
  rw [getElem?_modify_ne f drivers fun h => hj h.symm]
  exact he

section

variable (h : Consistent drivers queue started requested)
include h

/-- One driver moves from a state to another one, or its section is read. -/
theorem Consistent.change
    {requested' : List Nat}
    (hentry : drivers[i]? = some entry)
    (hq : (f entry).HasPhase q)
    (hqueue : ∀ j, j ∈ queue' ↔ if j = i then q = .scheduled else j ∈ queue)
    (hqueueNodup : queue'.Nodup)
    (hstarted : ∀ j ∈ started', if j = i then q = .initialized else j ∈ started)
    (hstartedNodup : started'.Nodup)
    (hrequested : ∀ j ∈ requested, j ∈ requested')
    (hsor : (f entry).IsSor → q = .unrequested ∨ i ∈ requested')
    (hretry : (f entry).depexProtocolError = true → Unread (f entry)) :
    Consistent (drivers.modify i f) queue' started' requested' where
  phase j e he := by
    rcases modify_cases hentry he with ⟨-, rfl⟩ | ⟨-, he⟩
    · exact ⟨q, hq⟩
    · exact h.phase j e he
  inQueue j := by
    rw [hqueue j]
    split
    case isTrue hj =>
      subst hj
      constructor
      · exact fun hscheduled => ⟨f entry, modify_self hentry, hscheduled ▸ hq⟩
      · rintro ⟨e, he, hphase⟩
        rw [modify_self hentry, Option.some_inj] at he
        exact (he ▸ hq).unique hphase
    case isFalse hj =>
      rw [h.inQueue j, getElem?_modify_ne f drivers fun heq => hj heq.symm]
  queueNodup := hqueueNodup
  inStarted j hj := by
    have hmem := hstarted j hj
    split at hmem
    case isTrue heq =>
      subst heq
      exact ⟨f entry, modify_self hentry, hmem ▸ hq⟩
    case isFalse hne =>
      obtain ⟨e, he, hphase⟩ := h.inStarted j hmem
      exact ⟨e, modify_other hne he, hphase⟩
  startedNodup := hstartedNodup
  sor j e he hdepex := by
    rcases modify_cases hentry he with ⟨rfl, rfl⟩ | ⟨-, he⟩
    · rcases hsor hdepex with hunrequested | hmem
      · exact Or.inl (hunrequested ▸ hq)
      · exact Or.inr hmem
    · exact (h.sor j e he hdepex).imp id (hrequested j)
  retry j e he herror := by
    rcases modify_cases hentry he with ⟨-, rfl⟩ | ⟨-, he⟩
    · exact hretry herror
    · exact h.retry j e he herror

theorem Consistent.edge
    (hentry : drivers[i]? = some entry)
    (hp : entry.HasPhase p)
    (hdiscovered : p ≠ .discovered)
    (hunrequested : p ≠ .unrequested)
    (hfile : SameFile entry (f entry))
    (hq : (f entry).HasPhase q)
    (hqueue : ∀ j, j ∈ queue' ↔ if j = i then q = .scheduled else j ∈ queue)
    (hqueueNodup : queue'.Nodup)
    (hstarted : ∀ j ∈ started', if j = i then q = .initialized else j ∈ started)
    (hstartedNodup : started'.Nodup) :
    Consistent (drivers.modify i f) queue' started' requested := by
  refine h.change hentry hq hqueue hqueueNodup hstarted hstartedNodup (fun _ hj => hj) ?_ ?_
  · rintro ⟨rest, hrest⟩
    rcases h.sor i entry hentry ⟨rest, hfile.depex ▸ hrest⟩ with hphase | hmem
    · exact absurd (hp.unique hphase) hunrequested
    · exact Or.inr hmem
  · intro herror
    have hunread := h.retry i entry hentry (hfile.depexProtocolError ▸ herror)
    exact absurd (hp.unique hunread.phase) hdiscovered

theorem Consistent.enqueue
    (hentry : drivers[i]? = some entry)
    (hp : entry.HasPhase p)
    (hedge : p = .dependent ∨ p = .untrusted)
    (hfile : SameFile entry (f entry))
    (hq : (f entry).HasPhase .scheduled) :
    Consistent (drivers.modify i f) (queue ++ [i]) started requested := by
  have hnot : i ∉ queue := by
    intro hmem
    obtain ⟨e, he, hscheduled⟩ := (h.inQueue i).mp hmem
    rw [hentry, Option.some_inj] at he
    have := (he ▸ hp).unique hscheduled
    rcases hedge with rfl | rfl <;> exact absurd this (by decide)
  refine h.edge hentry hp ?_ ?_ hfile hq (fun j => ?_) ?_ (fun j hj => ?_) h.startedNodup
  · rcases hedge with rfl | rfl <;> decide
  · rcases hedge with rfl | rfl <;> decide
  · rw [mem_append, mem_singleton]
    split
    case isTrue hj => simp [hj]
    case isFalse hj => simp [hj]
  · exact nodup_append.mpr ⟨h.queueNodup, nodup_singleton i,
      fun a ha b hb hab => hnot (mem_singleton.mp hb ▸ hab ▸ ha)⟩
  · split
    case isTrue heq =>
      subst heq
      obtain ⟨e, he, hinitialized⟩ := h.inStarted j hj
      rw [hentry, Option.some_inj] at he
      have := (he ▸ hp).unique hinitialized
      rcases hedge with rfl | rfl <;> exact absurd this (by decide)
    case isFalse => exact hj

end

theorem mem_erase_iff_of_nodup
    {j : Nat}
    (h : queue.Nodup) :
    j ∈ queue.erase i ↔ if j = i then False else j ∈ queue := by
  rw [h.mem_erase_iff]
  split
  case isTrue hj => simp [hj]
  case isFalse hj => simp [hj]

variable (h : Consistent drivers queue started requested)
include h

theorem Consistent.dequeue
    (hentry : drivers[i]? = some entry)
    (hp : entry.HasPhase .scheduled)
    (hfile : SameFile entry (f entry))
    (hq : (f entry).HasPhase q)
    (hedge : q ≠ .scheduled) :
    Consistent (drivers.modify i f) (queue.erase i) started requested := by
  refine h.edge hentry hp (by decide) (by decide) hfile hq (fun j => ?_)
    (h.queueNodup.erase i) (fun j hj => ?_) h.startedNodup
  · rw [mem_erase_iff_of_nodup h.queueNodup]
    split
    · exact ⟨False.elim, hedge⟩
    · exact Iff.rfl
  · split
    case isTrue heq =>
      subst heq
      obtain ⟨e, he, hinitialized⟩ := h.inStarted j hj
      rw [hentry, Option.some_inj] at he
      exact absurd ((he ▸ hp).unique hinitialized) (by decide)
    case isFalse => exact hj

theorem Consistent.start
    (hentry : drivers[i]? = some entry)
    (hp : entry.HasPhase .scheduled)
    (hfile : SameFile entry (f entry))
    (hq : (f entry).HasPhase .initialized) :
    Consistent (drivers.modify i f) (queue.erase i) (i :: started) requested := by
  have hnot : i ∉ started := by
    intro hmem
    obtain ⟨e, he, hinitialized⟩ := h.inStarted i hmem
    rw [hentry, Option.some_inj] at he
    exact absurd ((he ▸ hp).unique hinitialized) (by decide)
  refine h.edge hentry hp (by decide) (by decide) hfile hq (fun j => ?_)
    (h.queueNodup.erase i) (fun j hj => ?_) (nodup_cons.mpr ⟨hnot, h.startedNodup⟩)
  · rw [mem_erase_iff_of_nodup h.queueNodup]
    split
    · exact ⟨False.elim, fun hc => absurd hc (by decide)⟩
    · exact Iff.rfl
  · split
    case isTrue => rfl
    case isFalse hne => exact (mem_cons.mp hj).resolve_left hne

/-- A new driver at the end of the list. -/
theorem Consistent.add
    {old : EfiCoreDriverEntry}
    (hentry : Preprocessed old entry) :
    Consistent (drivers ++ [entry]) queue started requested := by
  have hcases : ∀ {j : Nat} {e : EfiCoreDriverEntry}, (drivers ++ [entry])[j]? = some e →
      drivers[j]? = some e ∨ e = entry := by
    intro j e he
    rcases Nat.lt_trichotomy j drivers.length with hj | hj | hj
    · rw [getElem?_append_left hj] at he
      exact Or.inl he
    · subst hj
      rw [getElem?_concat_length, Option.some_inj] at he
      exact Or.inr he.symm
    · rw [getElem?_eq_none (by simp only [length_append, length_singleton]; omega)]
        at he
      exact absurd he (by simp)
  have hkeep : ∀ {j : Nat} {e : EfiCoreDriverEntry}, drivers[j]? = some e →
      (drivers ++ [entry])[j]? = some e := by
    intro j e he
    rw [getElem?_append_left (List.getElem?_eq_some_iff.mp he).1]
    exact he
  have hnot : ¬entry.HasPhase .scheduled := by
    intro hscheduled
    rcases hentry.phase with hp | hp | hp <;> exact absurd (hp.unique hscheduled) (by decide)
  constructor
  · intro j e he
    rcases hcases he with he | rfl
    · exact h.phase j e he
    · rcases hentry.phase with hp | hp | hp <;> exact ⟨_, hp⟩
  · intro j
    rw [h.inQueue j]
    constructor
    · exact fun ⟨e, he, hp⟩ => ⟨e, hkeep he, hp⟩
    · rintro ⟨e, he, hp⟩
      rcases hcases he with he | rfl
      · exact ⟨e, he, hp⟩
      · exact absurd hp hnot
  · exact h.queueNodup
  · intro j hj
    obtain ⟨e, he, hp⟩ := h.inStarted j hj
    exact ⟨e, hkeep he, hp⟩
  · exact h.startedNodup
  · intro j e he hsor
    rcases hcases he with he | rfl
    · exact h.sor j e he hsor
    · exact Or.inl (hentry.sor hsor)
  · intro j e he herror
    rcases hcases he with he | rfl
    · exact h.retry j e he herror
    · exact hentry.retry herror

end Consistent

end Dispatcher
end Udk
