import Udk.Dispatcher.DispatchInvariant

/-!
# Runs of the dispatcher

The activations of `CoreInsertOnScheduledQueueWhileProcessingBeforeAndAfter` form a chain
of drivers in which each depends on the one that is inserted below it.  If no chain comes
back to a driver that is still to be put on the queue, and the event of the dispatcher can
be created, every run keeps the states of the drivers, the queue and `gDispatcherRunning`
in agreement.
-/

namespace Udk
namespace Dispatcher

open Variable List

section Chain

/-- Activations over each other, the last one first: the first driver has neither BEFORE nor
AFTER, and each other one depends on the driver of the activation that inserts it. -/
inductive Chain (drivers : List EfiCoreDriverEntry) : List InsertFrame → Prop
  | root {frame : InsertFrame} {entry : EfiCoreDriverEntry}
      (hentry : drivers[frame.inserted]? = some entry)
      (hbefore : entry.before = false)
      (hafter : entry.after = false) :
      Chain drivers [frame]
  | next {frame top : InsertFrame} {rest : List InsertFrame}
      {inserted entry : EfiCoreDriverEntry}
      (hrest : Chain drivers (top :: rest))
      (hinserted : drivers[top.inserted]? = some inserted)
      (hentry : drivers[frame.inserted]? = some entry)
      (hdepends : dependsOn top.part entry inserted = true)
      (hnew : ∀ g ∈ top :: rest, g.inserted ≠ frame.inserted) :
      Chain drivers (frame :: top :: rest)

/-- No chain comes back to a driver that is still in its first loop. -/
def NoReentry (drivers : List EfiCoreDriverEntry) : Prop :=
  ∀ (top : InsertFrame) (rest : List InsertFrame) (i : Nat) (inserted entry : EfiCoreDriverEntry),
    Chain drivers (top :: rest) → drivers[top.inserted]? = some inserted →
      drivers[i]? = some entry → dependsOn top.part entry inserted = true → i ≠ top.inserted →
        ∀ g ∈ rest, g.part = .before → g.inserted ≠ i

variable {drivers drivers' : List EfiCoreDriverEntry} {frame frame' top : InsertFrame}
  {rest frames : List InsertFrame} {entry : EfiCoreDriverEntry} {i : Nat}
  {f : EfiCoreDriverEntry → EfiCoreDriverEntry}

theorem Chain.setTop
    (h : Chain drivers (frame :: rest))
    (hsame : frame'.inserted = frame.inserted) :
    Chain drivers (frame' :: rest) := by
  cases h with
  | root hentry hbefore hafter => exact .root (hsame ▸ hentry) hbefore hafter
  | next hrest hinserted hentry hdepends hnew =>
      exact .next hrest hinserted (hsame ▸ hentry) hdepends (hsame ▸ hnew)

theorem Chain.tail
    (h : Chain drivers (frame :: top :: rest)) :
    Chain drivers (top :: rest) := by
  cases h with
  | next hrest => exact hrest

theorem Chain.distinct
    (h : Chain drivers (frame :: rest)) :
    ∀ g ∈ rest, g.inserted ≠ frame.inserted := by
  cases h with
  | root => exact fun g hg => absurd hg not_mem_nil
  | next hrest hinserted hentry hdepends hnew => exact hnew

/-- The files of the drivers stay, and drivers may be added. -/
def SameFiles (drivers drivers' : List EfiCoreDriverEntry) : Prop :=
  ∀ (i : Nat) e, drivers[i]? = some e → ∃ e', drivers'[i]? = some e' ∧ SameFile e e'

theorem SameFile.refl (entry : EfiCoreDriverEntry) : SameFile entry entry :=
  ⟨rfl, rfl, rfl, rfl, rfl, rfl⟩

theorem dependsOn_congr
    {part : Part} {e e' t t' : EfiCoreDriverEntry}
    (he : SameFile e e')
    (ht : SameFile t t') :
    dependsOn part e' t' = dependsOn part e t := by
  cases part with
  | before => simp only [dependsOn, he.before, he.beforeAfterGuid, ht.fileName]
  | after => simp only [dependsOn, he.after, he.beforeAfterGuid, ht.fileName]

theorem sameFiles_modify
    (hfile : ∀ e, drivers[i]? = some e → SameFile e (f e)) :
    SameFiles drivers (drivers.modify i f) := by
  intro j e he
  by_cases hj : j = i
  · subst hj
    exact ⟨f e, modify_self he, hfile e he⟩
  · exact ⟨e, modify_other hj he, SameFile.refl e⟩

theorem sameFiles_append : SameFiles drivers (drivers ++ drivers') := by
  intro j e he
  refine ⟨e, ?_, SameFile.refl e⟩
  rw [getElem?_append_left (List.getElem?_eq_some_iff.mp he).1]
  exact he

theorem Chain.congr
    (h : Chain drivers frames)
    (hfiles : SameFiles drivers drivers') :
    Chain drivers' frames := by
  induction h with
  | root hentry hbefore hafter =>
      obtain ⟨e, he, hfile⟩ := hfiles _ _ hentry
      exact .root he (hfile.before.trans hbefore) (hfile.after.trans hafter)
  | @next _ top _ _ _ _ hinserted hentry hdepends hnew ih =>
      obtain ⟨t, ht, htfile⟩ := hfiles _ _ hinserted
      obtain ⟨e, he, hfile⟩ := hfiles _ _ hentry
      refine .next ih ht he ?_ hnew
      rw [dependsOn_congr hfile htfile]
      exact hdepends

/-- With a file name for each driver of its own no chain comes back. -/
theorem noReentry_of_distinctNames
    (h : ∀ (i j : Nat) e e', drivers[i]? = some e → drivers[j]? = some e' →
      e.fileName = e'.fileName → i = j) :
    NoReentry drivers := by
  intro top rest i inserted entry hchain hinserted hentry hdepends _ g hg _ heq
  have hname : inserted.fileName = entry.beforeAfterGuid := by
    simp only [dependsOn, Bool.and_eq_true, beq_iff_eq] at hdepends
    exact hdepends.2
  -- the driver depends on one driver only, and the chain has it further down already
  have hbelow : ∀ frames : List InsertFrame, Chain drivers frames →
      ∀ g ∈ frames, g.inserted = i →
        ∃ g' ∈ frames, ∃ e, drivers[g'.inserted]? = some e ∧ e.fileName = entry.beforeAfterGuid ∧
          g'.inserted ≠ i ∨ entry.before = false ∧ entry.after = false := by
    intro frames hframes
    induction hframes with
    | @root frame e he hbefore hafter =>
        intro g hg hgi
        rw [mem_singleton.mp hg] at hgi
        rw [hgi, hentry, Option.some_inj] at he
        exact ⟨frame, mem_singleton_self _, e, Or.inr (he ▸ ⟨hbefore, hafter⟩)⟩
    | @next frame below rest t e _ ht he hdep hnew ih =>
        intro g hg hgi
        rcases mem_cons.mp hg with rfl | hg
        · rw [hgi, hentry, Option.some_inj] at he
          subst he
          simp only [dependsOn, Bool.and_eq_true, beq_iff_eq] at hdep
          refine ⟨below, mem_cons_of_mem _ mem_cons_self, t, Or.inl ⟨ht, hdep.2, ?_⟩⟩
          exact hgi ▸ hnew below mem_cons_self
        · obtain ⟨g', hg', e', he'⟩ := ih g hg hgi
          exact ⟨g', mem_cons_of_mem _ hg', e', he'⟩
  cases hchain with
  | root => exact absurd hg not_mem_nil
  | @next _ below rest' t e hrest ht he hdep hnew =>
      obtain ⟨g', hg', e', hor⟩ := hbelow _ hrest g hg heq
      rcases hor with ⟨he', hname', -⟩ | ⟨hbefore, hafter⟩
      · have hsame := h _ _ _ _ he' hinserted (hname'.trans hname.symm)
        exact hnew g' hg' hsame
      · cases hpart : top.part with
        | before => simp [dependsOn, hpart, hbefore] at hdepends
        | after => simp [dependsOn, hpart, hafter] at hdepends

end Chain

section Frames

/-- The activations form a chain; a driver in its first loop is Dependent, one in its second
loop Scheduled. -/
structure FramesOk (drivers : List EfiCoreDriverEntry) (frames : List InsertFrame) : Prop where
  chain : frames ≠ [] → Chain drivers frames
  before : ∀ g ∈ frames, g.part = .before →
    ∃ e, drivers[g.inserted]? = some e ∧ e.HasPhase .dependent
  after : ∀ g ∈ frames, g.part = .after →
    ∃ e, drivers[g.inserted]? = some e ∧ e.HasPhase .scheduled

variable {drivers drivers' : List EfiCoreDriverEntry} {frame : InsertFrame}
  {frames : List InsertFrame} {entry : EfiCoreDriverEntry} {i : Nat} {p : DriverPhase}
  {f : EfiCoreDriverEntry → EfiCoreDriverEntry}

section

variable (h : FramesOk drivers frames)
include h

theorem FramesOk.phase
    {g : InsertFrame}
    (hg : g ∈ frames) :
    ∃ e, drivers[g.inserted]? = some e ∧ (e.HasPhase .dependent ∨ e.HasPhase .scheduled) := by
  cases hpart : g.part with
  | before =>
      obtain ⟨e, he, hp⟩ := h.before g hg hpart
      exact ⟨e, he, Or.inl hp⟩
  | after =>
      obtain ⟨e, he, hp⟩ := h.after g hg hpart
      exact ⟨e, he, Or.inr hp⟩

theorem FramesOk.change
    (hfile : ∀ e, drivers[i]? = some e → SameFile e (f e))
    (hother : ∀ g ∈ frames, g.inserted ≠ i) :
    FramesOk (drivers.modify i f) frames where
  chain hne := (h.chain hne).congr (sameFiles_modify hfile)
  before g hg hpart := by
    obtain ⟨e, he, hp⟩ := h.before g hg hpart
    exact ⟨e, modify_other (hother g hg) he, hp⟩
  after g hg hpart := by
    obtain ⟨e, he, hp⟩ := h.after g hg hpart
    exact ⟨e, modify_other (hother g hg) he, hp⟩

theorem FramesOk.ne_of_phase
    (hentry : drivers[i]? = some entry)
    (hp : entry.HasPhase p)
    (hdependent : p ≠ .dependent)
    (hscheduled : p ≠ .scheduled) :
    ∀ g ∈ frames, g.inserted ≠ i := by
  intro g hg heq
  obtain ⟨e, he, hphase⟩ := h.phase hg
  rw [heq, hentry, Option.some_inj] at he
  rcases hphase with hphase | hphase
  · exact hdependent ((he ▸ hp).unique hphase)
  · exact hscheduled ((he ▸ hp).unique hphase)

theorem FramesOk.append :
    FramesOk (drivers ++ drivers') frames := by
  have hkeep : ∀ {j : Nat} {e : EfiCoreDriverEntry}, drivers[j]? = some e →
      (drivers ++ drivers')[j]? = some e := by
    intro j e he
    rw [getElem?_append_left (List.getElem?_eq_some_iff.mp he).1]
    exact he
  refine ⟨fun hne => (h.chain hne).congr sameFiles_append, fun g hg hpart => ?_,
    fun g hg hpart => ?_⟩
  · obtain ⟨e, he, hp⟩ := h.before g hg hpart
    exact ⟨e, hkeep he, hp⟩
  · obtain ⟨e, he, hp⟩ := h.after g hg hpart
    exact ⟨e, hkeep he, hp⟩

end

variable (h : FramesOk drivers (frame :: frames))
include h

theorem FramesOk.advance
    {frame' : InsertFrame}
    (hinserted : frame'.inserted = frame.inserted)
    (hpart : frame'.part = frame.part) :
    FramesOk drivers (frame' :: frames) where
  chain _ := (h.chain (cons_ne_nil _ _)).setTop hinserted
  before g hg hbefore := by
    rcases mem_cons.mp hg with rfl | hg
    · rw [hinserted]
      exact h.before frame mem_cons_self (hpart ▸ hbefore)
    · exact h.before g (mem_cons_of_mem _ hg) hbefore
  after g hg hafter := by
    rcases mem_cons.mp hg with rfl | hg
    · rw [hinserted]
      exact h.after frame mem_cons_self (hpart ▸ hafter)
    · exact h.after g (mem_cons_of_mem _ hg) hafter

theorem FramesOk.pop :
    FramesOk drivers frames where
  chain hne := by
    cases frames with
    | nil => exact absurd rfl hne
    | cons top rest => exact (h.chain (cons_ne_nil _ _)).tail
  before g hg := h.before g (mem_cons_of_mem _ hg)
  after g hg := h.after g (mem_cons_of_mem _ hg)

theorem FramesOk.push
    (hnoReentry : NoReentry drivers)
    {inserted : EfiCoreDriverEntry}
    (hinserted : drivers[frame.inserted]? = some inserted)
    (hentry : drivers[i]? = some entry)
    (hdepends : dependsOn frame.part entry inserted = true)
    (hphase : entry.HasPhase .dependent)
    (hne : i ≠ frame.inserted) :
    FramesOk drivers (⟨i, .before, 0⟩ :: frame :: frames) := by
  have hchain := h.chain (cons_ne_nil _ _)
  refine ⟨fun _ => .next hchain hinserted hentry hdepends fun g hg heq => ?_, fun g hg hpart => ?_,
    fun g hg hpart => ?_⟩
  · rcases mem_cons.mp hg with rfl | hmem
    · exact hne heq.symm
    · cases hpart : g.part with
      | before =>
          exact hnoReentry frame frames i inserted entry hchain hinserted hentry hdepends hne g
            hmem hpart heq
      | after =>
          -- a driver in its second loop is not Dependent any more
          obtain ⟨e, he, hp⟩ := h.after g hg hpart
          rw [heq, hentry, Option.some_inj] at he
          exact absurd ((he ▸ hphase).unique hp) (by decide)
  · rcases mem_cons.mp hg with rfl | hg
    · exact ⟨entry, hentry, hphase⟩
    · exact h.before g hg hpart
  · rcases mem_cons.mp hg with rfl | hg
    · exact absurd hpart (by simp)
    · exact h.after g hg hpart

theorem FramesOk.schedule
    (hentry : drivers[frame.inserted]? = some entry)
    (hfile : ∀ e, drivers[frame.inserted]? = some e → SameFile e (f e))
    (hq : (f entry).HasPhase .scheduled) :
    FramesOk (drivers.modify frame.inserted f) ({ frame with part := .after, link := 0 } :: frames)
    where
  chain _ := by
    have hchain : Chain drivers ({ frame with part := .after, link := 0 } :: frames) :=
      (h.chain (cons_ne_nil _ _)).setTop rfl
    exact hchain.congr (sameFiles_modify hfile)
  before g hg hpart := by
    have hdistinct := (h.chain (cons_ne_nil _ _)).distinct
    rcases mem_cons.mp hg with rfl | hg
    · exact absurd hpart (by simp)
    · obtain ⟨e, he, hp⟩ := h.before g (mem_cons_of_mem _ hg) hpart
      exact ⟨e, modify_other (hdistinct g hg) he, hp⟩
  after g hg hpart := by
    have hdistinct := (h.chain (cons_ne_nil _ _)).distinct
    rcases mem_cons.mp hg with rfl | hg
    · exact ⟨f entry, modify_self hentry, hq⟩
    · obtain ⟨e, he, hp⟩ := h.after g (mem_cons_of_mem _ hg) hpart
      exact ⟨e, modify_other (hdistinct g hg) he, hp⟩

end Frames

section Moves

/-- What the dispatcher needs at its place. -/
def ControlOk (st : DispatcherState) : Prop :=
  match st.control with
  | .loading i => i ∈ st.scheduledQueue
  | .inserting _ frames => FramesOk st.discoveredList frames
  | _ => True

/-- The states of the drivers, the queue and the dispatcher agree. -/
structure DispatcherOk (st : DispatcherState) : Prop where
  consistent : Consistent st.discoveredList st.scheduledQueue st.started st.requested
  control : ControlOk st
  running : st.dispatcherRunning = true ↔ st.control ≠ .idle
  returned : ∀ r ∈ st.returned, r.1 ≠ .alreadyStarted → r.2 = false

/-- No chain of BEFORE and AFTER comes back, and the event of a dispatcher that is not
rejected can be created. -/
structure MoveOk (st : DispatcherState) (m : Move) : Prop where
  noReentry : NoReentry st.discoveredList
  createEvent : m = .dispatch false → st.dispatcherRunning = true

variable {st st' : DispatcherState} {entry : EfiCoreDriverEntry} {i : Nat} {p : DriverPhase}
  {f : EfiCoreDriverEntry → EfiCoreDriverEntry}

theorem initial_ok : DispatcherOk .initial where
  consistent :=
    { phase := fun i e he => by simp [DispatcherState.initial] at he
      inQueue := fun i => by simp [DispatcherState.initial]
      queueNodup := nodup_nil
      inStarted := fun i hi => absurd hi not_mem_nil
      startedNodup := nodup_nil
      sor := fun i e he => by simp [DispatcherState.initial] at he
      retry := fun i e he => by simp [DispatcherState.initial] at he }
  control := trivial
  running := by simp [DispatcherState.initial]
  returned r hr := absurd hr not_mem_nil

theorem newEntry_unread (file : FvFile) : Unread (newEntry file) :=
  ⟨rfl, rfl, rfl, rfl⟩

theorem DispatcherOk.addToDriverList
    (h : DispatcherOk st)
    {file : FvFile} {read : ReadSection}
    (hmove : st.coreAddToDriverList file read = some st') :
    DispatcherOk st' := by
  obtain ⟨entry, hread, rfl⟩ := Option.map_eq_some_iff.mp hmove
  have hentry := coreGetDepexSectionAndPreProccess_spec (newEntry_unread file) hread
  refine ⟨h.consistent.add hentry, ?_, h.running, h.returned⟩
  have hcontrol := h.control
  simp only [ControlOk] at hcontrol ⊢
  split
  · simpa only [*] using hcontrol
  · rename_i hc
    rw [hc] at hcontrol
    exact hcontrol.append
  · trivial

theorem ControlOk.change
    (h : ControlOk st)
    (hentry : st.discoveredList[i]? = some entry)
    (hp : entry.HasPhase p)
    (hdependent : p ≠ .dependent)
    (hscheduled : p ≠ .scheduled)
    (hfile : SameFile entry (f entry))
    (hlist : st'.discoveredList = st.discoveredList.modify i f)
    (hcontrol : st'.control = st.control)
    (hqueue : ∀ j ∈ st.scheduledQueue, j ∈ st'.scheduledQueue) :
    ControlOk st' := by
  simp only [ControlOk] at h ⊢
  rw [hcontrol]
  split
  · rename_i hc
    rw [hc] at h
    exact hqueue _ h
  · rename_i hc
    rw [hc] at h
    rw [hlist]
    refine h.change (fun e he => ?_) (h.ne_of_phase hentry hp hdependent hscheduled)
    rw [hentry, Option.some_inj] at he
    exact he ▸ hfile
  · trivial

theorem findIdx?_spec
    {drivers : List EfiCoreDriverEntry} {q : EfiCoreDriverEntry → Bool}
    (h : drivers.findIdx? q = some i) :
    ∃ e, drivers[i]? = some e ∧ q e = true := by
  obtain ⟨hlt, hq, -⟩ := findIdx?_eq_some_iff_getElem.mp h
  exact ⟨drivers[i], getElem?_eq_getElem hlt, hq⟩

theorem DispatcherOk.schedule
    (h : DispatcherOk st)
    (fvHandle : EfiHandle) (driverName : Guid) :
    DispatcherOk (st.coreSchedule fvHandle driverName).2 := by
  rw [DispatcherState.coreSchedule]
  split
  · exact h
  · rename_i i hfind
    obtain ⟨entry, hentry, hq⟩ := findIdx?_spec hfind
    simp only [Bool.and_eq_true] at hq
    obtain ⟨p, hp⟩ := h.consistent.phase i entry hentry
    obtain rfl := hp.of_unrequested hq.1.2
    obtain ⟨-, -, hscheduled, huntrusted, hinitialized⟩ := hasPhase_iff.mp hp
    have hto : EfiCoreDriverEntry.HasPhase
        { entry with unrequested := false, dependent := true } .dependent :=
      hasPhase_iff.mpr ⟨rfl, rfl, hscheduled, huntrusted, hinitialized⟩
    have hnotQueued : i ∉ st.scheduledQueue := by
      intro hmem
      obtain ⟨e, he, hphase⟩ := (h.consistent.inQueue i).mp hmem
      rw [hentry, Option.some_inj] at he
      exact absurd ((he ▸ hp).unique hphase) (by decide)
    have hnotStarted : i ∉ st.started := by
      intro hmem
      obtain ⟨e, he, hphase⟩ := h.consistent.inStarted i hmem
      rw [hentry, Option.some_inj] at he
      exact absurd ((he ▸ hp).unique hphase) (by decide)
    refine ⟨h.consistent.change hentry hto (fun j => ?_) h.consistent.queueNodup (fun j hj => ?_)
      h.consistent.startedNodup (fun j hj => mem_cons_of_mem _ hj)
      (fun _ => Or.inr mem_cons_self) (fun herror => ?_), ?_, h.running, h.returned⟩
    · split
      case isTrue hj => exact ⟨fun hmem => absurd (hj ▸ hmem) hnotQueued, fun hc => by cases hc⟩
      case isFalse => exact Iff.rfl
    · split
      case isTrue heq => exact absurd (heq ▸ hj) hnotStarted
      case isFalse => exact hj
    · exact absurd (hp.unique (h.consistent.retry i entry hentry herror).phase) (by decide)
    · exact h.control.change hentry hp (by decide) (by decide)
        (f := fun entry => { entry with unrequested := false, dependent := true })
        ⟨rfl, rfl, rfl, rfl, rfl, rfl⟩ rfl rfl (fun j hj => hj)

theorem DispatcherOk.trust
    (h : DispatcherOk st)
    (fvHandle : EfiHandle) (driverName : Guid) :
    DispatcherOk (st.coreTrust fvHandle driverName).2 := by
  rw [DispatcherState.coreTrust]
  split
  · exact h
  · rename_i i hfind
    obtain ⟨entry, hentry, hq⟩ := findIdx?_spec hfind
    simp only [Bool.and_eq_true] at hq
    obtain ⟨p, hp⟩ := h.consistent.phase i entry hentry
    obtain rfl := hp.of_untrusted hq.1.2
    obtain ⟨hdependent, hunrequested, -, -, hinitialized⟩ := hasPhase_iff.mp hp
    have hto : EfiCoreDriverEntry.HasPhase
        { entry with untrusted := false, scheduled := true } .scheduled :=
      hasPhase_iff.mpr ⟨hdependent, hunrequested, rfl, rfl, hinitialized⟩
    have hfile : SameFile entry { entry with untrusted := false, scheduled := true } :=
      ⟨rfl, rfl, rfl, rfl, rfl, rfl⟩
    refine ⟨h.consistent.enqueue hentry hp (Or.inr rfl) hfile hto, ?_, h.running, h.returned⟩
    exact h.control.change hentry hp (by decide) (by decide)
      (f := fun entry => { entry with untrusted := false, scheduled := true }) hfile rfl rfl
      (fun j hj => mem_append_left _ hj)

theorem DispatcherOk.dispatch
    (h : DispatcherOk st)
    {createEvent : Bool}
    (hok : MoveOk st (.dispatch createEvent)) :
    DispatcherOk (st.coreDispatcher createEvent) := by
  rw [DispatcherState.coreDispatcher]
  split_ifs with hrunning hevent
  · refine ⟨h.consistent, h.control, h.running, fun r hr => ?_⟩
    rcases mem_cons.mp hr with rfl | hr
    · exact fun hne => absurd rfl hne
    · exact h.returned r hr
  · exact ⟨h.consistent, trivial, by simp, h.returned⟩
  · have hfalse : createEvent = false := by simpa using hevent
    exact absurd (hok.createEvent (hfalse ▸ rfl)) hrunning

end Moves

section Turns

variable {st st' : DispatcherState} {entry : EfiCoreDriverEntry} {i link : Nat} {answer : Answer}
  {f : EfiCoreDriverEntry → EfiCoreDriverEntry}

theorem DispatcherOk.queued
    (h : DispatcherOk st)
    (hi : i ∈ st.scheduledQueue) :
    ∃ e, st.discoveredList[i]? = some e ∧ e.HasPhase .scheduled :=
  (h.consistent.inQueue i).mp hi

theorem DispatcherOk.startEntry
    (h : DispatcherOk st)
    (hbusy : st.control ≠ .idle)
    (hi : i ∈ st.scheduledQueue)
    (hfile : ∀ e, SameFile e (f e))
    (hflags : ∀ e, (f e).flags = e.flags) :
    DispatcherOk ((st.modify i f).startEntry i) := by
  obtain ⟨e, he, hp⟩ := h.queued hi
  have hp' : (f e).HasPhase .scheduled := (hflags e).trans hp
  obtain ⟨hdependent, hunrequested, -, huntrusted, -⟩ := hasPhase_iff.mp hp'
  have hto : EfiCoreDriverEntry.HasPhase
      { f e with scheduled := false, initialized := true } .initialized :=
    hasPhase_iff.mpr ⟨hdependent, hunrequested, rfl, huntrusted, rfl⟩
  have hsame : SameFile e { f e with scheduled := false, initialized := true } :=
    ⟨(hfile e).fileName, (hfile e).depex, (hfile e).before, (hfile e).after,
      (hfile e).beforeAfterGuid, (hfile e).depexProtocolError⟩
  have hlist : ((st.modify i f).startEntry i).discoveredList =
      st.discoveredList.modify i fun e => { f e with scheduled := false, initialized := true } := by
    simp only [DispatcherState.startEntry, DispatcherState.modify, modify_modify_eq]
    rfl
  refine ⟨?_, trivial, ?_, h.returned⟩
  · rw [hlist]
    exact h.consistent.start he hp hsame hto
  · have hrunning := h.running.mpr hbusy
    simp only [DispatcherState.startEntry, DispatcherState.modify, hrunning, ne_eq, reduceCtorEq,
      not_false_eq_true]

theorem DispatcherOk.loadFailed
    (h : DispatcherOk st)
    (hbusy : st.control ≠ .idle)
    (hi : i ∈ st.scheduledQueue)
    (hfile : ∀ e, SameFile e (f e))
    {q : DriverPhase}
    (hq : ∀ e, e.HasPhase .scheduled → EfiCoreDriverEntry.HasPhase { f e with scheduled := false } q)
    (hedge : q ≠ .scheduled) :
    DispatcherOk (st.loadFailed i f) := by
  obtain ⟨e, he, hp⟩ := h.queued hi
  have hsame : SameFile e { f e with scheduled := false } :=
    ⟨(hfile e).fileName, (hfile e).depex, (hfile e).before, (hfile e).after,
      (hfile e).beforeAfterGuid, (hfile e).depexProtocolError⟩
  refine ⟨h.consistent.dequeue he hp hsame (hq e hp) hedge, trivial, ?_, h.returned⟩
  have hrunning := h.running.mpr hbusy
  simp only [DispatcherState.loadFailed, DispatcherState.modify, hrunning, ne_eq, reduceCtorEq,
    not_false_eq_true]

theorem Consistent.reread
    {drivers : List EfiCoreDriverEntry} {queue started requested : List Nat}
    {entry' : EfiCoreDriverEntry}
    (h : Consistent drivers queue started requested)
    (hentry : drivers[i]? = some entry)
    (herror : entry.depexProtocolError = true)
    (hread : Preprocessed entry entry') :
    Consistent (drivers.modify i fun _ => entry') queue started requested := by
  have hunread := h.retry i entry hentry herror
  have hnotQueued : i ∉ queue := by
    intro hmem
    obtain ⟨e, he, hphase⟩ := (h.inQueue i).mp hmem
    rw [hentry, Option.some_inj] at he
    exact absurd ((he ▸ hunread.phase).unique hphase) (by decide)
  have hnotStarted : i ∉ started := by
    intro hmem
    obtain ⟨e, he, hphase⟩ := h.inStarted i hmem
    rw [hentry, Option.some_inj] at he
    exact absurd ((he ▸ hunread.phase).unique hphase) (by decide)
  have hphase : ∃ q, entry'.HasPhase q ∧ q ≠ .scheduled := by
    rcases hread.phase with hq | hq | hq
    · exact ⟨_, hq, by decide⟩
    · exact ⟨_, hq, by decide⟩
    · exact ⟨_, hq, by decide⟩
  obtain ⟨q, hq, hne⟩ := hphase
  refine h.change hentry hq (fun j => ?_) h.queueNodup (fun j hj => ?_) h.startedNodup
    (fun j hj => hj) (fun hsor => Or.inl (hq.unique (hread.sor hsor))) hread.retry
  · split
    case isTrue hj => exact ⟨fun hmem => absurd (hj ▸ hmem) hnotQueued, fun hc => absurd hc hne⟩
    case isFalse => exact Iff.rfl
  · split
    case isTrue heq => exact absurd (heq ▸ hj) hnotStarted
    case isFalse => exact hj

/-- A turn of an activation. -/
theorem insertTurn_ok
    {st' : DispatcherState} {frame : InsertFrame} {frames frames' : List InsertFrame}
    (hnoReentry : NoReentry st.discoveredList)
    (hconsistent : Consistent st.discoveredList st.scheduledQueue st.started st.requested)
    (h : FramesOk st.discoveredList (frame :: frames))
    (hturn : insertTurn st frame frames = some (st', frames')) :
    Consistent st'.discoveredList st'.scheduledQueue st'.started st'.requested ∧
      FramesOk st'.discoveredList frames' ∧ st'.dispatcherRunning = st.dispatcherRunning ∧
        st'.returned = st.returned := by
  rw [insertTurn] at hturn
  split at hturn
  · split at hturn
    · rename_i hpart
      obtain ⟨rfl, rfl⟩ := Prod.mk.inj (Option.some_inj.mp hturn)
      obtain ⟨e, he, hp⟩ := h.before frame mem_cons_self hpart
      obtain ⟨-, hunrequested, -, huntrusted, hinitialized⟩ := hasPhase_iff.mp hp
      have hto : EfiCoreDriverEntry.HasPhase
          { e with dependent := false, scheduled := true } .scheduled :=
        hasPhase_iff.mpr ⟨rfl, hunrequested, rfl, huntrusted, hinitialized⟩
      have hfile : ∀ e : EfiCoreDriverEntry,
          SameFile e { e with dependent := false, scheduled := true } :=
        fun e => ⟨rfl, rfl, rfl, rfl, rfl, rfl⟩
      exact ⟨hconsistent.enqueue he hp (Or.inl rfl) (hfile e) hto,
        h.schedule he (fun e _ => hfile e) hto, rfl, rfl⟩
    · obtain ⟨rfl, rfl⟩ := Prod.mk.inj (Option.some_inj.mp hturn)
      exact ⟨hconsistent, h.pop, rfl, rfl⟩
  · rename_i entry hentry
    obtain ⟨inserted, hinserted, hresult⟩ := Option.map_eq_some_iff.mp hturn
    simp only at hresult
    have hadvance : FramesOk st.discoveredList ({ frame with link := frame.link + 1 } :: frames) :=
      h.advance rfl rfl
    split at hresult
    · rename_i hcond
      obtain ⟨rfl, rfl⟩ := Prod.mk.inj hresult
      simp only [Bool.and_eq_true, bne_iff_ne, ne_eq] at hcond
      obtain ⟨p, hp⟩ := hconsistent.phase _ entry hentry
      obtain rfl := hp.of_dependent hcond.1.2
      exact ⟨hconsistent, hadvance.push hnoReentry hinserted hentry hcond.1.1 hp hcond.2, rfl, rfl⟩
    · obtain ⟨rfl, rfl⟩ := Prod.mk.inj hresult
      exact ⟨hconsistent, hadvance, rfl, rfl⟩

theorem framesOk_root
    (h : DispatcherOk st)
    (hentry : st.discoveredList[link]? = some entry)
    (hdependent : entry.dependent = true)
    (hschedulable : isSchedulable entry answer.schedulable = true) :
    FramesOk st.discoveredList [⟨link, .before, 0⟩] := by
  obtain ⟨p, hp⟩ := h.consistent.phase link entry hentry
  obtain rfl := hp.of_dependent hdependent
  simp only [isSchedulable, Bool.and_eq_true, Bool.not_eq_true', Bool.or_eq_false_iff] at hschedulable
  refine ⟨fun _ => .root hentry hschedulable.1.2 hschedulable.1.1, fun g hg _ => ?_,
    fun g hg hpart => ?_⟩
  · rw [mem_singleton.mp hg]
    exact ⟨entry, hentry, hp⟩
  · rw [mem_singleton.mp hg] at hpart
    exact absurd hpart (by simp)

/-- A turn of the running dispatcher. -/
theorem DispatcherOk.turn
    (h : DispatcherOk st)
    (hok : MoveOk st (.turn answer))
    (hturn : dispatcherTurn st answer = some st') :
    DispatcherOk st' := by
  have hrunning := h.running
  have hcontrol := h.control
  rw [dispatcherTurn] at hturn
  simp only [ControlOk] at hcontrol
  split at hturn
  · exact absurd hturn (by simp)
  · rename_i hc
    have hbusy : st.control ≠ .idle := by simp [hc]
    split at hturn
    · obtain rfl := Option.some_inj.mp hturn
      exact ⟨h.consistent, trivial, by simp [hrunning.mpr hbusy], h.returned⟩
    · rename_i i rest hqueue
      have hi : i ∈ st.scheduledQueue := hqueue ▸ mem_cons_self
      obtain ⟨entry, _, hresult⟩ := Option.map_eq_some_iff.mp hturn
      split at hresult
      · obtain rfl := hresult
        exact ⟨h.consistent, hi, by simp [hrunning.mpr hbusy], h.returned⟩
      · obtain rfl := hresult
        have hid : st.modify i id = st := by
          simp only [DispatcherState.modify, modify_id]
        have hstart := h.startEntry (f := id) hbusy hi SameFile.refl (fun _ => rfl)
        rw [hid] at hstart
        exact hstart
  · rename_i i hc
    have hbusy : st.control ≠ .idle := by simp [hc]
    rw [hc] at hcontrol
    split at hturn
    · obtain rfl := Option.some_inj.mp hturn
      exact h.startEntry hbusy hcontrol (fun e => ⟨rfl, rfl, rfl, rfl, rfl, rfl⟩) (fun _ => rfl)
    · obtain rfl := Option.some_inj.mp hturn
      refine h.loadFailed hbusy hcontrol (q := .untrusted)
        (fun e => ⟨rfl, rfl, rfl, rfl, rfl, rfl⟩) (fun e hp => ?_) (by decide)
      obtain ⟨hdependent, hunrequested, -, -, hinitialized⟩ := hasPhase_iff.mp hp
      exact hasPhase_iff.mpr ⟨hdependent, hunrequested, rfl, rfl, hinitialized⟩
    · obtain rfl := Option.some_inj.mp hturn
      refine h.loadFailed hbusy hcontrol (q := .initialized)
        (fun e => ⟨rfl, rfl, rfl, rfl, rfl, rfl⟩) (fun e hp => ?_) (by decide)
      obtain ⟨hdependent, hunrequested, -, huntrusted, -⟩ := hasPhase_iff.mp hp
      exact hasPhase_iff.mpr ⟨hdependent, hunrequested, rfl, huntrusted, rfl⟩
  · rename_i hc
    have hbusy : st.control ≠ .idle := by simp [hc]
    obtain rfl := Option.some_inj.mp hturn
    exact ⟨h.consistent, trivial, by simp [hrunning.mpr hbusy], h.returned⟩
  · rename_i link hc
    have hbusy : st.control ≠ .idle := by simp [hc]
    split at hturn
    · obtain rfl := Option.some_inj.mp hturn
      refine ⟨h.consistent, ?_, ?_, h.returned⟩
      · cases hready : st.readyToRun <;> simp [ControlOk]
      · cases hready : st.readyToRun <;> simp [hrunning.mpr hbusy]
    · rename_i entry hentry
      split at hturn
      · rename_i herror
        obtain ⟨entry', hread, rfl⟩ := Option.map_eq_some_iff.mp hturn
        have hunread := h.consistent.retry link entry hentry herror
        have hspec := coreGetDepexSectionAndPreProccess_spec hunread hread
        exact ⟨h.consistent.reread hentry herror hspec, trivial, by
          simp [DispatcherState.modify, hrunning.mpr hbusy], h.returned⟩
      · obtain rfl := Option.some_inj.mp hturn
        exact ⟨h.consistent, trivial, by simp [hrunning.mpr hbusy], h.returned⟩
  · rename_i link hc
    have hbusy : st.control ≠ .idle := by simp [hc]
    obtain ⟨entry, hentry, hresult⟩ := Option.map_eq_some_iff.mp hturn
    split at hresult
    · rename_i hcond
      obtain rfl := hresult
      rw [Bool.and_eq_true] at hcond
      have hframes : FramesOk st.discoveredList [⟨link, .before, 0⟩] :=
        framesOk_root h hentry hcond.1 hcond.2
      exact ⟨h.consistent, hframes, by simp [hrunning.mpr hbusy], h.returned⟩
    · obtain rfl := hresult
      exact ⟨h.consistent, trivial, by simp [hrunning.mpr hbusy], h.returned⟩
  · rename_i hc
    have hbusy : st.control ≠ .idle := by simp [hc]
    obtain rfl := Option.some_inj.mp hturn
    exact ⟨h.consistent, trivial, by simp [hrunning.mpr hbusy], h.returned⟩
  · rename_i frame frames hc
    have hbusy : st.control ≠ .idle := by simp [hc]
    rw [hc] at hcontrol
    obtain ⟨⟨st₁, frames'⟩, hinsert, rfl⟩ := Option.map_eq_some_iff.mp hturn
    obtain ⟨hconsistent, hframes, hrun, hreturned⟩ :=
      insertTurn_ok hok.noReentry h.consistent hcontrol hinsert
    exact ⟨hconsistent, hframes, by simp [hrun, hrunning.mpr hbusy], hreturned ▸ h.returned⟩
  · obtain rfl := Option.some_inj.mp hturn
    refine ⟨h.consistent, trivial, by simp, fun r hr => ?_⟩
    rcases mem_cons.mp hr with rfl | hr
    · exact fun _ => rfl
    · exact h.returned r hr

end Turns

section Run

variable {st : DispatcherState} {trace : List (DispatcherState × Move)}

/-- The state machine of the dispatcher: the queue holds the drivers that are Scheduled, each
once, no driver has two flags, none has been started twice, a driver that starts with SOR is
not scheduled before `CoreSchedule` has found it, and `gDispatcherRunning` was FALSE whenever
`CoreDispatcher` returned, unless it was rejected. -/
structure StateMachine (st : DispatcherState) : Prop where
  queue : ∀ i, i ∈ st.scheduledQueue ↔ ∃ e, st.discoveredList[i]? = some e ∧ e.scheduled = true
  queueOnce : st.scheduledQueue.Nodup
  exclusive : ∀ e ∈ st.discoveredList, e.flags.count true ≤ 1
  startedOnce : st.started.Nodup
  requestedFirst : ∀ (i : Nat) e, st.discoveredList[i]? = some e → e.IsSor →
    e.scheduled = true ∨ i ∈ st.started → i ∈ st.requested
  returned : ∀ r ∈ st.returned, r.1 ≠ .alreadyStarted → r.2 = false

/-- A move of the dispatcher. -/
def MoveStep (st : DispatcherState) (m : Move) (st' : DispatcherState) : Prop :=
  st.move m = some st'

theorem DispatcherOk.move
    {m : Move} {st' : DispatcherState}
    (h : DispatcherOk st)
    (hok : MoveOk st m)
    (hmove : MoveStep st m st') :
    DispatcherOk st' := by
  cases m with
  | addToDriverList file read => exact h.addToDriverList hmove
  | schedule fvHandle driverName => exact Option.some_inj.mp hmove ▸ h.schedule fvHandle driverName
  | trust fvHandle driverName => exact Option.some_inj.mp hmove ▸ h.trust fvHandle driverName
  | dispatch createEvent => exact Option.some_inj.mp hmove ▸ h.dispatch hok
  | turn answer => exact h.turn hok hmove

theorem scheduled_iff
    {e : EfiCoreDriverEntry} {p : DriverPhase}
    (hp : e.HasPhase p) :
    e.scheduled = true ↔ e.HasPhase .scheduled := by
  constructor
  · exact fun hflag => hp.of_scheduled hflag ▸ hp
  · exact fun hscheduled => (hasPhase_iff.mp hscheduled).2.2.1

theorem DispatcherOk.stateMachine
    (h : DispatcherOk st) :
    StateMachine st where
  queue i := by
    rw [h.consistent.inQueue i]
    constructor
    · exact fun ⟨e, he, hp⟩ => ⟨e, he, (scheduled_iff hp).mpr hp⟩
    · rintro ⟨e, he, hflag⟩
      obtain ⟨p, hp⟩ := h.consistent.phase i e he
      exact ⟨e, he, (scheduled_iff hp).mp hflag⟩
  queueOnce := h.consistent.queueNodup
  exclusive e he := by
    obtain ⟨i, hi⟩ := mem_iff_getElem?.mp he
    obtain ⟨p, hp⟩ := h.consistent.phase i e hi
    exact hp.exclusive
  startedOnce := h.consistent.startedNodup
  requestedFirst i e he hsor hmoved := by
    rcases h.consistent.sor i e he hsor with hp | hmem
    · rcases hmoved with hflag | hstarted
      · exact absurd (hp.of_scheduled hflag) (by decide)
      · obtain ⟨e', he', hinitialized⟩ := h.consistent.inStarted i hstarted
        rw [he, Option.some_inj] at he'
        exact absurd (hp.unique (he' ▸ hinitialized)) (by decide)
    · exact hmem
  returned := h.returned

/-- In every run in which the event of the dispatcher can be created and no chain of BEFORE
and AFTER comes back, every state is one of the state machine. -/
theorem dispatcher_stateMachine
    (hrun : Run MoveStep .initial trace st)
    (hok : ∀ x ∈ trace, MoveOk x.1 x.2) :
    StateMachine st := by
  have hkeep : ∀ s m s', DispatcherOk s → MoveOk s m → MoveStep s m s' → DispatcherOk s' :=
    fun s m s' hs hm hstep => hs.move hm hstep
  exact (hrun.invariant hkeep hok initial_ok).stateMachine

/-- A driver without a dependency section. -/
def plainFile : FvFile := ⟨1, zeroGuid, false⟩

/-- The driver that `CoreAddToDriverList` makes of it. -/
def plainEntry : EfiCoreDriverEntry :=
  { newEntry plainFile with dependent := true }

theorem noReentry_plainEntry : NoReentry [plainEntry] := by
  refine noReentry_of_distinctNames fun i j e e' he he' _ => ?_
  have hi := (List.getElem?_eq_some_iff.mp he).1
  have hj := (List.getElem?_eq_some_iff.mp he').1
  simp only [length_singleton] at hi hj
  omega

theorem noReentry_nil : NoReentry [] := by
  refine noReentry_of_distinctNames fun i j e e' he => ?_
  simp at he

theorem dispatcher_stateMachine_sample :
    StateMachine
      { DispatcherState.initial with
        discoveredList := [plainEntry]
        dispatcherRunning := true
        control := .drain } :=
  @dispatcher_stateMachine _
    [(.initial, .addToDriverList plainFile .error),
      ({ DispatcherState.initial with discoveredList := [plainEntry] }, .dispatch true)]
    (.cons (by rfl) (.cons (by rfl) (.nil _)))
    (fun x hx => by
      rcases mem_cons.mp hx with rfl | hx
      · exact ⟨noReentry_nil, fun hm => by cases hm⟩
      · rw [mem_singleton.mp hx]
        exact ⟨noReentry_plainEntry, fun hm => by cases hm⟩)

/-- Without the event `CoreDispatcher` returns an error and leaves `gDispatcherRunning`
TRUE, so that it is rejected ever after. -/
theorem eventFailure_keepsRunning :
    ∃ trace st, Run MoveStep .initial trace st ∧ ¬StateMachine st := by
  refine ⟨[(.initial, .dispatch false)], DispatcherState.initial.coreDispatcher false,
    Run.single rfl, fun h => ?_⟩
  exact absurd (h.returned (.outOfResources, true) mem_cons_self) (by decide)

/-- A driver that depends on another file. -/
def dependentFile (fvHandle : EfiHandle) (driverName guid : Guid) (opcode : Opcode) : Move :=
  .addToDriverList ⟨fvHandle, driverName, false⟩ (.success (opcode.byte :: guid.bytes))

/-- A file name that differs from `zeroGuid`. -/
def otherGuid : Guid := ⟨List.replicate 16 1, rfl⟩

end Run

end Dispatcher
end Udk
