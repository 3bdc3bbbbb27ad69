import Udk.Dispatcher.DispatchRun
import Udk.Walk

/-!
# Insertion with BEFORE and AFTER

One call of `CoreInsertOnScheduledQueueWhileProcessingBeforeAndAfter` as the walk of its turns.  It
puts each driver that reaches the inserted one on the queue once, in an order that respects the
references, unless a turn comes to a driver whose own first loop is still running.
-/

namespace Udk
namespace Dispatcher

open Variable List

/-- The dispatcher with the activations of the routine, the last one first. -/
abbrev Activations := DispatcherState × List InsertFrame

/-- One turn; nothing once the last activation has returned. -/
def insertNext : Activations → Option Activations
  | (_, []) => none
  | (st, frame :: frames) => insertTurn st frame frames

/-- A Dependent driver that refers to another one, in the sense of this loop. -/
structure Refers (drivers : List EfiCoreDriverEntry) (part : Part) (i x : Nat) : Prop where
  entries : ∃ entry inserted, drivers[i]? = some entry ∧ drivers[x]? = some inserted ∧
    dependsOn part entry inserted = true ∧ entry.dependent = true
  ne : i ≠ x

/-- The driver reaches the name of another one through a chain of references. -/
def Attached (drivers : List EfiCoreDriverEntry) (root i : Nat) : Prop :=
  Relation.TransGen (fun x i => ∃ part, Refers drivers part i x) root i

/-- The turn inserts a driver whose first loop is still running. -/
def Reenters (c : Activations) : Prop :=
  ∃ frame rest, c.2 = frame :: rest ∧
    Refers c.1.discoveredList frame.part frame.link frame.inserted ∧
    ∃ outer ∈ rest, outer.inserted = frame.link ∧ outer.part = .before

/-- The first driver comes in front of the second one. -/
def Precedes (queue : List Nat) (a b : Nat) : Prop :=
  ∃ front back, queue = front ++ back ∧ a ∈ front ∧ b ∈ back

/-- The call returns, and has put the inserted driver and those that reach its name on the queue,
each of them once; a driver attached in the first loop of another one comes before it, one attached
in the second loop behind it. -/
def InsertsOnce (st : DispatcherState) (root : Nat) : Prop :=
  ∃ fuel turns last added,
    walk insertNext fuel (st, [⟨root, .before, 0⟩]) = some turns ∧ (last, []) ∈ turns ∧
    last.scheduledQueue = st.scheduledQueue ++ added ∧ added.Nodup ∧
    (∀ i, i ∈ added ↔ i = root ∨ Attached st.discoveredList root i) ∧
    ∀ st' child parent rest, (st', child :: parent :: rest) ∈ turns →
      Refers st.discoveredList parent.part child.inserted parent.inserted ∧
      (parent.part = .before → Precedes added child.inserted parent.inserted) ∧
      (parent.part = .after → Precedes added parent.inserted child.inserted)

section Turns

/-- What a turn can do. -/
inductive InsertStep : Activations → Activations → Prop
  /-- The first loop ends, the driver is put on the queue. -/
  | schedule {st : DispatcherState} {frame : InsertFrame} {rest : List InsertFrame}
      (hend : st.discoveredList[frame.link]? = none) (hpart : frame.part = .before) :
      InsertStep (st, frame :: rest)
        (st.scheduleEntry frame.inserted, { frame with part := .after, link := 0 } :: rest)
  /-- The second loop ends. -/
  | leave {st : DispatcherState} {frame : InsertFrame} {rest : List InsertFrame}
      (hend : st.discoveredList[frame.link]? = none) (hpart : frame.part = .after) :
      InsertStep (st, frame :: rest) (st, rest)
  /-- A driver that refers to the one that is inserted. -/
  | enter {st : DispatcherState} {frame : InsertFrame} {rest : List InsertFrame}
      (hlink : frame.link < st.discoveredList.length)
      (hrefers : Refers st.discoveredList frame.part frame.link frame.inserted) :
      InsertStep (st, frame :: rest)
        (st, ⟨frame.link, .before, 0⟩ :: { frame with link := frame.link + 1 } :: rest)
  /-- Any other driver. -/
  | pass {st : DispatcherState} {frame : InsertFrame} {rest : List InsertFrame}
      (hlink : frame.link < st.discoveredList.length)
      (hother : ¬ Refers st.discoveredList frame.part frame.link frame.inserted) :
      InsertStep (st, frame :: rest) (st, { frame with link := frame.link + 1 } :: rest)

variable {st : DispatcherState} {frame : InsertFrame} {rest : List InsertFrame}
variable {c c' : Activations} {drivers : List EfiCoreDriverEntry} {part : Part} {i x : Nat}

theorem insertStep_of_next
    (h : insertNext c = some c') :
    InsertStep c c' := by
  obtain ⟨st, frames⟩ := c
  cases frames with
  | nil => cases h
  | cons frame rest =>
      rw [insertNext, insertTurn] at h
      cases hentry : st.discoveredList[frame.link]? with
      | none =>
          rw [hentry] at h
          cases hpart : frame.part with
          | before =>
              simp only [hpart] at h
              obtain rfl := Option.some_inj.mp h
              exact .schedule hentry hpart
          | after =>
              simp only [hpart] at h
              obtain rfl := Option.some_inj.mp h
              exact .leave hentry hpart
      | some entry =>
          have hlink := (List.getElem?_eq_some_iff.mp hentry).1
          rw [hentry] at h
          obtain ⟨inserted, hinserted, hturn⟩ := Option.map_eq_some_iff.mp h
          dsimp only at hturn
          split at hturn
          case isTrue hall =>
            obtain rfl := hturn
            simp only [Bool.and_eq_true, bne_iff_ne] at hall
            exact .enter hlink ⟨⟨entry, inserted, hentry, hinserted, hall.1.1, hall.1.2⟩, hall.2⟩
          case isFalse hnot =>
            obtain rfl := hturn
            refine .pass hlink fun hrefers => hnot ?_
            obtain ⟨⟨entry', inserted', hentry', hinserted', hdepends, hdependent⟩, hne⟩ := hrefers
            obtain rfl := Option.some_inj.mp (hentry.symm.trans hentry')
            obtain rfl := Option.some_inj.mp (hinserted.symm.trans hinserted')
            simp only [Bool.and_eq_true, bne_iff_ne]
            exact ⟨⟨hdepends, hdependent⟩, hne⟩

theorem insertNext_isSome
    (hinserted : frame.inserted < st.discoveredList.length) :
    ∃ c', insertNext (st, frame :: rest) = some c' := by
  rw [insertNext, insertTurn]
  cases hentry : st.discoveredList[frame.link]? with
  | none =>
      cases hpart : frame.part with
      | before | after => exact ⟨_, rfl⟩
  | some entry => exact ⟨_, by rw [getElem?_eq_getElem hinserted]; rfl⟩

theorem InsertStep.length
    (h : InsertStep c c') :
    c'.1.discoveredList.length = c.1.discoveredList.length := by
  cases h with
  | schedule => exact length_modify ..
  | leave => rfl
  | enter => rfl
  | pass => rfl

end Turns

section Twice

variable {c c' : Activations} {st : DispatcherState} {root i : Nat}

/-- How often a driver is on the queue, or will be put there by an activation. -/
def weight (i : Nat) (c : Activations) : Nat :=
  c.1.scheduledQueue.count i + c.2.countP fun g => g.inserted == i && g.part == .before

theorem InsertStep.weight_le
    (i : Nat)
    (h : InsertStep c c') :
    weight i c ≤ weight i c' := by
  cases h with
  | @schedule st frame rest hend hpart =>
      simp only [weight, DispatcherState.scheduleEntry, count_append, countP_cons, hpart]
      by_cases hi : frame.inserted = i
      · simp [hi]
        omega
      · simp [hi]
  | @leave st frame rest hend hpart =>
      simp [weight, countP_cons, hpart]
  | @enter st frame rest hlink hrefers | @pass st frame rest hlink hother =>
      simp only [weight, countP_cons]
      omega

theorem InsertStep.queue_grows
    (h : InsertStep c c') :
    c.1.scheduledQueue <+: c'.1.scheduledQueue := by
  cases h with
  | schedule => exact prefix_append ..
  | leave | enter | pass => exact prefix_rfl

theorem walksTo_weight_le
    (i : Nat)
    (h : WalksTo insertNext c c') :
    weight i c ≤ weight i c' ∧ c.1.scheduledQueue <+: c'.1.scheduledQueue := by
  induction h with
  | refl => exact ⟨le_refl _, prefix_rfl⟩
  | tail _ hnext ih =>
      have hstep := insertStep_of_next hnext
      exact ⟨ih.1.trans (hstep.weight_le i), ih.2.trans hstep.queue_grows⟩

/-- A driver that is entered again is put on the queue twice. -/
theorem not_reenters_of_insertsOnce
    (h : InsertsOnce st root)
    (hto : WalksTo insertNext (st, [⟨root, .before, 0⟩]) c) :
    ¬ Reenters c := by
  obtain ⟨fuel, turns, last, added, hwalk, hlast, hqueue, hnodup, -, -⟩ := h
  rintro ⟨frame, rest, hframes, hrefers, outer, houter, hinserted, hpart⟩
  obtain ⟨st', frames⟩ := c
  obtain rfl : frames = frame :: rest := hframes
  have hunique : Relator.RightUnique fun a b : Activations => insertNext a = some b := by
    intro a b b' hb hb'
    exact Option.some_inj.mp (hb.symm.trans hb')
  -- the walk goes on from here to its end
  have hrest : WalksTo insertNext (st', frame :: rest) (last, []) := by
    rcases Relation.ReflTransGen.total_of_right_unique hunique hto
      ((mem_walk_iff hwalk).mp hlast) with hrest | hback
    · exact hrest
    · rcases Relation.ReflTransGen.cases_head hback with heq | ⟨c, hc, -⟩
      · cases heq
      · cases hc
  rcases Relation.ReflTransGen.cases_head hrest with heq | ⟨c1, hc1, hrest⟩
  · cases heq
  · have hqueue' := (walksTo_weight_le frame.link hto).2
    have hend := (walksTo_weight_le frame.link hrest).1
    have hentered : c1 = (st', ⟨frame.link, .before, 0⟩ ::
        { frame with link := frame.link + 1 } :: rest) := by
      cases insertStep_of_next hc1 with
      | schedule hnone | leave hnone =>
          obtain ⟨⟨entry, -, hentry, -⟩, -⟩ := hrefers
          rw [hnone] at hentry
          cases hentry
      | enter => rfl
      | pass hlink hother => exact absurd hrefers hother
    subst hentered
    have houterCount : 0 < rest.countP fun g => g.inserted == frame.link && g.part == .before :=
      countP_pos_iff.mpr ⟨outer, houter, by simp [hinserted, hpart]⟩
    have hadded : added.count frame.link ≤ 1 := nodup_iff_count_le_one.mp hnodup _
    have hbefore := hqueue'.sublist.count_le frame.link
    simp only [weight, countP_cons, countP_nil, hqueue, count_append] at hend hbefore
    simp at hend
    omega

end Twice

section Once

/-- The loop over the drivers that refer to this one has passed a position, or the activation has
returned. -/
def Scanned (frames : List InsertFrame) (added : List Nat) (x : Nat) (part : Part) (i : Nat) :
    Prop :=
  (x ∈ added ∧ ∀ g ∈ frames, g.inserted ≠ x) ∨
    ∃ g ∈ frames, g.inserted = x ∧
      match part with
      | .before => g.part = .after ∨ i < g.link
      | .after => g.part = .after ∧ i < g.link

/-- An activation and the one below it. -/
def Nested (drivers : List EfiCoreDriverEntry) (added : List Nat) (child parent : InsertFrame) :
    Prop :=
  Refers drivers parent.part child.inserted parent.inserted ∧
    (parent.part = .after → child.inserted ∈ added →
      Precedes added parent.inserted child.inserted)

/-- The call on its way: what it has added, and what its activations are about. -/
structure Inserting (start : DispatcherState) (root : Nat) (st : DispatcherState)
    (frames : List InsertFrame) (added : List Nat) : Prop where
  queue : st.scheduledQueue = start.scheduledQueue ++ added
  drivers : ∀ i : Nat, st.discoveredList[i]? = (start.discoveredList[i]?).map fun entry =>
    if i ∈ added then { entry with dependent := false, scheduled := true } else entry
  nodup : added.Nodup
  active : (frames.map fun g => g.inserted).Nodup
  pending : ∀ g ∈ frames, g.part = .before → g.inserted ∉ added
  placed : ∀ g ∈ frames, g.part = .after → g.inserted ∈ added
  inside : ∀ g ∈ frames, g.inserted < start.discoveredList.length
  started : root ∈ added ∨ ∃ g ∈ frames, g.inserted = root
  bottom : ∀ g, frames.getLast? = some g → g.inserted = root
  attached : ∀ i, (i ∈ added ∨ ∃ g ∈ frames, g.inserted = i) →
    i = root ∨ Attached start.discoveredList root i
  covered : ∀ x part i, Scanned frames added x part i → Refers start.discoveredList part i x →
    i ∈ added ∨ ∃ g ∈ frames, g.inserted = i
  nested : frames.IsChain (Nested start.discoveredList added)

variable {start st : DispatcherState} {root i x a b : Nat} {frame top : InsertFrame}
variable {rest frames : List InsertFrame} {added : List Nat} {part : Part}

theorem Precedes.snoc
    (h : Precedes added a b) :
    Precedes (added ++ [x]) a b := by
  obtain ⟨front, back, rfl, ha, hb⟩ := h
  exact ⟨front, back ++ [x], append_assoc .., ha, mem_append_left _ hb⟩

theorem precedes_last
    (h : a ∈ added) :
    Precedes (added ++ [x]) a x :=
  ⟨added, [x], rfl, h, mem_singleton_self x⟩

namespace Inserting

variable {drivers : List EfiCoreDriverEntry}

theorem length
    (h : Inserting start root st frames added) :
    st.discoveredList.length = start.discoveredList.length := by
  have hnone : ∀ i : Nat, st.discoveredList[i]? = none ↔ start.discoveredList[i]? = none := by
    intro i
    rw [h.drivers i, Option.map_eq_none_iff]
  apply Nat.le_antisymm
  · exact List.getElem?_eq_none_iff.mp ((hnone _).mpr (getElem?_eq_none (le_refl _)))
  · exact List.getElem?_eq_none_iff.mp ((hnone _).mp (getElem?_eq_none (le_refl _)))

theorem refers_iff
    (h : Inserting start root st frames added) :
    Refers st.discoveredList part i x ↔ Refers start.discoveredList part i x ∧ i ∉ added := by
  have hsame : ∀ {entry : EfiCoreDriverEntry} {j : Nat},
      SameFile entry (if j ∈ added then { entry with dependent := false, scheduled := true }
        else entry) := by
    intro entry j
    split
    case isTrue => exact ⟨rfl, rfl, rfl, rfl, rfl, rfl⟩
    case isFalse => exact .refl entry
  constructor
  case mp =>
    rintro ⟨⟨entry', inserted', hentry', hinserted', hdepends, hdependent⟩, hne⟩
    rw [h.drivers] at hentry' hinserted'
    obtain ⟨entry, hentry, rfl⟩ := Option.map_eq_some_iff.mp hentry'
    obtain ⟨inserted, hinserted, rfl⟩ := Option.map_eq_some_iff.mp hinserted'
    have hnot : i ∉ added := by
      intro hi
      rw [if_pos hi] at hdependent
      cases hdependent
    rw [dependsOn_congr hsame hsame] at hdepends
    rw [if_neg hnot] at hdependent
    exact ⟨⟨⟨entry, inserted, hentry, hinserted, hdepends, hdependent⟩, hne⟩, hnot⟩
  case mpr =>
    rintro ⟨⟨⟨entry, inserted, hentry, hinserted, hdepends, hdependent⟩, hne⟩, hnot⟩
    refine ⟨⟨_, _, by rw [h.drivers, hentry, Option.map_some], by
      rw [h.drivers, hinserted, Option.map_some], ?_, ?_⟩, hne⟩
    · rw [dependsOn_congr hsame hsame]
      exact hdepends
    · rw [if_neg hnot]
      exact hdependent

/-- The call begins. -/
theorem begin
    (hroot : root < start.discoveredList.length) :
    Inserting start root start [⟨root, .before, 0⟩] [] where
  queue := (append_nil _).symm
  drivers := fun i => by
    have hid : (fun entry : EfiCoreDriverEntry =>
        if i ∈ ([] : List Nat) then { entry with dependent := false, scheduled := true }
        else entry) = id := funext fun entry => if_neg not_mem_nil
    rw [hid, Option.map_id, id]
  nodup := nodup_nil
  active := nodup_singleton _
  pending := fun _ _ _ => not_mem_nil
  placed := fun g hg hpart => by
    rw [mem_singleton.mp hg] at hpart
    cases hpart
  inside := fun g hg => by
    rw [mem_singleton.mp hg]
    exact hroot
  started := Or.inr ⟨_, mem_singleton_self _, rfl⟩
  bottom := fun g hg => by
    obtain rfl := Option.some_inj.mp hg
    rfl
  attached := by
    rintro i (hi | ⟨g, hg, rfl⟩)
    · exact absurd hi not_mem_nil
    · rw [mem_singleton.mp hg]
      exact Or.inl rfl
  covered := by
    rintro x part i (⟨hx, -⟩ | ⟨g, hg, -, hscan⟩) -
    · exact absurd hx not_mem_nil
    · rw [mem_singleton.mp hg] at hscan
      cases part with
      | before =>
          rcases hscan with hpart | hlt
          · cases hpart
          · exact absurd hlt (Nat.not_lt_zero i)
      | after => exact absurd hscan.2 (Nat.not_lt_zero i)
  nested := isChain_singleton _

theorem nested_top
    (h : (frame :: rest).IsChain (Nested drivers added))
    (hsame : top.inserted = frame.inserted) :
    (top :: rest).IsChain (Nested drivers added) := by
  cases rest with
  | nil => exact isChain_singleton _
  | cons parent rest =>
      obtain ⟨hpair, hrest⟩ := isChain_cons_cons.mp h
      refine isChain_cons_cons.mpr ⟨?_, hrest⟩
      rw [Nested, hsame]
      exact hpair

theorem nested_grow
    (h : frames.IsChain (Nested drivers added))
    (hother : ∀ g ∈ frames, g.inserted ≠ x) :
    frames.IsChain (Nested drivers (added ++ [x])) := by
  induction frames with
  | nil => exact isChain_nil
  | cons child frames ih =>
      cases frames with
      | nil => exact isChain_singleton _
      | cons parent rest =>
          obtain ⟨⟨hrefers, horder⟩, hrest⟩ := isChain_cons_cons.mp h
          refine isChain_cons_cons.mpr ⟨⟨hrefers, fun hpart hchild => ?_⟩,
            ih hrest fun g hg => hother g (mem_cons_of_mem _ hg)⟩
          rcases mem_append.mp hchild with hchild | hchild
          · exact (horder hpart hchild).snoc
          · exact absurd (mem_singleton.mp hchild) (hother child mem_cons_self)

variable (h : Inserting start root st (frame :: rest) added)

include h

theorem ne_of_rest {g : InsertFrame} (hg : g ∈ rest) : g.inserted ≠ frame.inserted := by
  intro heq
  have hnodup := h.active
  rw [map_cons, nodup_cons] at hnodup
  exact hnodup.1 (heq ▸ mem_map_of_mem hg)

theorem bottom_top
    (hsame : top.inserted = frame.inserted) :
    ∀ g, (top :: rest).getLast? = some g → g.inserted = root := by
  cases rest with
  | nil =>
      intro g hg
      obtain rfl := Option.some_inj.mp hg
      show top.inserted = root
      rw [hsame]
      exact h.bottom frame rfl
  | cons parent rest =>
      intro g hg
      rw [getLast?_cons_cons] at hg
      exact h.bottom g (getLast?_cons_cons.trans hg)

theorem lt_link
    (hend : st.discoveredList[frame.link]? = none)
    (hrefers : Refers start.discoveredList part i x) :
    i < frame.link := by
  obtain ⟨⟨entry, -, hentry, -⟩, -⟩ := hrefers
  have hi := (List.getElem?_eq_some_iff.mp hentry).1
  have hlink := List.getElem?_eq_none_iff.mp hend
  rw [h.length] at hlink
  omega

/-- The driver is put on the queue. -/
theorem schedule
    (hend : st.discoveredList[frame.link]? = none) (hpart : frame.part = .before) :
    Inserting start root (st.scheduleEntry frame.inserted)
      ({ frame with part := .after, link := 0 } :: rest) (added ++ [frame.inserted]) := by
  have hnew : frame.inserted ∉ added := h.pending frame mem_cons_self hpart
  have hactive : ∀ {j : Nat}, (∃ g ∈ { frame with part := Part.after, link := 0 } :: rest,
      g.inserted = j) ↔ ∃ g ∈ frame :: rest, g.inserted = j := by
    intro j
    simp only [mem_cons, exists_eq_or_imp]
  constructor
  case queue =>
    show st.scheduledQueue ++ [frame.inserted] = _
    rw [h.queue, append_assoc]
  case drivers =>
    intro j
    show (st.discoveredList.modify frame.inserted _)[j]? = _
    rw [getElem?_modify, h.drivers j]
    cases start.discoveredList[j]? with
    | none => rfl
    | some entry =>
        simp only [Option.map_some, Option.map_eq_map, mem_append, mem_singleton]
        by_cases hj : frame.inserted = j
        · subst hj
          simp only [if_true, or_true, if_neg hnew]
        · simp only [if_neg hj, Ne.symm hj, or_false]
  case nodup => exact nodup_append.mpr ⟨h.nodup, nodup_singleton _, by
    intro a ha b hb
    rw [mem_singleton.mp hb]
    exact fun heq => hnew (heq ▸ ha)⟩
  case active => exact h.active
  case pending =>
    intro g hg hbefore hmem
    rcases mem_cons.mp hg with rfl | hg
    · cases hbefore
    · rcases mem_append.mp hmem with hmem | hmem
      · exact h.pending g (mem_cons_of_mem _ hg) hbefore hmem
      · exact h.ne_of_rest hg (mem_singleton.mp hmem)
  case placed =>
    intro g hg hafter
    rcases mem_cons.mp hg with rfl | hg
    · exact mem_append_right _ (mem_singleton_self _)
    · exact mem_append_left _ (h.placed g (mem_cons_of_mem _ hg) hafter)
  case inside =>
    intro g hg
    rcases mem_cons.mp hg with rfl | hg
    · exact h.inside frame mem_cons_self
    · exact h.inside g (mem_cons_of_mem _ hg)
  case started =>
    rw [hactive]
    exact h.started.imp_left (mem_append_left _)
  case bottom => exact h.bottom_top rfl
  case attached =>
    intro i hi
    rw [hactive, mem_append, mem_singleton] at hi
    refine h.attached i ?_
    rcases hi with (hi | rfl) | hi
    · exact Or.inl hi
    · exact Or.inr ⟨frame, mem_cons_self, rfl⟩
    · exact Or.inr hi
  case covered =>
    intro x part i hscan hrefers
    have hbefore : Scanned (frame :: rest) added x part i := by
      rcases hscan with ⟨hx, hgone⟩ | ⟨g, hg, hgx, hscan⟩
      · have hne := hgone _ mem_cons_self
        refine Or.inl ⟨?_, fun g hg => ?_⟩
        · rcases mem_append.mp hx with hx | hx
          · exact hx
          · exact absurd (mem_singleton.mp hx).symm hne
        · rcases mem_cons.mp hg with rfl | hg
          · exact hne
          · exact hgone g (mem_cons_of_mem _ hg)
      · rcases mem_cons.mp hg with rfl | hg
        · refine Or.inr ⟨frame, mem_cons_self, hgx, ?_⟩
          cases part with
          | before => exact Or.inr (h.lt_link hend hrefers)
          | after => exact absurd hscan.2 (Nat.not_lt_zero i)
        · exact Or.inr ⟨g, mem_cons_of_mem _ hg, hgx, hscan⟩
    rw [hactive]
    rcases h.covered x part i hbefore hrefers with hi | hi
    · exact Or.inl (mem_append_left _ hi)
    · exact Or.inr hi
  case nested =>
    have hrest : rest.IsChain (Nested start.discoveredList (added ++ [frame.inserted])) :=
      nested_grow h.nested.tail fun g hg => h.ne_of_rest hg
    cases rest with
    | nil => exact isChain_singleton _
    | cons parent rest =>
        obtain ⟨⟨hrefers, -⟩, -⟩ := isChain_cons_cons.mp h.nested
        refine isChain_cons_cons.mpr ⟨⟨hrefers, fun hafter _ => ?_⟩, hrest⟩
        exact precedes_last (h.placed parent (mem_cons_of_mem _ mem_cons_self) hafter)

/-- The activation returns. -/
theorem leave
    (hend : st.discoveredList[frame.link]? = none) (hpart : frame.part = .after) :
    Inserting start root st rest added := by
  have hplaced : frame.inserted ∈ added := h.placed frame mem_cons_self hpart
  constructor
  case queue => exact h.queue
  case drivers => exact h.drivers
  case nodup => exact h.nodup
  case active => exact (nodup_cons.mp h.active).2
  case pending => exact fun g hg => h.pending g (mem_cons_of_mem _ hg)
  case placed => exact fun g hg => h.placed g (mem_cons_of_mem _ hg)
  case inside => exact fun g hg => h.inside g (mem_cons_of_mem _ hg)
  case started =>
    rcases h.started with hroot | ⟨g, hg, hroot⟩
    · exact Or.inl hroot
    · rcases mem_cons.mp hg with rfl | hg
      · exact Or.inl (hroot ▸ hplaced)
      · exact Or.inr ⟨g, hg, hroot⟩
  case bottom =>
    intro g hg
    cases rest with
    | nil => cases hg
    | cons parent rest => exact h.bottom g (getLast?_cons_cons.trans hg)
  case attached =>
    intro i hi
    refine h.attached i ?_
    rcases hi with hi | ⟨g, hg, hi⟩
    · exact Or.inl hi
    · exact Or.inr ⟨g, mem_cons_of_mem _ hg, hi⟩
  case covered =>
    intro x part i hscan hrefers
    have hbefore : Scanned (frame :: rest) added x part i := by
      rcases hscan with ⟨hx, hgone⟩ | ⟨g, hg, hgx, hscan⟩
      · by_cases hself : frame.inserted = x
        · refine Or.inr ⟨frame, mem_cons_self, hself, ?_⟩
          cases part with
          | before => exact Or.inl hpart
          | after => exact ⟨hpart, h.lt_link hend hrefers⟩
        · refine Or.inl ⟨hx, fun g hg => ?_⟩
          rcases mem_cons.mp hg with rfl | hg
          · exact hself
          · exact hgone g hg
      · exact Or.inr ⟨g, mem_cons_of_mem _ hg, hgx, hscan⟩
    rcases h.covered x part i hbefore hrefers with hi | ⟨g, hg, hgi⟩
    · exact Or.inl hi
    · rcases mem_cons.mp hg with rfl | hg
      · exact Or.inl (hgi ▸ hplaced)
      · exact Or.inr ⟨g, hg, hgi⟩
  case nested => exact h.nested.tail

/-- The activation goes on behind a position, perhaps below a new activation for it. -/
theorem advance
    (above : List InsertFrame)
    (habove : ∀ g ∈ above, g.inserted = frame.link ∧ g.part = .before ∧ g.link = 0)
    (hcovered : ∀ part, Refers start.discoveredList part frame.link frame.inserted →
      (part = .before → frame.part = .before) → (part = .after → frame.part = .after) →
      frame.link ∈ added ∨ ∃ g ∈ above, g.inserted = frame.link)
    (hactive : ((above ++ { frame with link := frame.link + 1 } :: rest).map
      fun g => g.inserted).Nodup)
    (hpending : ∀ g ∈ above, g.inserted ∉ added)
    (hinside : ∀ g ∈ above, g.inserted < start.discoveredList.length)
    (hattached : ∀ g ∈ above, Attached start.discoveredList root g.inserted)
    (hnested : (above ++ { frame with link := frame.link + 1 } :: rest).IsChain
      (Nested start.discoveredList added)) :
    Inserting start root st (above ++ { frame with link := frame.link + 1 } :: rest) added := by
  have hmem : ∀ {g : InsertFrame}, g ∈ above ++ { frame with link := frame.link + 1 } :: rest ↔
      g ∈ above ∨ g = { frame with link := frame.link + 1 } ∨ g ∈ rest := by
    intro g
    rw [mem_append, mem_cons]
  constructor
  case queue => exact h.queue
  case drivers => exact h.drivers
  case nodup => exact h.nodup
  case active => exact hactive
  case pending =>
    intro g hg hbefore
    rcases hmem.mp hg with hg | rfl | hg
    · exact hpending g hg
    · exact h.pending frame mem_cons_self hbefore
    · exact h.pending g (mem_cons_of_mem _ hg) hbefore
  case placed =>
    intro g hg hafter
    rcases hmem.mp hg with hg | rfl | hg
    · rw [(habove g hg).2.1] at hafter
      cases hafter
    · exact h.placed frame mem_cons_self hafter
    · exact h.placed g (mem_cons_of_mem _ hg) hafter
  case inside =>
    intro g hg
    rcases hmem.mp hg with hg | rfl | hg
    · exact hinside g hg
    · exact h.inside frame mem_cons_self
    · exact h.inside g (mem_cons_of_mem _ hg)
  case started =>
    rcases h.started with hroot | ⟨g, hg, hroot⟩
    · exact Or.inl hroot
    · rcases mem_cons.mp hg with rfl | hg
      · exact Or.inr ⟨{ g with link := g.link + 1 }, hmem.mpr (Or.inr (Or.inl rfl)), hroot⟩
      · exact Or.inr ⟨g, hmem.mpr (Or.inr (Or.inr hg)), hroot⟩
  case bottom =>
    have hbottom : ∀ g, ({ frame with link := frame.link + 1 } :: rest).getLast? = some g →
        g.inserted = root := h.bottom_top rfl
    intro g hg
    rw [getLast?_append_cons] at hg
    exact hbottom g hg
  case attached =>
    rintro i (hi | ⟨g, hg, rfl⟩)
    · exact h.attached i (Or.inl hi)
    · rcases hmem.mp hg with hg | rfl | hg
      · exact Or.inr (hattached g hg)
      · exact h.attached _ (Or.inr ⟨frame, mem_cons_self, rfl⟩)
      · exact h.attached _ (Or.inr ⟨g, mem_cons_of_mem _ hg, rfl⟩)
  case covered =>
    intro x part i hscan hrefers
    -- either the position has been passed before, or it is the one passed now
    have hbefore : Scanned (frame :: rest) added x part i ∨ (i = frame.link ∧
        x = frame.inserted ∧ (part = .before → frame.part = .before) ∧
        (part = .after → frame.part = .after)) := by
      rcases hscan with ⟨hx, hgone⟩ | ⟨g, hg, hgx, hscan⟩
      · refine Or.inl (Or.inl ⟨hx, fun g hg => ?_⟩)
        rcases mem_cons.mp hg with rfl | hg
        · exact hgone { g with link := g.link + 1 } (hmem.mpr (Or.inr (Or.inl rfl)))
        · exact hgone g (hmem.mpr (Or.inr (Or.inr hg)))
      · rcases hmem.mp hg with hg | rfl | hg
        · obtain ⟨-, hpart, hlink⟩ := habove g hg
          cases part with
          | before =>
              rw [hpart, hlink] at hscan
              rcases hscan with hscan | hscan
              · cases hscan
              · exact absurd hscan (Nat.not_lt_zero i)
          | after =>
              rw [hpart] at hscan
              cases hscan.1
        · cases part with
          | before =>
              cases hpart : frame.part with
              | after =>
                  exact Or.inl (Or.inr ⟨frame, mem_cons_self, hgx, Or.inl hpart⟩)
              | before =>
                  rcases hscan with hscan | hscan
                  · rw [hpart] at hscan
                    cases hscan
                  · rcases Nat.lt_succ_iff_lt_or_eq.mp hscan with hlt | heq
                    · exact Or.inl (Or.inr ⟨frame, mem_cons_self, hgx, Or.inr hlt⟩)
                    · exact Or.inr ⟨heq, hgx.symm, fun _ => rfl, fun heq => by cases heq⟩
          | after =>
              rcases Nat.lt_succ_iff_lt_or_eq.mp hscan.2 with hlt | heq
              · exact Or.inl (Or.inr ⟨frame, mem_cons_self, hgx, hscan.1, hlt⟩)
              · exact Or.inr ⟨heq, hgx.symm, fun heq => by (cases heq), fun _ => hscan.1⟩
        · exact Or.inl (Or.inr ⟨g, mem_cons_of_mem _ hg, hgx, hscan⟩)
    rcases hbefore with hbefore | ⟨rfl, rfl, hpart, hpart'⟩
    · rcases h.covered x part i hbefore hrefers with hi | ⟨g, hg, hgi⟩
      · exact Or.inl hi
      · rcases mem_cons.mp hg with rfl | hg
        · exact Or.inr ⟨{ g with link := g.link + 1 }, hmem.mpr (Or.inr (Or.inl rfl)), hgi⟩
        · exact Or.inr ⟨g, hmem.mpr (Or.inr (Or.inr hg)), hgi⟩
    · rcases hcovered part hrefers hpart hpart' with hi | ⟨g, hg, hgi⟩
      · exact Or.inl hi
      · exact Or.inr ⟨g, hmem.mpr (Or.inl hg), hgi⟩
  case nested => exact hnested

/-- Without re-entry a driver that refers to the inserted one has no activation: one in its second
loop would have put it on the queue. -/
theorem fresh
    (hrefers : Refers st.discoveredList frame.part frame.link frame.inserted)
    (hnot : ¬ Reenters (st, frame :: rest)) :
    ∀ g ∈ frame :: rest, g.inserted ≠ frame.link := by
  obtain ⟨hstart, hnew⟩ := h.refers_iff.mp hrefers
  intro g hg heq
  rcases mem_cons.mp hg with rfl | hg
  · exact hstart.ne heq.symm
  · cases hpart : g.part with
    | before => exact hnot ⟨frame, rest, rfl, hrefers, g, hg, heq, hpart⟩
    | after => exact hnew (heq ▸ h.placed g (mem_cons_of_mem _ hg) hpart)

theorem enter
    (hlink : frame.link < st.discoveredList.length)
    (hrefers : Refers st.discoveredList frame.part frame.link frame.inserted)
    (hnot : ¬ Reenters (st, frame :: rest)) :
    Inserting start root st
      (⟨frame.link, .before, 0⟩ :: { frame with link := frame.link + 1 } :: rest) added := by
  obtain ⟨hstart, hnew⟩ := h.refers_iff.mp hrefers
  have hfresh := h.fresh hrefers hnot
  refine h.advance [⟨frame.link, .before, 0⟩] ?_ ?_ ?_ ?_ ?_ ?_ ?_
  · exact forall_mem_singleton.mpr ⟨rfl, rfl, rfl⟩
  · exact fun _ _ _ _ => Or.inr ⟨_, mem_singleton_self _, rfl⟩
  · refine nodup_cons.mpr ⟨?_, h.active⟩
    intro hmem
    obtain ⟨g, hg, heq⟩ := mem_map.mp hmem
    rcases mem_cons.mp hg with rfl | hg
    · exact hfresh frame mem_cons_self heq
    · exact hfresh g (mem_cons_of_mem _ hg) heq
  · exact forall_mem_singleton.mpr hnew
  · exact forall_mem_singleton.mpr (h.length ▸ hlink)
  · refine forall_mem_singleton.mpr ?_
    rcases h.attached frame.inserted (Or.inr ⟨frame, mem_cons_self, rfl⟩) with hroot | hchain
    · exact Relation.TransGen.single ⟨frame.part, hroot ▸ hstart⟩
    · exact Relation.TransGen.tail hchain ⟨frame.part, hstart⟩
  · refine isChain_cons_cons.mpr ⟨⟨hstart, fun _ hmem => absurd hmem hnew⟩, ?_⟩
    exact nested_top h.nested rfl

theorem pass
    (hother : ¬ Refers st.discoveredList frame.part frame.link frame.inserted) :
    Inserting start root st ({ frame with link := frame.link + 1 } :: rest) added := by
  refine h.advance [] ?_ ?_ h.active ?_ ?_ ?_ (nested_top h.nested rfl)
  · exact fun g hg => absurd hg not_mem_nil
  · intro part hrefers hbefore hafter
    have hpart : part = frame.part := by
      cases part with
      | before => exact (hbefore rfl).symm
      | after => exact (hafter rfl).symm
    subst hpart
    by_contra hnot
    exact hother (h.refers_iff.mpr ⟨hrefers, fun hmem => hnot (Or.inl hmem)⟩)
  · exact fun g hg => absurd hg not_mem_nil
  · exact fun g hg => absurd hg not_mem_nil
  · exact fun g hg => absurd hg not_mem_nil

omit h

end Inserting

end Once

section Walk

/-- The order of two drivers, on the way to it. -/
def Ordered (part : Part) (frames : List InsertFrame) (added : List Nat) (a b : Nat) : Prop :=
  match part with
  | .before => Precedes added a b ∨ (b ∉ added ∧
      (a ∈ added ∨ ∃ front back, frames.map (fun g => g.inserted) = front ++ a :: b :: back))
  | .after => b ∈ added ∧ (a ∉ added ∨ Precedes added b a)

variable {start st : DispatcherState} {root a b : Nat} {part : Part}
variable {frame : InsertFrame} {rest frames frames' : List InsertFrame} {added : List Nat}
variable {c c' : Activations}

theorem Ordered.schedule
    {x : Nat}
    (horder : Ordered part frames added a b)
    (hframes : frames.map (fun g => g.inserted) = frames'.map fun g => g.inserted)
    (htop : ∀ front back, frames.map (fun g => g.inserted) = front ++ a :: x :: back → False) :
    Ordered part frames' (added ++ [x]) a b := by
  cases part with
  | before =>
      rcases horder with hdone | ⟨hb, ha⟩
      · exact Or.inl hdone.snoc
      · by_cases hx : b = x
        · subst hx
          rcases ha with ha | ⟨front, back, hmap⟩
          · exact Or.inl (precedes_last ha)
          · exact absurd hmap (htop front back)
        · refine Or.inr ⟨?_, ha.imp (mem_append_left _) fun hstacked => hframes ▸ hstacked⟩
          simp only [mem_append, mem_singleton, hb, hx, or_self, not_false_eq_true]
  | after =>
      obtain ⟨hb, ha⟩ := horder
      refine ⟨mem_append_left _ hb, ?_⟩
      by_cases hx : a = x
      · subst hx
        exact Or.inr (precedes_last hb)
      · rcases ha with ha | hdone
        · refine Or.inl ?_
          simp only [mem_append, mem_singleton, ha, hx, or_self, not_false_eq_true]
        · exact Or.inr hdone.snoc

theorem Ordered.restack
    (horder : Ordered part frames added a b)
    (hkeep : ∀ front back, frames.map (fun g => g.inserted) = front ++ a :: b :: back →
      a ∈ added ∨ ∃ front back, frames'.map (fun g => g.inserted) = front ++ a :: b :: back) :
    Ordered part frames' added a b := by
  cases part with
  | before =>
      refine horder.imp_right fun ⟨hb, ha⟩ => ⟨hb, ?_⟩
      rcases ha with ha | ⟨front, back, hmap⟩
      · exact Or.inl ha
      · exact hkeep front back hmap
  | after => exact horder

/-- A turn keeps what is known of the call, and the orders on the way. -/
theorem Inserting.step
    (h : Inserting start root c.1 c.2 added)
    (hnot : ¬ Reenters c)
    (hstep : InsertStep c c') :
    ∃ added', Inserting start root c'.1 c'.2 added' ∧
      ∀ part a b, Ordered part c.2 added a b → Ordered part c'.2 added' a b := by
  cases hstep with
  | @schedule st frame rest hend hpart =>
      refine ⟨_, h.schedule hend hpart, fun part a b horder => horder.schedule rfl ?_⟩
      intro front back hmap
      have hnodup := h.active
      rw [hmap] at hnodup
      -- the driver that is put on the queue has the last activation
      cases front with
      | nil =>
          rw [map_cons, nil_append, List.cons.injEq] at hmap
          rw [nil_append, ← hmap.1] at hnodup
          exact (nodup_cons.mp hnodup).1 mem_cons_self
      | cons first front =>
          rw [map_cons, cons_append, List.cons.injEq] at hmap
          rw [← hmap.1, cons_append] at hnodup
          exact (nodup_cons.mp hnodup).1
            (mem_append_right _ (mem_cons_of_mem _ mem_cons_self))
  | @leave st frame rest hend hpart =>
      refine ⟨_, h.leave hend hpart, fun part a b horder => horder.restack ?_⟩
      intro front back hmap
      cases front with
      | nil =>
          rw [map_cons, nil_append, List.cons.injEq] at hmap
          exact Or.inl (hmap.1 ▸ h.placed frame mem_cons_self hpart)
      | cons first front =>
          rw [map_cons, cons_append, List.cons.injEq] at hmap
          exact Or.inr ⟨front, back, hmap.2⟩
  | @enter st frame rest hlink hrefers =>
      refine ⟨_, h.enter hlink hrefers hnot, fun part a b horder => horder.restack ?_⟩
      intro front back hmap
      exact Or.inr ⟨frame.link :: front, back, congrArg (frame.link :: ·) hmap⟩
  | @pass st frame rest hlink hother =>
      exact ⟨_, h.pass hother, fun part a b horder =>
        horder.restack fun front back hmap => Or.inr ⟨front, back, hmap⟩⟩

/-- The turns an activation has left, in a list of this length. -/
def remaining (n : Nat) (g : InsertFrame) : Nat :=
  match g.part with
  | .before => (n - g.link) + (n + 2)
  | .after => (n - g.link) + 1

theorem remaining_advance
    {n : Nat}
    (hlink : frame.link < n) :
    remaining n { frame with link := frame.link + 1 } + 1 = remaining n frame := by
  unfold remaining
  cases frame.part with
  | before | after =>
      dsimp only
      omega

/-- Dependent drivers without an activation. -/
def waiting (c : Activations) : Finset Nat :=
  (Finset.range c.1.discoveredList.length).filter fun i =>
    (c.1.discoveredList[i]?).any (fun entry => entry.dependent) = true ∧
      ∀ g ∈ c.2, g.inserted ≠ i

/-- It decreases with every turn. -/
def turnsLeft (c : Activations) : Nat :=
  (waiting c).card * (2 * c.1.discoveredList.length + 3) +
    (c.2.map (remaining c.1.discoveredList.length)).sum

theorem mem_waiting
    {i : Nat} :
    i ∈ waiting c ↔ (∃ entry, c.1.discoveredList[i]? = some entry ∧ entry.dependent = true) ∧
      ∀ g ∈ c.2, g.inserted ≠ i := by
  rw [waiting, Finset.mem_filter, Finset.mem_range, Option.any_eq_true]
  constructor
  case mp => exact fun h => ⟨h.2.1, h.2.2⟩
  case mpr =>
    intro h
    obtain ⟨entry, hentry, -⟩ := h.1
    exact ⟨(List.getElem?_eq_some_iff.mp hentry).1, h.1, h.2⟩

theorem turnsLeft_lt
    (h : Inserting start root c.1 c.2 added)
    (hnot : ¬ Reenters c)
    (hstep : InsertStep c c') :
    turnsLeft c' < turnsLeft c := by
  have hlength := hstep.length
  unfold turnsLeft
  rw [hlength]
  cases hstep with
  | @schedule st frame rest hend hpart =>
      have hsub : waiting (st.scheduleEntry frame.inserted,
          { frame with part := .after, link := 0 } :: rest) ⊆ waiting (st, frame :: rest) := by
        intro i hi
        obtain ⟨⟨entry, hentry, hdependent⟩, hactive⟩ := mem_waiting.mp hi
        have hne : frame.inserted ≠ i :=
          hactive { frame with part := .after, link := 0 } mem_cons_self
        refine mem_waiting.mpr ⟨⟨entry, ?_, hdependent⟩, forall_mem_cons.mpr
          ⟨hne, fun g hg => hactive g (mem_cons_of_mem _ hg)⟩⟩
        have hsame : (st.discoveredList.modify frame.inserted fun entry =>
            { entry with dependent := false, scheduled := true })[i]? = some entry := hentry
        simpa only [getElem?_modify, if_neg hne, Option.map_eq_map, Option.map_id_fun', id]
          using hsame
      have hcard := Nat.mul_le_mul_right (2 * st.discoveredList.length + 3)
        (Finset.card_le_card hsub)
      have hlink := List.getElem?_eq_none_iff.mp hend
      simp only [map_cons, sum_cons, remaining, hpart]
      omega
  | @leave st frame rest hend hpart =>
      have hsub : waiting (st, rest) ⊆ waiting (st, frame :: rest) := by
        intro i hi
        obtain ⟨⟨entry, hentry, hdependent⟩, hactive⟩ := mem_waiting.mp hi
        refine mem_waiting.mpr ⟨⟨entry, hentry, hdependent⟩,
          forall_mem_cons.mpr ⟨?_, hactive⟩⟩
        rintro rfl
        have hplaced := h.placed frame mem_cons_self hpart
        rw [h.drivers] at hentry
        obtain ⟨entry', -, rfl⟩ := Option.map_eq_some_iff.mp hentry
        rw [if_pos hplaced] at hdependent
        cases hdependent
      have hcard := Nat.mul_le_mul_right (2 * st.discoveredList.length + 3)
        (Finset.card_le_card hsub)
      simp only [map_cons, sum_cons, remaining, hpart]
      omega
  | @enter st frame rest hlink hrefers =>
      have hfresh := h.fresh hrefers hnot
      have hsub : waiting (st, ⟨frame.link, .before, 0⟩ ::
          { frame with link := frame.link + 1 } :: rest) ⊂ waiting (st, frame :: rest) := by
        refine Finset.ssubset_iff_subset_ne.mpr ⟨fun i hi => ?_, fun heq => ?_⟩
        · obtain ⟨hentry, hactive⟩ := mem_waiting.mp hi
          refine mem_waiting.mpr ⟨hentry, forall_mem_cons.mpr ⟨?_, fun g hg => ?_⟩⟩
          · exact hactive { frame with link := frame.link + 1 }
              (mem_cons_of_mem _ mem_cons_self)
          · exact hactive g (mem_cons_of_mem _ (mem_cons_of_mem _ hg))
        · obtain ⟨⟨entry, -, hentry, -, -, hdependent⟩, -⟩ := hrefers
          have hmem : frame.link ∈ waiting (st, frame :: rest) :=
            mem_waiting.mpr ⟨⟨entry, hentry, hdependent⟩, hfresh⟩
          rw [← heq] at hmem
          exact (mem_waiting.mp hmem).2 _ mem_cons_self rfl
      have hcard := Nat.mul_le_mul_right (2 * st.discoveredList.length + 3)
        (Nat.succ_le_of_lt (Finset.card_lt_card hsub))
      rw [Nat.succ_mul] at hcard
      have hturn := remaining_advance hlink
      have hnew : remaining st.discoveredList.length ⟨frame.link, .before, 0⟩ =
          st.discoveredList.length + (st.discoveredList.length + 2) := rfl
      simp only [map_cons, sum_cons, hnew]
      omega
  | @pass st frame rest hlink hother =>
      have heq : waiting (st, { frame with link := frame.link + 1 } :: rest) =
          waiting (st, frame :: rest) := by
        ext i
        simp only [mem_waiting, forall_mem_cons]
      rw [heq]
      have hturn := remaining_advance hlink
      simp only [map_cons, sum_cons]
      omega

theorem inserting_of_walksTo
    (hroot : root < start.discoveredList.length)
    (hnot : ∀ c, WalksTo insertNext (start, [⟨root, .before, 0⟩]) c → ¬ Reenters c)
    (hto : WalksTo insertNext (start, [⟨root, .before, 0⟩]) c) :
    ∃ added, Inserting start root c.1 c.2 added := by
  induction hto with
  | refl => exact ⟨[], Inserting.begin hroot⟩
  | tail hto hnext ih =>
      obtain ⟨added, h⟩ := ih
      obtain ⟨added', h', -⟩ := h.step (hnot _ hto) (insertStep_of_next hnext)
      exact ⟨added', h'⟩

theorem ordered_of_walksTo
    {c₀ : Activations}
    (hnot : ∀ c, WalksTo insertNext c₀ c → ¬ Reenters c)
    (h : Inserting start root c₀.1 c₀.2 added)
    (hto : WalksTo insertNext c₀ c) :
    ∃ added', Inserting start root c.1 c.2 added' ∧
      ∀ part a b, Ordered part c₀.2 added a b → Ordered part c.2 added' a b := by
  induction hto with
  | refl => exact ⟨added, h, fun _ _ _ horder => horder⟩
  | tail hto hnext ih =>
      obtain ⟨added₁, h₁, horder₁⟩ := ih
      obtain ⟨added₂, h₂, horder₂⟩ := h₁.step (hnot _ hto) (insertStep_of_next hnext)
      exact ⟨added₂, h₂, fun part a b horder => horder₂ part a b (horder₁ part a b horder)⟩

theorem Inserting.added_iff
    (h : Inserting start root st [] added) :
    b ∈ added ↔ b = root ∨ Attached start.discoveredList root b := by
  have hroot : root ∈ added := by
    rcases h.started with hroot | ⟨g, hg, -⟩
    · exact hroot
    · exact absurd hg not_mem_nil
  constructor
  case mp => exact fun hb => h.attached b (Or.inl hb)
  case mpr =>
    rintro (rfl | hchain)
    · exact hroot
    · have hstep : ∀ {x i : Nat}, x ∈ added →
          (∃ part, Refers start.discoveredList part i x) → i ∈ added := by
        rintro x i hx ⟨part, hrefers⟩
        rcases h.covered x part i (Or.inl ⟨hx, fun g hg => absurd hg not_mem_nil⟩) hrefers
          with hi | ⟨g, hg, -⟩
        · exact hi
        · exact absurd hg not_mem_nil
      induction hchain with
      | single hrefers => exact hstep hroot hrefers
      | tail _ hrefers ih => exact hstep ih hrefers

theorem isChain_below
    {R : InsertFrame → InsertFrame → Prop} {outer : InsertFrame}
    (h : frames.IsChain R)
    (hmem : outer ∈ frames) :
    frames.getLast? = some outer ∨ ∃ parent ∈ frames, R outer parent := by
  induction frames with
  | nil => exact absurd hmem not_mem_nil
  | cons first frames ih =>
      cases frames with
      | nil =>
          rw [mem_singleton.mp hmem]
          exact Or.inl rfl
      | cons second rest =>
          obtain ⟨hpair, hrest⟩ := isChain_cons_cons.mp h
          rw [getLast?_cons_cons]
          rcases mem_cons.mp hmem with rfl | hmem
          · exact Or.inr ⟨second, mem_cons_of_mem _ mem_cons_self, hpair⟩
          · rcases ih hrest hmem with hlast | ⟨parent, hparent, hpair'⟩
            · exact Or.inl hlast
            · exact Or.inr ⟨parent, mem_cons_of_mem _ hparent, hpair'⟩

/-- Only drivers that share a file name with another one lead back. -/
theorem not_reenters_of_distinctNames
    {entry : EfiCoreDriverEntry}
    (hroot : start.discoveredList[root]? = some entry)
    (hbefore : entry.before = false) (hafter : entry.after = false)
    (hnames : (start.discoveredList.map EfiCoreDriverEntry.fileName).Nodup) :
    ∀ c, WalksTo insertNext (start, [⟨root, .before, 0⟩]) c → ¬ Reenters c := by
  have hstate : ∀ c added, Inserting start root c.1 c.2 added → ¬ Reenters c := by
    rintro ⟨st, frames⟩ added h ⟨frame, rest, hframes, hrefers, outer, houter, hinserted, -⟩
    obtain rfl : frames = frame :: rest := hframes
    obtain ⟨⟨⟨e, e', he, he', hdepends, -⟩, -⟩, -⟩ := h.refers_iff.mp hrefers
    have hname : e'.fileName = e.beforeAfterGuid :=
      eq_of_beq (Bool.and_eq_true_iff.mp hdepends).2
    rcases isChain_below h.nested.tail houter with hlast | ⟨parent, hparent, hnested, -⟩
    · -- the first activation is for a driver without a reference
      have hbottom : outer.inserted = root := by
        obtain ⟨parent, rest, rfl⟩ := exists_cons_of_ne_nil (ne_nil_of_mem houter)
        exact h.bottom outer (getLast?_cons_cons.trans hlast)
      rw [← hinserted, hbottom, hroot] at he
      obtain rfl := Option.some_inj.mp he
      cases hpart : frame.part with
      | before =>
          rw [hpart, dependsOn, hbefore, Bool.false_and] at hdepends
          cases hdepends
      | after =>
          rw [hpart, dependsOn, hafter, Bool.false_and] at hdepends
          cases hdepends
    · obtain ⟨⟨e₁, p, he₁, hp, hdepends', -⟩, -⟩ := hnested
      rw [hinserted, he] at he₁
      obtain rfl := Option.some_inj.mp he₁
      have hname' : p.fileName = e.beforeAfterGuid :=
        eq_of_beq (Bool.and_eq_true_iff.mp hdepends').2
      have hlt := (List.getElem?_eq_some_iff.mp hp).1
      refine h.ne_of_rest hparent ((List.getElem?_inj (by rwa [length_map]) hnames).mp ?_)
      rw [getElem?_map, hp, getElem?_map, he', Option.map_some, Option.map_some, hname', hname]
  have hlt := (List.getElem?_eq_some_iff.mp hroot).1
  intro c hto
  have h : ∃ added, Inserting start root c.1 c.2 added := by
    induction hto with
    | refl => exact ⟨[], Inserting.begin hlt⟩
    | tail _ hnext ih =>
        obtain ⟨added, h⟩ := ih
        obtain ⟨added', h', -⟩ := h.step (hstate _ _ h) (insertStep_of_next hnext)
        exact ⟨added', h'⟩
  obtain ⟨added, h⟩ := h
  exact hstate c added h

/-- The second driver comes BEFORE the first one. -/
theorem not_reenters_of_distinctNames_pair :
    ¬ ∃ c, WalksTo insertNext ({ DispatcherState.initial with
      discoveredList := [sampleEntry, { sampleEntry with
        fileName := otherGuid, before := true, beforeAfterGuid := zeroGuid }] },
      [⟨0, .before, 0⟩]) c ∧ Reenters c := by
  rintro ⟨c, hto, hc⟩
  exact not_reenters_of_distinctNames rfl rfl rfl (by decide) c hto hc

/-- Two drivers of one name in different volumes, and a driver that comes BEFORE that name and
BEFORE which the second of them comes. -/
def crossedDrivers : DispatcherState :=
  { DispatcherState.initial with
    discoveredList :=
      [sampleEntry,
        { sampleEntry with fileName := otherGuid, before := true, beforeAfterGuid := zeroGuid },
        { sampleEntry with before := true, beforeAfterGuid := otherGuid }] }

end Walk

end Dispatcher
end Udk
