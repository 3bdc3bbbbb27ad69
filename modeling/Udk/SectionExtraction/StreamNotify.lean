import Udk.SectionExtraction.StreamInvariant

/-!
# Protocols that become usable

Recording a GUID or installing a protocol changes what the parsed sections expand to.  The events
registered for the protocol bring the database up to date, for sections that were left unexpanded
and whose attributes the notification reads where they are.
-/

namespace Udk
namespace SectionExtraction

open List

/-- Each parsed section with the GUID satisfies `P`. -/
def ParsedWith (s : State) (guid : Guid) (P : Bytes → Nat → Prop) : Prop :=
  ∀ stream ∈ s.streams, ∀ child ∈ stream.children,
    child.encapsulationGuid = some guid → P stream.streamBuffer child.offsetInStream

instance (s : State) (guid : Guid) (P : Bytes → Nat → Prop)
    [∀ buffer offset, Decidable (P buffer offset)] : Decidable (ParsedWith s guid P) :=
  inferInstanceAs (Decidable (∀ stream ∈ s.streams, ∀ child ∈ stream.children, _ → _))

theorem ParsedWith.child
    {s : State} {guid : Guid} {P : Bytes → Nat → Prop} {handle i : Nat} {stream : StreamNode}
    {child : ChildNode}
    (h : ParsedWith s guid P)
    (hstream : s.streams[handle]? = some stream) (hchild : stream.children[i]? = some child)
    (hguid : child.encapsulationGuid = some guid) :
    P stream.streamBuffer child.offsetInStream :=
  h stream (mem_of_getElem? hstream) child (mem_of_getElem? hchild) hguid

/-- Both header layouts give the same `EFI_GUIDED_SECTION_AUTH_STATUS_VALID`. -/
def AttributesAgree (buffer : Bytes) (offset : Nat) : Prop :=
  hasBit (standardAttributes buffer offset) authStatusValidBit
    = hasBit (guidedAttributes buffer offset) authStatusValidBit

instance (buffer : Bytes) (offset : Nat) : Decidable (AttributesAgree buffer offset) :=
  inferInstanceAs (Decidable (_ = _))

section Usable

variable {plat : Platform} {s : State} {todo : List RpnEventContext}

theorem expansion_congr
    {usable usable' : Guid → Bool} {buffer : Bytes} {offset status : Nat}
    (h : sectionType buffer offset = sectionGuidDefined →
      usable' (sectionDefinitionGuid buffer offset)
        = usable (sectionDefinitionGuid buffer offset)) :
    expansion plat usable' buffer offset status = expansion plat usable buffer offset status := by
  unfold expansion
  split
  · rfl
  · split
    · rename_i htype
      rw [h htype]
    · rfl

theorem StreamOk.guid
    {handle index : Nat} {stream : StreamNode} {child : ChildNode}
    (h : StreamOk plat s todo handle stream)
    (hchild : stream.children[index]? = some child)
    (htype : sectionType stream.streamBuffer child.offsetInStream = sectionGuidDefined) :
    child.encapsulationGuid
      = some (sectionDefinitionGuid stream.streamBuffer child.offsetInStream) := by
  rw [h.shape index child hchild]
  exact if_pos htype

theorem StreamOk.guided
    {handle index : Nat} {stream : StreamNode} {child : ChildNode} {guid : Guid}
    (h : StreamOk plat s todo handle stream)
    (hchild : stream.children[index]? = some child)
    (hguid : child.encapsulationGuid = some guid) :
    child.type = sectionGuidDefined ∧
      sectionType stream.streamBuffer child.offsetInStream = sectionGuidDefined ∧
      guid = sectionDefinitionGuid stream.streamBuffer child.offsetInStream := by
  have hshape := h.shape index child hchild
  by_cases htype : sectionType stream.streamBuffer child.offsetInStream = sectionGuidDefined
  · have hsame := h.guid hchild htype
    rw [hguid, Option.some.injEq] at hsame
    refine ⟨?_, htype, hsame⟩
    rw [hshape]
    exact htype
  · rw [hshape] at hguid
    have hnone : (none : Option Guid) = some guid := (if_neg htype).symm.trans hguid
    exact absurd hnone (by simp)

/-- The invariant stays if what is usable stays the same for each parsed section. -/
theorem Inv.change
    {s' : State}
    (h : Inv plat s todo)
    (hstreams : s'.streams = s.streams) (hevents : s'.events = s.events)
    (hsame : ∀ guid, ¬ ParsedWith s guid (fun _ _ => False) →
      verifyGuidedSectionGuid s' guid = verifyGuidedSectionGuid s guid) :
    Inv plat s' todo := by
  constructor
  case streams =>
    intro handle stream hstream
    rw [hstreams] at hstream
    have hok := h.streams handle stream hstream
    constructor
    case shape => exact hok.shape
    case room => exact hok.room
    case first => exact hok.first
    case next => exact hok.next
    case linked =>
      intro i child hchild
      have hexp : expansionOf plat s' stream child = expansionOf plat s stream child := by
        refine expansion_congr fun htype => hsame _ fun hno => ?_
        exact hno.child hstream hchild (hok.guid hchild htype)
      rw [hexp, hstreams]
      exact hok.linked i child hchild
    case waiting =>
      rw [hevents]
      exact hok.waiting
  case events =>
    intro c hc
    rw [hevents] at hc
    rw [hstreams]
    exact h.events c hc
  case waiting =>
    intro c hc husable
    rw [hevents] at hc
    obtain ⟨stream, child, hstream, hchild, hguid⟩ := h.events c hc
    rw [hsame c.guid fun hno => hno.child hstream hchild hguid] at husable
    exact h.waiting c hc husable

theorem Inv.recordGuid
    (h : Inv plat s []) {guid : Guid}
    (hreg : s.protocols.contains guid = true → s.recorded.contains guid = false →
      ParsedWith s guid fun _ _ => False) :
    Inv plat (recordGuid s guid) [] := by
  refine h.change rfl rfl ?_
  intro g hparsed
  rw [verifyGuidedSectionGuid, verifyGuidedSectionGuid, SectionExtraction.recordGuid]
  dsimp only
  rw [contains_cons]
  by_cases hg : g = guid
  · subst hg
    cases hprotocol : s.protocols.contains g with
    | false => rw [Bool.and_false, Bool.and_false]
    | true =>
        cases hrecorded : s.recorded.contains g with
        | false => exact absurd (hreg hprotocol hrecorded) hparsed
        | true => rw [Bool.or_true]
  · rw [beq_eq_false_iff_ne.mpr hg, Bool.false_or]

end Usable

section Notify

variable {plat : Platform} {s : State} {rest : List RpnEventContext} {c : RpnEventContext}
  {stream : StreamNode} {child : ChildNode} {todo : List RpnEventContext}

theorem notifyGuidedExtraction_eq
    (hstream : s.streams[c.parentStream]? = some stream)
    (hchild : stream.children[c.childNode]? = some child)
    (hguid : child.encapsulationGuid = some c.guid)
    (husable : verifyGuidedSectionGuid s c.guid = true) :
    notifyGuidedExtraction plat s c =
      closeEvent (setEncapsulated (openSectionStreamEx s
        (plat.extractSection c.guid (sectionBytes stream.streamBuffer child.offsetInStream)).1
        (notifiedStatus stream.streamBuffer child.offsetInStream
          (plat.extractSection c.guid (sectionBytes stream.streamBuffer child.offsetInStream)).2
          stream.authenticationStatus)) c s.streams.length) c := by
  unfold notifyGuidedExtraction
  rw [hstream]
  dsimp only
  rw [hchild]
  dsimp only
  rw [hguid]
  dsimp only
  rw [if_pos husable]

theorem notifyGuidedExtraction_unusable
    (hc : EventOk s.streams c)
    (husable : verifyGuidedSectionGuid s c.guid = false) :
    notifyGuidedExtraction plat s c = s := by
  obtain ⟨stream, child, hstream, hchild, hguid⟩ := hc
  unfold notifyGuidedExtraction
  rw [hstream]
  dsimp only
  rw [hchild]
  dsimp only
  rw [hguid]
  dsimp only
  rw [if_neg (by rw [husable]; decide)]

theorem growsTo_setEncapsulated
    (s : State) (c : RpnEventContext) (k : Nat) :
    GrowsTo s.streams (setEncapsulated s c k).streams := by
  refine growsTo_modify _ _ fun stream => ⟨rfl, rfl, fun i child hchild => ?_⟩
  by_cases hi : c.childNode = i
  · subst hi
    exact ⟨{ child with encapsulatedStreamHandle := some k },
      by rw [getElem?_modify_eq, hchild]; rfl, rfl⟩
  · exact ⟨child, by rw [getElem?_modify_ne _ _ hi]; exact hchild, rfl⟩

theorem children_modify
    {children : List ChildNode} {place i k : Nat}
    (h : (children.modify place
      fun child => { child with encapsulatedStreamHandle := some k })[i]? = some child) :
    ∃ old, children[i]? = some old ∧ child.offsetInStream = old.offsetInStream ∧
      child.size = old.size ∧
      child = { old with encapsulatedStreamHandle := child.encapsulatedStreamHandle } ∧
      (i = place → child.encapsulatedStreamHandle = some k) ∧ (i ≠ place → child = old) := by
  by_cases hi : place = i
  · subst hi
    rw [getElem?_modify_eq] at h
    cases hold : children[place]? with
    | none =>
        rw [hold] at h
        exact absurd h (by simp)
    | some old =>
        rw [hold] at h
        have hchild := (Option.some.inj h).symm
        subst hchild
        exact ⟨old, rfl, rfl, rfl, rfl, fun _ => rfl, fun hne => absurd rfl hne⟩
  · rw [getElem?_modify_ne _ _ hi] at h
    exact ⟨child, h, rfl, rfl, rfl, fun heq => absurd heq.symm hi, fun _ => rfl⟩

/-- The stream with the notified child is in order afterwards. -/
theorem StreamOk.notified
    {k : Nat}
    (h : StreamOk plat s (c :: rest) c.parentStream stream)
    (hchild : stream.children[c.childNode]? = some child)
    (hlinked : Linked s.streams c.parentStream
      { child with encapsulatedStreamHandle := some k } (expansionOf plat s stream child)) :
    StreamOk plat (closeEvent (setEncapsulated s c k) c) rest c.parentStream
      { stream with children := stream.children.modify c.childNode fun child =>
          { child with encapsulatedStreamHandle := some k } } := by
  have hgrow := growsTo_setEncapsulated s c k
  constructor
  case shape =>
    intro i child' hchild'
    obtain ⟨old, hold, _, -, hsame, -, -⟩ := children_modify hchild'
    have hshape := h.shape i old hold
    rw [hsame]
    dsimp only
    rw [hshape]
    rfl
  case room =>
    intro i child' hchild'
    obtain ⟨old, hold, hoffset, -⟩ := children_modify hchild'
    rw [hoffset]
    exact h.room i old hold
  case first =>
    intro child' hchild'
    obtain ⟨old, hold, hoffset, -⟩ := children_modify hchild'
    rw [hoffset]
    exact h.first old hold
  case next =>
    intro i child' child'' hchild' hchild''
    obtain ⟨old, hold, hoffset, hsize, -⟩ := children_modify hchild'
    obtain ⟨old', hold', hoffset', -⟩ := children_modify hchild''
    rw [hoffset', h.next i old old' hold hold', SectionExtraction.nextChildOffset,
      SectionExtraction.nextChildOffset, hoffset, hsize]
  case linked =>
    intro i child' hchild'
    obtain ⟨old, hold, hoffset, -, hsame, hplace, hother⟩ := children_modify hchild'
    by_cases hi : i = c.childNode
    · subst hi
      rw [hchild, Option.some.injEq] at hold
      subst hold
      left
      rw [hsame, hplace rfl]
      exact hlinked.grow hgrow
    · rw [hother hi]
      refine (h.linked i old hold).imp (Linked.grow · hgrow) ?_
      rintro ⟨hnone, c', hc', hparent, hplace'⟩
      rcases mem_cons.mp hc' with rfl | hrest
      · exact absurd hplace'.symm hi
      · exact ⟨hnone, c', hrest, hparent, hplace'⟩
  case waiting =>
    intro i child' hchild' htype hnone
    obtain ⟨old, hold, -, -, -, hplace, hother⟩ := children_modify hchild'
    have hi : i ≠ c.childNode := by
      intro heq
      rw [hplace heq] at hnone
      exact absurd hnone (by simp)
    rw [hother hi] at htype hnone
    obtain ⟨c', hc', hparent, hplace'⟩ := h.waiting i old hold htype hnone
    refine ⟨c', mem_filter.mpr ⟨hc', ?_⟩, hparent, hplace'⟩
    rw [decide_eq_true_iff]
    rintro rfl
    exact hi hplace'.symm

theorem StreamOk.unnotified
    {handle k : Nat}
    (h : StreamOk plat s (c :: rest) handle stream) (hne : c.parentStream ≠ handle) :
    StreamOk plat (closeEvent (setEncapsulated s c k) c) rest handle stream := by
  have hgrow := growsTo_setEncapsulated s c k
  constructor
  case shape => exact h.shape
  case room => exact h.room
  case first => exact h.first
  case next => exact h.next
  case linked =>
    intro i child hchild
    refine (h.linked i child hchild).imp (Linked.grow · hgrow) ?_
    rintro ⟨hnone, c', hc', hparent, hplace⟩
    rcases mem_cons.mp hc' with rfl | hrest
    · exact absurd hparent hne
    · exact ⟨hnone, c', hrest, hparent, hplace⟩
  case waiting =>
    intro i child hchild htype hnone
    obtain ⟨c', hc', hparent, hplace⟩ := h.waiting i child hchild htype hnone
    refine ⟨c', mem_filter.mpr ⟨hc', ?_⟩, hparent, hplace⟩
    rw [decide_eq_true_iff]
    rintro rfl
    exact hne hparent

/-- A notification serves its event. -/
theorem Inv.notifyGuidedExtraction
    (h : Inv plat s (c :: rest)) (hc : EventOk s.streams c)
    (husable : verifyGuidedSectionGuid s c.guid = true)
    (hagree : ParsedWith s c.guid AttributesAgree) :
    Inv plat (notifyGuidedExtraction plat s c) rest := by
  obtain ⟨stream, child, hstream, hchild, hguid⟩ := hc
  have hok := h.streams _ stream hstream
  obtain ⟨-, htype, hsame⟩ := hok.guided hchild hguid
  have hlt := (List.getElem?_eq_some_iff.mp hstream).1
  rw [notifyGuidedExtraction_eq hstream hchild hguid husable]
  generalize hx : plat.extractSection c.guid
    (sectionBytes stream.streamBuffer child.offsetInStream) = x
  generalize hstatus : notifiedStatus stream.streamBuffer child.offsetInStream x.2
    stream.authenticationStatus = status
  have hexp : expansionOf plat s stream child = some (x.1, status) := by
    have hbit : AttributesAgree stream.streamBuffer child.offsetInStream :=
      hagree.child hstream hchild hguid
    rw [hsame] at husable hx
    have hcomp : sectionType stream.streamBuffer child.offsetInStream ≠ sectionCompression := by
      rw [htype]
      decide
    rw [expansionOf, expansion, if_neg hcomp, if_pos htype, if_pos husable, hx, ← hstatus]
    dsimp only
    rw [notifiedStatus, extractedStatus, extractedStatus, hbit]
  have hopen := h.openSectionStreamEx x.1 status
  have hget : (SectionExtraction.openSectionStreamEx s x.1 status).streams[c.parentStream]?
      = some stream :=
    (getElem?_append_left hlt).trans hstream
  have hlinked : Linked (SectionExtraction.openSectionStreamEx s x.1 status).streams
      c.parentStream { child with encapsulatedStreamHandle := some s.streams.length }
      (expansionOf plat (SectionExtraction.openSectionStreamEx s x.1 status) stream child) := by
    have hexp' : expansionOf plat (SectionExtraction.openSectionStreamEx s x.1 status) stream child
      = some (x.1, status) := hexp
    rw [hexp']
    exact ⟨s.streams.length, _, rfl, hlt, getElem?_concat_length, rfl, rfl⟩
  constructor
  case streams =>
    intro handle stream' hstream'
    by_cases hne : c.parentStream = handle
    · subst hne
      rw [closeEvent, setEncapsulated, getElem?_modify_eq, hget] at hstream'
      have hnew := (Option.some.inj hstream').symm
      subst hnew
      exact (hopen.streams _ stream hget).notified hchild hlinked
    · rw [closeEvent, setEncapsulated, getElem?_modify_ne _ _ hne] at hstream'
      exact (hopen.streams handle stream' hstream').unnotified hne
  case events =>
    intro c' hc'
    exact (hopen.events c' (mem_filter.mp hc').1).grow (growsTo_setEncapsulated _ _ _)
  case waiting =>
    intro c' hc' husable'
    obtain ⟨hmem, hne⟩ := mem_filter.mp hc'
    rw [decide_eq_true_iff] at hne
    exact (mem_cons.mp (h.waiting c' hmem husable')).resolve_left hne

/-- A notification leaves the parsed sections as they are. -/
theorem ParsedWith.notify
    {guid : Guid} {P : Bytes → Nat → Prop}
    (h : ParsedWith s guid P) (c : RpnEventContext) :
    ParsedWith (notifyGuidedExtraction plat s c) guid P := by
  have hopen : ∀ inner status, ParsedWith (openSectionStreamEx s inner status) guid P := by
    intro inner status stream hstream child hchild hguid
    rcases mem_append.mp hstream with hold | hnew
    · exact h stream hold child hchild hguid
    · rw [mem_singleton] at hnew
      rw [hnew] at hchild
      exact absurd hchild (by simp)
  have hset : ∀ s' k, ParsedWith s' guid P →
      ParsedWith (closeEvent (setEncapsulated s' c k) c) guid P := by
    intro s' k h' stream hstream child hchild hguid
    obtain ⟨handle, hhandle⟩ := mem_iff_getElem?.mp hstream
    obtain ⟨i, hi⟩ := mem_iff_getElem?.mp hchild
    by_cases hne : c.parentStream = handle
    · subst hne
      rw [closeEvent, setEncapsulated, getElem?_modify_eq, Option.map_eq_map,
        Option.map_eq_some_iff] at hhandle
      obtain ⟨old, hold, rfl⟩ := hhandle
      obtain ⟨oldChild, holdChild, hoffset, -, hsame, -⟩ := children_modify hi
      rw [hsame] at hguid
      rw [hoffset]
      have hat := h'.child hold holdChild hguid
      exact hat
    · rw [closeEvent, setEncapsulated, getElem?_modify_ne _ _ hne] at hhandle
      exact h'.child hhandle hi hguid
  unfold notifyGuidedExtraction
  split
  · exact h
  · split
    · exact h
    · split
      · exact h
      · split
        · exact hset _ _ (hopen _ _)
        · exact h

theorem notify_usable
    (c : RpnEventContext) :
    verifyGuidedSectionGuid (notifyGuidedExtraction plat s c) = verifyGuidedSectionGuid s := by
  unfold notifyGuidedExtraction
  split
  · rfl
  · split
    · rfl
    · split
      · rfl
      · split
        · rfl
        · rfl

theorem notify_grows
    (c : RpnEventContext) :
    GrowsTo s.streams (notifyGuidedExtraction plat s c).streams := by
  unfold notifyGuidedExtraction
  split
  · exact GrowsTo.refl _
  · split
    · exact GrowsTo.refl _
    · split
      · exact GrowsTo.refl _
      · split
        · exact (growsTo_append s.streams _).trans
            (growsTo_setEncapsulated (openSectionStreamEx s _ _) c _)
        · exact GrowsTo.refl _

theorem Inv.notifyAll
    {guid : Guid}
    (h : Inv plat s todo)
    (hevents : ∀ c ∈ todo, EventOk s.streams c ∧ c.guid = guid)
    (husable : verifyGuidedSectionGuid s guid = true)
    (hagree : ParsedWith s guid AttributesAgree) :
    Inv plat (todo.foldl (SectionExtraction.notifyGuidedExtraction plat) s) [] := by
  induction todo generalizing s with
  | nil => exact h
  | cons c rest ih =>
      obtain ⟨hc, hguid⟩ := hevents c (mem_cons_self ..)
      refine ih (h.notifyGuidedExtraction hc ?_ ?_) ?_ ?_ (hagree.notify c)
      · rw [hguid]
        exact husable
      · rw [hguid]
        exact hagree
      · intro c' hc'
        obtain ⟨hok, hguid'⟩ := hevents c' (mem_cons_of_mem _ hc')
        exact ⟨hok.grow (notify_grows c), hguid'⟩
      · rw [notify_usable]
        exact husable

theorem notifyAll_unusable
    (h : ∀ c ∈ todo, EventOk s.streams c ∧ verifyGuidedSectionGuid s c.guid = false) :
    todo.foldl (notifyGuidedExtraction plat) s = s := by
  induction todo with
  | nil => rfl
  | cons c rest ih =>
      obtain ⟨hc, hunusable⟩ := h c (mem_cons_self ..)
      rw [foldl_cons, notifyGuidedExtraction_unusable hc hunusable]
      exact ih fun c' hc' => h c' (mem_cons_of_mem _ hc')

end Notify

section Install

variable {plat : Platform} {s : State}

theorem usable_install
    (s : State) (guid g : Guid) :
    verifyGuidedSectionGuid { s with protocols := guid :: s.protocols } g =
      (verifyGuidedSectionGuid s g || (s.recorded.contains g && g == guid)) := by
  rw [verifyGuidedSectionGuid, verifyGuidedSectionGuid]
  dsimp only
  rw [contains_cons, Bool.and_or_distrib_left, Bool.or_comm]

/-- A protocol that becomes usable leaves its events to be served. -/
theorem Inv.newProtocol
    (h : Inv plat s []) {guid : Guid}
    (hprotocol : s.protocols.contains guid = false)
    (hparsed : ParsedWith s guid fun buffer offset =>
      hasBit (guidedAttributes buffer offset) processingRequiredBit = true) :
    Inv plat { s with protocols := guid :: s.protocols }
      (s.events.filter (·.guid = guid)) := by
  have hold : verifyGuidedSectionGuid s guid = false := by
    rw [verifyGuidedSectionGuid, hprotocol, Bool.and_false]
  have hother : ∀ g, g ≠ guid →
      verifyGuidedSectionGuid { s with protocols := guid :: s.protocols } g
        = verifyGuidedSectionGuid s g := by
    intro g hg
    rw [usable_install, beq_eq_false_iff_ne.mpr hg, Bool.and_false, Bool.or_false]
  constructor
  case streams =>
    intro handle stream hstream
    have hok := h.streams handle stream hstream
    constructor
    case shape => exact hok.shape
    case room => exact hok.room
    case first => exact hok.first
    case next => exact hok.next
    case waiting => exact hok.waiting
    case linked =>
      intro i child hchild
      have hlinked := (hok.linked i child hchild).resolve_right
        (fun hright => by obtain ⟨-, c, hc, -⟩ := hright; exact absurd hc (by simp))
      by_cases hguid : child.encapsulationGuid = some guid
      · right
        obtain ⟨hchildType, htype, hsame⟩ := hok.guided hchild hguid
        have hrequired := hparsed.child hstream hchild hguid
        have hcomp : sectionType stream.streamBuffer child.offsetInStream
            ≠ sectionCompression := by
          rw [htype]
          decide
        have hexp : expansionOf plat s stream child = none := by
          rw [expansionOf, expansion, if_neg hcomp, if_pos htype, ← hsame, hold,
            if_neg (by decide), if_pos hrequired]
        rw [hexp] at hlinked
        obtain ⟨c, hc, hparent, hplace⟩ := hok.waiting i child hchild hchildType hlinked
        obtain ⟨stream', child', hstream', hchild', hguid'⟩ := h.events c hc
        rw [hparent, hstream, Option.some.injEq] at hstream'
        subst hstream'
        rw [hplace, hchild, Option.some.injEq] at hchild'
        subst hchild'
        rw [hguid, Option.some.injEq] at hguid'
        exact ⟨hlinked, c, mem_filter.mpr ⟨hc, by simp [hguid']⟩, hparent, hplace⟩
      · left
        have hexp : expansionOf plat { s with protocols := guid :: s.protocols } stream child
            = expansionOf plat s stream child := by
          refine expansion_congr fun htype => hother _ fun heq => ?_
          exact hguid (by rw [hok.guid hchild htype, heq])
        rw [hexp]
        exact hlinked
  case events => exact h.events
  case waiting =>
    intro c hc husable
    by_cases hg : c.guid = guid
    · exact mem_filter.mpr ⟨hc, by simp [hg]⟩
    · rw [hother c.guid hg] at husable
      exact absurd (h.waiting c hc husable) (by simp)

/-- Installing a protocol keeps the invariant. -/
theorem Inv.installProtocol
    (h : Inv plat s []) {guid : Guid}
    (hreg : s.recorded.contains guid = true → s.protocols.contains guid = false →
      ParsedWith s guid fun buffer offset =>
        hasBit (guidedAttributes buffer offset) processingRequiredBit = true ∧
          AttributesAgree buffer offset) :
    Inv plat (installProtocol plat s guid) [] := by
  unfold SectionExtraction.installProtocol
  have hevents : ∀ c ∈ s.events.filter (·.guid = guid), EventOk s.streams c ∧ c.guid = guid := by
    intro c hc
    obtain ⟨hmem, hguid⟩ := mem_filter.mp hc
    exact ⟨h.events c hmem, of_decide_eq_true hguid⟩
  by_cases hnew : s.recorded.contains guid = true ∧ s.protocols.contains guid = false
  · obtain ⟨hrecorded, hprotocol⟩ := hnew
    have hparsed := hreg hrecorded hprotocol
    have hinv := h.newProtocol hprotocol
      fun stream hs child hc hg => (hparsed stream hs child hc hg).1
    refine hinv.notifyAll hevents ?_
      fun stream hs child hc hg => (hparsed stream hs child hc hg).2
    rw [usable_install, hrecorded, beq_self_eq_true, Bool.and_self, Bool.or_true]
  · -- Nothing becomes usable: either the GUID is not recorded, or its events have been served.
    have hsame : ∀ g, verifyGuidedSectionGuid { s with protocols := guid :: s.protocols } g
        = verifyGuidedSectionGuid s g := by
      intro g
      rw [usable_install]
      by_cases hg : g = guid
      · subst hg
        rw [verifyGuidedSectionGuid]
        cases hrecorded : s.recorded.contains g with
        | false => rfl
        | true =>
            cases hprotocol : s.protocols.contains g with
            | false => exact absurd ⟨hrecorded, hprotocol⟩ hnew
            | true => rfl
      · rw [beq_eq_false_iff_ne.mpr hg, Bool.and_false, Bool.or_false]
    have hinv : Inv plat { s with protocols := guid :: s.protocols } [] :=
      h.change rfl rfl fun g _ => hsame g
    rw [notifyAll_unusable]
    · exact hinv
    · intro c hc
      refine ⟨(hevents c hc).1, ?_⟩
      cases husable : verifyGuidedSectionGuid { s with protocols := guid :: s.protocols }
          c.guid with
      | false => rfl
      | true => exact absurd (hinv.waiting c (mem_filter.mp hc).1 husable) (by simp)

end Install

end SectionExtraction
end Udk
