import Udk.SectionExtraction.SectionTree

/-!
# The invariant of the stream database

Each stream has parsed a run of its sections from the start on, and each child that can be
expanded has a stream behind it with the content and the status of its expansion.  A stream behind
a child has a greater handle than the stream of the child, so a search leaves the streams before
the one it starts in alone.  While a protocol is installed, some events are still to be served.
-/

namespace Udk
namespace SectionExtraction

open List

/-- A stream has kept its bytes, its status and its children. -/
structure StreamNode.GrowsTo (stream stream' : StreamNode) : Prop where
  buffer : stream'.streamBuffer = stream.streamBuffer
  status : stream'.authenticationStatus = stream.authenticationStatus
  child : ∀ (i : Nat) (child : ChildNode), stream.children[i]? = some child →
    ∃ child' : ChildNode, stream'.children[i]? = some child' ∧
      child'.encapsulationGuid = child.encapsulationGuid

/-- What stands in a database is still there. -/
def GrowsTo (streams streams' : List StreamNode) : Prop :=
  ∀ (k : Nat) (stream : StreamNode), streams[k]? = some stream →
    ∃ stream' : StreamNode, streams'[k]? = some stream' ∧ stream.GrowsTo stream'

theorem StreamNode.GrowsTo.refl
    (stream : StreamNode) :
    stream.GrowsTo stream :=
  ⟨rfl, rfl, fun _ child h => ⟨child, h, rfl⟩⟩

theorem StreamNode.GrowsTo.trans
    {a b c : StreamNode}
    (h : a.GrowsTo b) (h' : b.GrowsTo c) :
    a.GrowsTo c := by
  refine ⟨h'.buffer.trans h.buffer, h'.status.trans h.status, ?_⟩
  intro i child hchild
  obtain ⟨child', hchild', hguid⟩ := h.child i child hchild
  obtain ⟨child'', hchild'', hguid'⟩ := h'.child i child' hchild'
  exact ⟨child'', hchild'', hguid'.trans hguid⟩

theorem GrowsTo.refl
    (streams : List StreamNode) :
    GrowsTo streams streams :=
  fun _ stream h => ⟨stream, h, StreamNode.GrowsTo.refl stream⟩

theorem GrowsTo.trans
    {a b c : List StreamNode}
    (h : GrowsTo a b) (h' : GrowsTo b c) :
    GrowsTo a c := by
  intro k stream hstream
  obtain ⟨stream', hstream', hgrow⟩ := h k stream hstream
  obtain ⟨stream'', hstream'', hgrow'⟩ := h' k stream' hstream'
  exact ⟨stream'', hstream'', hgrow.trans hgrow'⟩

theorem growsTo_append
    (streams more : List StreamNode) :
    GrowsTo streams (streams ++ more) := by
  intro k stream hstream
  have hlt := (List.getElem?_eq_some_iff.mp hstream).1
  exact ⟨stream, by rw [getElem?_append_left hlt]; exact hstream,
    StreamNode.GrowsTo.refl stream⟩

theorem growsTo_modify
    (streams : List StreamNode) (handle : Nat) {f : StreamNode → StreamNode}
    (hf : ∀ stream : StreamNode, stream.GrowsTo (f stream)) :
    GrowsTo streams (streams.modify handle f) := by
  intro k stream hstream
  by_cases hk : handle = k
  · subst hk
    exact ⟨f stream, by rw [getElem?_modify_eq, hstream]; rfl, hf stream⟩
  · exact ⟨stream, by rw [getElem?_modify_ne _ _ hk]; exact hstream,
      StreamNode.GrowsTo.refl stream⟩

theorem growsTo_addNode
    (node : ChildNode) (stream : StreamNode) :
    stream.GrowsTo { stream with children := stream.children ++ [node] } := by
  refine ⟨rfl, rfl, fun i child hchild => ⟨child, ?_, rfl⟩⟩
  have hlt := (List.getElem?_eq_some_iff.mp hchild).1
  exact (getElem?_append_left hlt).trans hchild

/-- What a search in the stream `handle` keeps. -/
structure Kept (s s' : State) (handle : Nat) : Prop where
  recorded : s'.recorded = s.recorded
  protocols : s'.protocols = s.protocols
  below : ∀ k < handle, s'.streams[k]? = s.streams[k]?
  grows : GrowsTo s.streams s'.streams

theorem Kept.refl
    (s : State) (handle : Nat) :
    Kept s s handle :=
  ⟨rfl, rfl, fun _ _ => rfl, GrowsTo.refl s.streams⟩

theorem Kept.trans
    {a b c : State} {handle handle' : Nat}
    (h : Kept a b handle) (h' : Kept b c handle') (hle : handle ≤ handle') :
    Kept a c handle :=
  ⟨h'.recorded.trans h.recorded, h'.protocols.trans h.protocols,
    fun k hk => (h'.below k (lt_of_lt_of_le hk hle)).trans (h.below k hk),
    h.grows.trans h'.grows⟩

theorem Kept.usable
    {s s' : State} {handle : Nat}
    (h : Kept s s' handle) :
    verifyGuidedSectionGuid s' = verifyGuidedSectionGuid s := by
  funext guid
  rw [verifyGuidedSectionGuid, h.recorded, h.protocols, verifyGuidedSectionGuid]

/-- The child of the stream `handle` has the stream of its expansion behind it, or none. -/
def Linked (streams : List StreamNode) (handle : Nat) (child : ChildNode) :
    Option (Bytes × Nat) → Prop
  | none => child.encapsulatedStreamHandle = none
  | some x =>
      ∃ (k : Nat) (stream : StreamNode), child.encapsulatedStreamHandle = some k ∧ handle < k ∧
        streams[k]? = some stream ∧ stream.streamBuffer = x.1 ∧
        stream.authenticationStatus = x.2

theorem Linked.grow
    {streams streams' : List StreamNode} {handle : Nat} {child : ChildNode}
    {x : Option (Bytes × Nat)}
    (h : Linked streams handle child x) (hgrow : GrowsTo streams streams') :
    Linked streams' handle child x := by
  cases x with
  | none => exact h
  | some x =>
      obtain ⟨k, stream, hhandle, hlt, hstream, hbuffer, hstatus⟩ := h
      obtain ⟨stream', hstream', hsame⟩ := hgrow k stream hstream
      exact ⟨k, stream', hhandle, hlt, hstream', hsame.buffer.trans hbuffer,
        hsame.status.trans hstatus⟩

section Invariant

variable (plat : Platform) (s : State) (todo : List RpnEventContext)

/-- What a child of a stream expands to now. -/
def expansionOf (stream : StreamNode) (child : ChildNode) : Option (Bytes × Nat) :=
  expansion plat (verifyGuidedSectionGuid s) stream.streamBuffer child.offsetInStream
    stream.authenticationStatus

/-- The children of a stream are its first sections, and each is linked to its expansion or has an
event that is still to be served. -/
structure StreamOk (handle : Nat) (stream : StreamNode) : Prop where
  shape : ∀ (i : Nat) (child : ChildNode), stream.children[i]? = some child →
    child = { newNode stream.streamBuffer child.offsetInStream with
      encapsulatedStreamHandle := child.encapsulatedStreamHandle }
  room : ∀ (i : Nat) (child : ChildNode), stream.children[i]? = some child →
    child.offsetInStream + 4 ≤ stream.streamBuffer.length
  first : ∀ child : ChildNode, stream.children[0]? = some child → child.offsetInStream = 0
  next : ∀ (i : Nat) (child child' : ChildNode), stream.children[i]? = some child →
    stream.children[i + 1]? = some child' → child'.offsetInStream = nextChildOffset child
  linked : ∀ (i : Nat) (child : ChildNode), stream.children[i]? = some child →
    Linked s.streams handle child (expansionOf plat s stream child) ∨
      (child.encapsulatedStreamHandle = none ∧
        ∃ c ∈ todo, c.parentStream = handle ∧ c.childNode = i)
  waiting : ∀ (i : Nat) (child : ChildNode), stream.children[i]? = some child →
    child.type = sectionGuidDefined → child.encapsulatedStreamHandle = none →
      ∃ c ∈ s.events, c.parentStream = handle ∧ c.childNode = i

/-- The child that an event was registered for has the GUID of the event. -/
def EventOk (streams : List StreamNode) (c : RpnEventContext) : Prop :=
  ∃ (stream : StreamNode) (child : ChildNode), streams[c.parentStream]? = some stream ∧
    stream.children[c.childNode]? = some child ∧ child.encapsulationGuid = some c.guid

/-- The invariant of the database, while the events of `todo` are still to be served. -/
structure Inv : Prop where
  streams : ∀ (handle : Nat) (stream : StreamNode), s.streams[handle]? = some stream →
    StreamOk plat s todo handle stream
  events : ∀ c ∈ s.events, EventOk s.streams c
  waiting : ∀ c ∈ s.events, verifyGuidedSectionGuid s c.guid = true → c ∈ todo

end Invariant

theorem EventOk.grow
    {streams streams' : List StreamNode} {c : RpnEventContext}
    (h : EventOk streams c) (hgrow : GrowsTo streams streams') :
    EventOk streams' c := by
  obtain ⟨stream, child, hstream, hchild, hguid⟩ := h
  obtain ⟨stream', hstream', hsame⟩ := hgrow _ _ hstream
  obtain ⟨child', hchild', hguid'⟩ := hsame.child _ _ hchild
  exact ⟨stream', child', hstream', hchild', hguid'.trans hguid⟩

theorem inv_initial
    (plat : Platform) :
    Inv plat State.initial [] := by
  refine ⟨?_, ?_, ?_⟩
  · intro handle stream h
    exact absurd h (by simp [State.initial])
  · intro c h
    exact absurd h (by simp [State.initial])
  · intro c h
    exact absurd h (by simp [State.initial])

section Operations

variable {plat : Platform} {s : State} {todo : List RpnEventContext}
  {handle : Nat} {stream : StreamNode} {events : List RpnEventContext}

theorem streamOk_fresh
    (handle : Nat) (buffer : Bytes) (status : Nat) :
    StreamOk plat s todo handle ⟨buffer, [], status⟩ := by
  constructor
  case shape | room => exact fun i child h => absurd h (by simp)
  case first => exact fun child h => absurd h (by simp)
  case next => exact fun i child child' h => absurd h (by simp)
  case linked | waiting => exact fun i child h => absurd h (by simp)

theorem StreamOk.grow
    {s' : State}
    (h : StreamOk plat s todo handle stream)
    (husable : verifyGuidedSectionGuid s' = verifyGuidedSectionGuid s)
    (hgrow : GrowsTo s.streams s'.streams)
    (hevents : ∀ c ∈ s.events, c.parentStream = handle → c ∈ s'.events) :
    StreamOk plat s' todo handle stream := by
  constructor
  case shape => exact h.shape
  case room => exact h.room
  case first => exact h.first
  case next => exact h.next
  case linked =>
    intro i child hchild
    unfold expansionOf
    rw [husable]
    exact (h.linked i child hchild).imp_left (Linked.grow · hgrow)
  case waiting =>
    intro i child hchild htype hnone
    obtain ⟨c, hc, hparent, hplace⟩ := h.waiting i child hchild htype hnone
    exact ⟨c, hevents c hc hparent, hparent, hplace⟩

theorem Inv.openSectionStreamEx
    (h : Inv plat s todo) (sectionStream : Bytes) (status : Nat) :
    Inv plat (openSectionStreamEx s sectionStream status) todo := by
  have hgrow : GrowsTo s.streams (SectionExtraction.openSectionStreamEx s sectionStream
      status).streams := growsTo_append _ _
  constructor
  case streams =>
    intro handle stream hstream
    rcases Nat.lt_or_ge handle s.streams.length with hlt | hge
    · have hold : s.streams[handle]? = some stream := by
        rw [← hstream]
        exact (getElem?_append_left hlt).symm
      exact (h.streams handle stream hold).grow rfl hgrow (fun c hc _ => hc)
    · have hnew : stream = ⟨sectionStream, [], status⟩ := by
        have hget : [(⟨sectionStream, [], status⟩ : StreamNode)][handle - s.streams.length]?
            = some stream := (getElem?_append_right hge).symm.trans hstream
        have hmem := mem_of_getElem? hget
        exact mem_singleton.mp hmem
      rw [hnew]
      exact streamOk_fresh handle sectionStream status
  case events => exact fun c hc => (h.events c hc).grow hgrow
  case waiting => exact h.waiting

theorem kept_openSectionStreamEx
    (hle : handle ≤ s.streams.length) (sectionStream : Bytes) (status : Nat) :
    Kept s (openSectionStreamEx s sectionStream status) handle :=
  ⟨rfl, rfl, fun k hk => getElem?_append_left (by omega), growsTo_append _ _⟩

theorem kept_addChild
    (handle : Nat) (node : ChildNode) (events : List RpnEventContext) :
    Kept s (addChild s handle node events) handle :=
  ⟨rfl, rfl, fun k hk => getElem?_modify_ne _ _ (by omega),
    growsTo_modify _ _ (growsTo_addNode node)⟩

/-- The conditions under which a node may become the next child of a stream. -/
structure Fits (plat : Platform) (s : State) (handle : Nat) (stream : StreamNode)
    (node : ChildNode) (events : List RpnEventContext) : Prop where
  shape : node = { newNode stream.streamBuffer node.offsetInStream with
    encapsulatedStreamHandle := node.encapsulatedStreamHandle }
  room : node.offsetInStream + 4 ≤ stream.streamBuffer.length
  first : stream.children = [] → node.offsetInStream = 0
  next : ∀ (i : Nat) (child : ChildNode), stream.children[i]? = some child →
    i + 1 = stream.children.length → node.offsetInStream = nextChildOffset child
  linked : Linked s.streams handle node (expansionOf plat s stream node)
  waiting : node.type = sectionGuidDefined → node.encapsulatedStreamHandle = none →
    ∃ c ∈ events, c.parentStream = handle ∧ c.childNode = stream.children.length
  registered : ∀ c ∈ events, c.parentStream = handle ∧ c.childNode = stream.children.length ∧
    node.encapsulationGuid = some c.guid ∧ verifyGuidedSectionGuid s c.guid = false

theorem addChild_get
    (hstream : s.streams[handle]? = some stream)
    (node : ChildNode) (events : List RpnEventContext) :
    (addChild s handle node events).streams[handle]? =
      some { stream with children := stream.children ++ [node] } := by
  rw [addChild, getElem?_modify_eq, hstream]
  rfl

/-- A stream with one more fitting child is in order. -/
theorem StreamOk.addChild
    {node : ChildNode}
    (h : StreamOk plat s todo handle stream)
    (hfits : Fits plat s handle stream node events) :
    StreamOk plat (addChild s handle node events) todo handle
      { stream with children := stream.children ++ [node] } := by
  have hsplit : ∀ {i : Nat} {child : ChildNode},
      (stream.children ++ [node])[i]? = some child →
        stream.children[i]? = some child ∨ (i = stream.children.length ∧ child = node) := by
    intro i child hchild
    rcases Nat.lt_or_ge i stream.children.length with hlt | hge
    · exact Or.inl ((getElem?_append_left hlt).symm.trans hchild)
    · rw [getElem?_append_right hge] at hchild
      have hlt := (List.getElem?_eq_some_iff.mp hchild).1
      have hzero : i = stream.children.length := by
        rw [length_singleton] at hlt
        omega
      subst hzero
      rw [Nat.sub_self] at hchild
      exact Or.inr ⟨rfl, (Option.some.inj hchild).symm⟩
  have hgrow := (kept_addChild (s := s) handle node events).grows
  constructor
  case shape =>
    intro i child hchild
    rcases hsplit hchild with hold | ⟨-, rfl⟩
    · exact h.shape i child hold
    · exact hfits.shape
  case room =>
    intro i child hchild
    rcases hsplit hchild with hold | ⟨-, rfl⟩
    · exact h.room i child hold
    · exact hfits.room
  case first =>
    intro child hchild
    rcases hsplit hchild with hold | ⟨hlen, rfl⟩
    · exact h.first child hold
    · exact hfits.first (length_eq_zero_iff.mp hlen.symm)
  case next =>
    intro i child child' hchild hchild'
    have hlt := (List.getElem?_eq_some_iff.mp hchild').1
    have hold : stream.children[i]? = some child := by
      rcases hsplit hchild with hold | ⟨hlen, -⟩
      · exact hold
      · rw [length_append, length_singleton] at hlt
        omega
    rcases hsplit hchild' with hold' | ⟨hlen, rfl⟩
    · exact h.next i child child' hold hold'
    · exact hfits.next i child hold hlen
  case linked =>
    intro i child hchild
    rcases hsplit hchild with hold | ⟨-, rfl⟩
    · exact (h.linked i child hold).imp_left (Linked.grow · hgrow)
    · exact Or.inl (hfits.linked.grow hgrow)
  case waiting =>
    intro i child hchild htype hnone
    rcases hsplit hchild with hold | ⟨rfl, rfl⟩
    · obtain ⟨c, hc, hplace⟩ := h.waiting i child hold htype hnone
      exact ⟨c, mem_append_left _ hc, hplace⟩
    · obtain ⟨c, hc, hplace⟩ := hfits.waiting htype hnone
      exact ⟨c, mem_append_right _ hc, hplace⟩

/-- A fitting child keeps the invariant. -/
theorem Inv.addChild
    {node : ChildNode}
    (h : Inv plat s todo)
    (hstream : s.streams[handle]? = some stream)
    (hfits : Fits plat s handle stream node events) :
    Inv plat (addChild s handle node events) todo := by
  have hgrow := (kept_addChild (s := s) handle node events).grows
  constructor
  case streams =>
    intro k stream' hstream'
    by_cases hk : handle = k
    · subst hk
      rw [addChild_get hstream, Option.some.injEq] at hstream'
      subst hstream'
      exact (h.streams handle stream hstream).addChild hfits
    · have hold : s.streams[k]? = some stream' :=
        (getElem?_modify_ne _ _ hk).symm.trans hstream'
      exact (h.streams k stream' hold).grow rfl hgrow
        (fun c hc _ => mem_append_left _ hc)
  case events =>
    intro c hc
    rcases mem_append.mp hc with hold | hnew
    · exact (h.events c hold).grow hgrow
    · obtain ⟨hparent, hplace, hguid, -⟩ := hfits.registered c hnew
      refine ⟨{ stream with children := stream.children ++ [node] }, node, ?_, ?_, hguid⟩
      · rw [hparent]
        exact addChild_get hstream node events
      · rw [hplace]
        exact getElem?_concat_length
  case waiting =>
    intro c hc husable
    rcases mem_append.mp hc with hold | hnew
    · exact h.waiting c hold husable
    · have hunusable := (hfits.registered c hnew).2.2.2
      exact absurd husable (by
        rw [show verifyGuidedSectionGuid (SectionExtraction.addChild s handle node events) c.guid
          = verifyGuidedSectionGuid s c.guid from rfl, hunusable]
        decide)

/-- Where the next child of a stream stands. -/
structure NextPlace (stream : StreamNode) (offset : Nat) : Prop where
  room : offset + 4 ≤ stream.streamBuffer.length
  first : stream.children = [] → offset = 0
  next : ∀ (i : Nat) (child : ChildNode), stream.children[i]? = some child →
    i + 1 = stream.children.length → offset = nextChildOffset child

theorem unusable_of_expansion
    {usable : Guid → Bool} {buffer : Bytes} {offset status : Nat}
    (h : expansion plat usable buffer offset status = none)
    (htype : sectionType buffer offset = sectionGuidDefined) :
    usable (sectionDefinitionGuid buffer offset) = false := by
  have hcomp : sectionType buffer offset ≠ sectionCompression := by
    rw [htype]
    decide
  rw [expansion, if_neg hcomp, if_pos htype] at h
  split at h
  · exact absurd h (by simp)
  · rename_i hnot
    exact Bool.eq_false_iff.mpr hnot

/-- Parsing a well-formed section adds the child for it and keeps the invariant. -/
theorem Inv.parsed
    {handle offset : Nat}
    (h : Inv plat s todo)
    (hstream : s.streams[handle]? = some stream)
    (hplace : NextPlace stream offset) :
    Inv plat (parsed plat s handle stream offset) todo ∧
      Kept s (parsed plat s handle stream offset) handle ∧
      ∃ node, node.offsetInStream = offset ∧
        (parsed plat s handle stream offset).streams[handle]? =
          some { stream with children := stream.children ++ [node] } := by
  unfold SectionExtraction.parsed
  have hlt := (List.getElem?_eq_some_iff.mp hstream).1
  split
  case h_1 hnone =>
    have hfits : Fits plat s handle stream (newNode stream.streamBuffer offset)
        (newEvents stream.streamBuffer offset handle stream.children.length) := by
      constructor
      case shape => rfl
      case room => exact hplace.room
      case first => exact hplace.first
      case next => exact hplace.next
      case linked =>
        rw [expansionOf, show (newNode stream.streamBuffer offset).offsetInStream = offset from rfl,
          hnone]
        rfl
      case waiting =>
        intro (htype : sectionType stream.streamBuffer offset = sectionGuidDefined) _
        refine ⟨⟨handle, stream.children.length, sectionDefinitionGuid stream.streamBuffer offset⟩,
          ?_, rfl, rfl⟩
        rw [newEvents, if_pos htype]
        exact mem_singleton_self _
      case registered =>
        intro c hc
        unfold newEvents at hc
        split at hc
        case isFalse => exact absurd hc (by simp)
        case isTrue htype =>
          rw [mem_singleton] at hc
          subst hc
          refine ⟨rfl, rfl, ?_, unusable_of_expansion hnone htype⟩
          exact if_pos htype
    exact ⟨h.addChild hstream hfits, kept_addChild handle _ _,
      _, rfl, addChild_get hstream _ _⟩
  case h_2 x hx =>
    have hopen := h.openSectionStreamEx x.1 x.2
    have hkept : Kept s (SectionExtraction.openSectionStreamEx s x.1 x.2) handle :=
      kept_openSectionStreamEx (by omega) x.1 x.2
    have hsame : (SectionExtraction.openSectionStreamEx s x.1 x.2).streams[handle]? = some stream :=
      (getElem?_append_left hlt).trans hstream
    have hfits : Fits plat (SectionExtraction.openSectionStreamEx s x.1 x.2) handle stream
        { newNode stream.streamBuffer offset with
          encapsulatedStreamHandle := some s.streams.length } [] := by
      constructor
      case shape => rfl
      case room => exact hplace.room
      case first => exact hplace.first
      case next => exact hplace.next
      case linked =>
        have hexp : expansionOf plat (SectionExtraction.openSectionStreamEx s x.1 x.2) stream
            { newNode stream.streamBuffer offset with
              encapsulatedStreamHandle := some s.streams.length } = some x := hx
        rw [hexp]
        exact ⟨s.streams.length, _, rfl, hlt, getElem?_concat_length, rfl, rfl⟩
      case waiting => exact fun _ hnone => absurd hnone (by simp)
      case registered => exact fun c hc => absurd hc (by simp)
    exact ⟨hopen.addChild hsame hfits, hkept.trans (kept_addChild handle _ _) le_rfl,
      _, rfl, addChild_get hsame _ _⟩

end Operations

end SectionExtraction
end Udk
