import Udk.Runs
import Udk.SectionExtraction.SectionStream

/-!
# Looking for a section

`FindChildNode`, `GetSection` and `OpenSectionStream` of `CoreSectionExtraction.c`.  The counter
of the search is a `UINTN` that doubles as the mark of success.  A walk has fuel, and `none` means
that the fuel ran out or that the code would follow a pointer to no node.
-/

namespace Udk
namespace SectionExtraction

/-- `EFI_SECTION_TYPE` and the section definition GUID, if there is one. -/
structure Target where
  searchType : Nat
  sectionDefinitionGuid : Option Guid

/-- `FoundChild`, `FoundStream` and the authentication status. -/
structure Found where
  child : ChildNode
  stream : Nat
  authenticationStatus : Nat
  deriving DecidableEq, Repr

/-- What `FindChildNode` leaves: its status, the counter, and the outputs if they were set. -/
structure Outcome where
  status : EfiStatus
  sectionInstance : Nat
  found : Option Found
  state : State
  deriving DecidableEq, Repr

/-- `(*SectionInstance)--` on a `UINTN`. -/
def decrement (sectionInstance : Nat) : Nat := (sectionInstance + (2 ^ 64 - 1)) % 2 ^ 64

/-- Determine if the child matches the type and the GUID looked for. -/
def childIsType (target : Target) (stream : StreamNode) (child : ChildNode) : Bool :=
  if target.searchType = sectionAll then true
  else if child.type ≠ target.searchType then false
  else if target.searchType ≠ sectionGuidDefined then true
  else
    match target.sectionDefinitionGuid with
    | none => true
    | some guid => sectionDefinitionGuid stream.streamBuffer child.offsetInStream == guid

/-- The offset behind a child, rounded up to four bytes, as a `UINT32`. -/
def nextChildOffset (child : ChildNode) : Nat :=
  (child.offsetInStream + child.size + 3) % 2 ^ 32 / 4 * 4

/-- The next child is there, could not be created, or does not exist. -/
inductive NextChild
  | present (state : State)
  | failed (status : EfiStatus)
  | exhausted

section Search

variable (plat : Platform) (target : Target)

/-- Go on behind `child`, at the place `index` of `stream`; parse one more child if need be. -/
def nextChild (s : State) (handle : Nat) (stream : StreamNode) (index : Nat) (child : ChildNode) :
    NextChild :=
  if index + 1 < stream.children.length then .present s
  else if nextChildOffset child + 4 ≤ stream.streamBuffer.length then
    match createChildNode plat s handle stream (nextChildOffset child) with
    | .ok s' => .present s'
    | .error e => .failed e
  else .exhausted

/-- A walk over the children of a stream from a place on. -/
abbrev Walk := State → Nat → Nat → EfiStatus → Nat → Option Outcome

/-- `FindChildNode` up to its loop over the children. -/
def enterStream (walk : Walk) (s : State) (handle sectionInstance : Nat) : Option Outcome :=
  match s.streams[handle]? with
  | none => none
  | some stream =>
      if stream.streamBuffer.length = 0 then some ⟨.notFound, sectionInstance, none, s⟩
      else if stream.children = [] ∧ 4 ≤ stream.streamBuffer.length then
        match createChildNode plat s handle stream 0 with
        | .error e => some ⟨e, sectionInstance, none, s⟩
        | .ok s' => walk s' handle 0 .notFound sectionInstance
      else walk s handle 0 .notFound sectionInstance

/-- The part of the loop behind the current child, where `errorStatus` has been updated. -/
def walkOn (walk : Walk) (s : State) (handle index : Nat) (errorStatus : EfiStatus)
    (sectionInstance : Nat) : Option Outcome :=
  match s.streams[handle]? with
  | none => none
  | some stream =>
      match stream.children[index]? with
      | none => none
      | some child =>
          match nextChild plat s handle stream index child with
          | .present s' => walk s' handle (index + 1) errorStatus sectionInstance
          | .failed e => some ⟨e, sectionInstance, none, s⟩
          | .exhausted => some ⟨errorStatus, sectionInstance, none, s⟩

/-- The part of the loop behind the counter: the stream below the child, and the next child. -/
def walkBelow (walk : Walk) (s : State) (handle index : Nat) (errorStatus : EfiStatus)
    (sectionInstance : Nat) (child : ChildNode) : Option Outcome :=
  match child.encapsulatedStreamHandle with
  | some inner =>
      match enterStream plat walk s inner sectionInstance with
      | none => none
      | some r =>
          -- The status is only asserted here: a counter of zero means success.
          if r.sectionInstance = 0 then some ⟨.success, 0, r.found, r.state⟩
          else walkOn plat walk r.state handle index r.status r.sectionInstance
  | none =>
      if child.type = sectionGuidDefined ∧ target.searchType ≠ sectionGuidDefined then
        walkOn plat walk s handle index .protocolError sectionInstance
      else walkOn plat walk s handle index errorStatus sectionInstance

/-- One turn of the loop.  A child that matches is counted, and found when the counter gets to
zero. -/
def walkTurn (walk : Walk) (s : State) (handle index : Nat) (errorStatus : EfiStatus)
    (sectionInstance : Nat) : Option Outcome :=
  match s.streams[handle]? with
  | none => none
  | some stream =>
      match stream.children[index]? with
      | none => none
      | some child =>
          if childIsType target stream child then
            if decrement sectionInstance = 0 then
              some ⟨.success, 0, some ⟨child, handle, stream.authenticationStatus⟩, s⟩
            else
              walkBelow plat target walk s handle index errorStatus (decrement sectionInstance)
                child
          else walkBelow plat target walk s handle index errorStatus sectionInstance child

/-- The loop over the children of a stream. -/
def walkChildren : Nat → Walk
  | 0, _, _, _, _, _ => none
  | fuel + 1, s, handle, index, errorStatus, sectionInstance =>
      walkTurn plat target (walkChildren fuel) s handle index errorStatus sectionInstance

/-- Search and build the stream database looking for the requested section. -/
def findChildNode (fuel : Nat) (s : State) (handle sectionInstance : Nat) : Option Outcome :=
  enterStream plat (walkChildren plat target fuel) s handle sectionInstance

end Search

/-- The arguments of `GetSection`: `none` for the null pointers to a type or to a GUID, and for a
buffer that the callee allocates. -/
structure Request where
  sectionStreamHandle : Nat
  sectionType : Option Nat
  sectionDefinitionGuid : Option Guid
  sectionInstance : Nat
  bufferSize : Option Nat
  isFfs3Fv : Bool

/-- What the caller finds in `Buffer`, `BufferSize` and `AuthenticationStatus`. -/
structure Returned where
  buffer : Bytes
  bufferSize : Nat
  authenticationStatus : Nat
  deriving DecidableEq, Repr

/-- The status of a call and what it returned; a successful call that reads through pointers
which were never set returns nothing that is known. -/
structure Reply where
  status : EfiStatus
  returned : Option Returned
  deriving DecidableEq, Repr

/-- Fill the caller's buffer to its size, or allocate one. -/
def Request.copyOut (request : Request) (copyBuffer : Bytes) (authenticationStatus : Nat) :
    Reply :=
  match request.bufferSize with
  | none => ⟨.success, some ⟨copyBuffer, copyBuffer.length, authenticationStatus⟩⟩
  | some size =>
      if size < copyBuffer.length then
        ⟨.warnBufferTooSmall,
          some ⟨copyBuffer.take size, copyBuffer.length, authenticationStatus⟩⟩
      else ⟨.success, some ⟨copyBuffer, copyBuffer.length, authenticationStatus⟩⟩

/-- What stands behind the header of a section. -/
def sectionPayload (buffer : Bytes) (offset : Nat) : Bytes :=
  slice buffer (offset + headerSize buffer offset)
    (sectionSize buffer offset - headerSize buffer offset)

/-- The section found is copied out, if its header fits the format of the volume. -/
def copySection (request : Request) (s : State) (found : Option Found) : Reply :=
  match found with
  | none => ⟨.success, none⟩
  | some f =>
      match s.streams[f.stream]? with
      | none => ⟨.success, none⟩
      | some stream =>
          if isSection2 stream.streamBuffer f.child.offsetInStream && !request.isFfs3Fv then
            ⟨.notFound, none⟩
          else
            request.copyOut (sectionPayload stream.streamBuffer f.child.offsetInStream)
              f.authenticationStatus

/-- Retrieve the requested section from a section stream. -/
def getSection (plat : Platform) (fuel : Nat) (s : State) (request : Request) :
    Option (Reply × State) :=
  match s.streams[request.sectionStreamHandle]? with
  | none => some (⟨.invalidParameter, none⟩, s)
  | some stream =>
      match request.sectionType with
      | none => some (request.copyOut stream.streamBuffer stream.authenticationStatus, s)
      | some searchType =>
          match findChildNode plat ⟨searchType, request.sectionDefinitionGuid⟩ fuel s
              request.sectionStreamHandle ((request.sectionInstance + 1) % 2 ^ 64) with
          | none => none
          | some r =>
              if r.status.isError then some (⟨r.status, none⟩, r.state)
              else some (copySection request r.state r.found, r.state)

/-- The walk of `IsValidSectionStream` from the offset `totalLength` on. -/
def isValidSectionStream (sectionStream : Bytes) : Nat → Nat → Option Bool
  | 0, _ => none
  | fuel + 1, totalLength =>
      if totalLength < sectionStream.length then
        if totalLength + sectionSize sectionStream totalLength = sectionStream.length then
          some true
        else
          isValidSectionStream sectionStream fuel
            ((totalLength + sectionSize sectionStream totalLength + 3) / 4 * 4)
      else some false

/-- Open a stream for the sections of a buffer. -/
def openSectionStream (fuel : Nat) (s : State) (sectionStream : Bytes) :
    Option (EfiStatus × State) :=
  match isValidSectionStream sectionStream fuel 0 with
  | none => none
  | some false => some (.invalidParameter, s)
  | some true => some (.success, openSectionStreamEx s sectionStream 0)

/-- What happens to the stream database from outside. -/
inductive Event
  | openSectionStream (sectionStream : Bytes)
  | getSection (request : Request)
  | recordGuid (guid : Guid)
  | installProtocol (guid : Guid)

/-- One event, with any amount of fuel that is enough for it. -/
inductive Step (plat : Platform) : State → Event → State → Prop
  | openSectionStream {fuel : Nat} {s s' : State} {sectionStream : Bytes} {status : EfiStatus}
      (h : openSectionStream fuel s sectionStream = some (status, s')) :
      Step plat s (.openSectionStream sectionStream) s'
  | getSection {fuel : Nat} {s s' : State} {request : Request} {reply : Reply}
      (h : getSection plat fuel s request = some (reply, s')) :
      Step plat s (.getSection request) s'
  | recordGuid (s : State) (guid : Guid) :
      Step plat s (.recordGuid guid) (recordGuid s guid)
  | installProtocol (s : State) (guid : Guid) :
      Step plat s (.installProtocol guid) (installProtocol plat s guid)

section Fuel

variable {plat : Platform} {target : Target}

/-- Whatever one walk finds, the other one finds. -/
def Walk.Below (walk walk' : Walk) : Prop :=
  ∀ s handle index errorStatus count r,
    walk s handle index errorStatus count = some r →
      walk' s handle index errorStatus count = some r

variable {walk walk' : Walk} {s : State} {r : Outcome} {errorStatus : EfiStatus}

theorem Walk.Below.enterStream
    (h : walk.Below walk')
    {handle count : Nat}
    (hr : enterStream plat walk s handle count = some r) :
    enterStream plat walk' s handle count = some r := by
  unfold SectionExtraction.enterStream at hr ⊢
  split at hr
  · exact hr
  · split at hr
    case isTrue hlen =>
      rw [if_pos hlen]
      exact hr
    case isFalse hlen =>
      rw [if_neg hlen]
      split at hr
      case isTrue hfirst =>
        rw [if_pos hfirst]
        split at hr
        · exact hr
        · exact h _ _ _ _ _ _ hr
      case isFalse hfirst =>
        rw [if_neg hfirst]
        exact h _ _ _ _ _ _ hr

theorem Walk.Below.walkOn
    (h : walk.Below walk')
    {handle index count : Nat}
    (hr : walkOn plat walk s handle index errorStatus count = some r) :
    walkOn plat walk' s handle index errorStatus count = some r := by
  unfold SectionExtraction.walkOn at hr ⊢
  split at hr
  · exact hr
  · split at hr
    · exact hr
    · split at hr
      · exact h _ _ _ _ _ _ hr
      · exact hr
      · exact hr

theorem Walk.Below.walkBelow
    (h : walk.Below walk')
    {handle index count : Nat} {child : ChildNode}
    (hr : walkBelow plat target walk s handle index errorStatus count child = some r) :
    walkBelow plat target walk' s handle index errorStatus count child = some r := by
  unfold SectionExtraction.walkBelow at hr ⊢
  split at hr
  · split at hr
    case h_1 => exact absurd hr (by simp)
    case h_2 hinner =>
      rw [h.enterStream hinner]
      dsimp only
      split at hr
      case isTrue hcount =>
        rw [if_pos hcount]
        exact hr
      case isFalse hcount =>
        rw [if_neg hcount]
        exact h.walkOn hr
  · split at hr
    case isTrue hguided =>
      rw [if_pos hguided]
      exact h.walkOn hr
    case isFalse hguided =>
      rw [if_neg hguided]
      exact h.walkOn hr

theorem Walk.Below.walkTurn
    (h : walk.Below walk') :
    Walk.Below (walkTurn plat target walk) (walkTurn plat target walk') := by
  intro s handle index errorStatus count r hr
  unfold SectionExtraction.walkTurn at hr ⊢
  split at hr
  · exact hr
  · split at hr
    · exact hr
    · split at hr
      case isTrue htype =>
        rw [if_pos htype]
        split at hr
        case isTrue hfound =>
          rw [if_pos hfound]
          exact hr
        case isFalse hfound =>
          rw [if_neg hfound]
          exact h.walkBelow hr
      case isFalse htype =>
        rw [if_neg htype]
        exact h.walkBelow hr

theorem walkChildren_succ
    (fuel : Nat) :
    Walk.Below (walkChildren plat target fuel) (walkChildren plat target (fuel + 1)) := by
  induction fuel with
  | zero =>
      intro s handle index errorStatus count r hr
      exact absurd hr (by simp [walkChildren])
  | succ fuel ih => exact Walk.Below.walkTurn ih

theorem walkChildren_mono
    {fuel fuel' : Nat}
    (hle : fuel ≤ fuel') :
    Walk.Below (walkChildren plat target fuel) (walkChildren plat target fuel') := by
  induction hle with
  | refl => exact fun _ _ _ _ _ _ hr => hr
  | step _ ih => exact fun _ _ _ _ _ _ hr => walkChildren_succ _ _ _ _ _ _ _ (ih _ _ _ _ _ _ hr)

theorem getSection_mono
    {fuel fuel' : Nat}
    (hle : fuel ≤ fuel')
    {request : Request} {x : Reply × State}
    (h : getSection plat fuel s request = some x) :
    getSection plat fuel' s request = some x := by
  unfold getSection at h ⊢
  split at h
  · exact h
  · split at h
    · exact h
    · split at h
      · exact absurd h (by simp)
      · rename_i r hr
        have hr' := (walkChildren_mono hle).enterStream hr
        unfold findChildNode
        rw [hr']
        exact h

theorem getSection_unique
    {fuel fuel' : Nat} {request : Request} {x y : Reply × State}
    (hx : getSection plat fuel s request = some x)
    (hy : getSection plat fuel' s request = some y) :
    x = y := by
  have hx' := getSection_mono (Nat.le_max_left fuel fuel') hx
  have hy' := getSection_mono (Nat.le_max_right fuel fuel') hy
  rw [hx'] at hy'
  exact Option.some.inj hy'

end Fuel

end SectionExtraction
end Udk
