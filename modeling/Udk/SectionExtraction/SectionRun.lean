import Udk.SectionExtraction.FindSpecs
import Udk.SectionExtraction.StreamNotify

/-!
# Runs of the section extraction protocol

`GetSection` against its purpose: along runs that open streams, look for sections, record GUIDs and
install protocols, a call returns the payload and the status of an instance in the preorder of the
tree of sections.
-/

namespace Udk
namespace SectionExtraction

section Conditions

variable (plat : Platform) (s : State)

/-- The stream searched has a tree of well-formed sections. -/
def WellFormed : Event → Prop
  | .getSection request =>
      ∀ stream, s.streams[request.sectionStreamHandle]? = some stream →
        ∃ depth f, sectionTree plat (verifyGuidedSectionGuid s) depth stream.streamBuffer 0
          stream.authenticationStatus = some f
  | _ => True

/-- A stream with an extended section is searched for a volume of the FFS3 format. -/
def FormatFits (request : Request) : Prop :=
  ∀ stream depth f, s.streams[request.sectionStreamHandle]? = some stream →
    sectionTree plat (verifyGuidedSectionGuid s) depth stream.streamBuffer 0
        stream.authenticationStatus = some f →
      ∀ e ∈ f.preorder, e.extended = true → request.isFfs3Fv = true

/-- The instance is not the largest `UINTN`.  When a protocol is installed, the sections parsed for
it have been waiting and have their status bit where the notification looks; a GUID is recorded
before its protocol is there, unless no section with it has been parsed. -/
def Regular : Event → Prop
  | .openSectionStream _ => True
  | .getSection request => request.sectionInstance + 1 < 2 ^ 64 ∧ FormatFits plat s request
  | .recordGuid guid =>
      s.protocols.contains guid = true → s.recorded.contains guid = false →
        ParsedWith s guid fun _ _ => False
  | .installProtocol guid =>
      s.recorded.contains guid = true → s.protocols.contains guid = false →
        ParsedWith s guid fun buffer offset =>
          hasBit (guidedAttributes buffer offset) processingRequiredBit = true ∧
            AttributesAgree buffer offset

/-- The payload of the instance asked for in the preorder of the tree, or an error. -/
def Delivers (request : Request) (stream : StreamNode) (f : Forest Entry) (reply : Reply) : Prop :=
  match request.sectionType with
  | none => reply = request.copyOut stream.streamBuffer stream.authenticationStatus
  | some searchType =>
      match (f.hits (Entry.isWanted ⟨searchType, request.sectionDefinitionGuid⟩))[
          request.sectionInstance]? with
      | some e => reply = request.copyOut e.payload e.authenticationStatus
      | none => reply.status.isError = true

/-- The reply is the one that the tree of the stream gives. -/
def Meets (request : Request) (reply : Reply) : Prop :=
  ∀ stream depth f, s.streams[request.sectionStreamHandle]? = some stream →
    sectionTree plat (verifyGuidedSectionGuid s) depth stream.streamBuffer 0
        stream.authenticationStatus = some f →
      Delivers request stream f reply

end Conditions

section Calls

variable {plat : Platform} {s : State} {request : Request}

theorem copySection_found
    {e : Entry} {f : Found} {stream : StreamNode}
    (hstream : s.streams[f.stream]? = some stream)
    (he : entryAt stream.streamBuffer f.child.offsetInStream stream.authenticationStatus = e)
    (hstatus : f.authenticationStatus = e.authenticationStatus)
    (hformat : e.extended = true → request.isFfs3Fv = true) :
    copySection request s (some f) = request.copyOut e.payload e.authenticationStatus := by
  have hextended : e.extended = isSection2 stream.streamBuffer f.child.offsetInStream := by
    rw [← he]
    rfl
  have hpayload : e.payload = sectionPayload stream.streamBuffer f.child.offsetInStream := by
    rw [← he]
    rfl
  unfold copySection
  dsimp only
  rw [hstream]
  dsimp only
  rw [← hextended, ← hpayload, hstatus]
  split
  case isTrue hbad =>
    rw [Bool.and_eq_true, Bool.not_eq_true'] at hbad
    rw [hformat hbad.1] at hbad
    exact absurd hbad.2 (by decide)
  case isFalse => rfl

/-- With a tree for the stream, a call returns what the tree says and keeps the invariant. -/
theorem getSection_spec
    {stream : StreamNode} {depth : Nat} {f : Forest Entry}
    (h : Inv plat s []) (hinstance : request.sectionInstance + 1 < 2 ^ 64)
    (hstream : s.streams[request.sectionStreamHandle]? = some stream)
    (htree : sectionTree plat (verifyGuidedSectionGuid s) depth stream.streamBuffer 0
      stream.authenticationStatus = some f)
    (hformat : ∀ e ∈ f.preorder, e.extended = true → request.isFfs3Fv = true) :
    ∃ reply s', getSection plat depth s request = some (reply, s') ∧ Inv plat s' [] ∧
      Delivers request stream f reply := by
  unfold getSection Delivers
  rw [hstream]
  dsimp only
  cases request.sectionType with
  | none => exact ⟨_, s, rfl, h, rfl⟩
  | some searchType =>
      dsimp only
      have hfind : Returns plat s request.sectionStreamHandle
          (f.search (Entry.isWanted ⟨searchType, request.sectionDefinitionGuid⟩)
            (request.sectionInstance + 1 - 1))
          (findChildNode plat ⟨searchType, request.sectionDefinitionGuid⟩ depth s
            request.sectionStreamHandle (request.sectionInstance + 1)) :=
        findChildNode_spec h hstream htree (Nat.succ_pos _) hinstance
      obtain ⟨r, hr, hinv, -, hanswers⟩ := hfind
      rw [Nat.mod_eq_of_lt hinstance, hr]
      dsimp only
      rw [Nat.add_sub_cancel] at hanswers
      cases hget : (f.hits (Entry.isWanted ⟨searchType, request.sectionDefinitionGuid⟩))[
          request.sectionInstance]? with
      | none =>
          rw [Forest.search_eq_of_none hget] at hanswers
          rw [if_pos hanswers.1]
          exact ⟨_, _, rfl, hinv, hanswers.1⟩
      | some e =>
          rw [Forest.search_eq_of_getElem hget] at hanswers
          obtain ⟨hstatus, -, found, below, hfound, hbelow, he, hsame⟩ := hanswers
          have hmem : e ∈ f.preorder := (List.mem_filter.mp (List.mem_of_getElem? hget)).1
          rw [hstatus, if_neg (by decide), hfound]
          refine ⟨_, _, rfl, hinv, ?_⟩
          exact copySection_found hbelow he hsame (hformat e hmem)

theorem Inv.getSection
    (h : Inv plat s []) (hwf : WellFormed plat s (.getSection request))
    (hreg : Regular plat s (.getSection request)) :
    ∃ fuel reply s', getSection plat fuel s request = some (reply, s') ∧ Inv plat s' [] ∧
      Meets plat s request reply := by
  obtain ⟨hinstance, hformat⟩ := hreg
  cases hstream : s.streams[request.sectionStreamHandle]? with
  | none =>
      refine ⟨0, ⟨.invalidParameter, none⟩, s, ?_, h, ?_⟩
      · rw [SectionExtraction.getSection, hstream]
      · intro stream depth f hstream'
        rw [hstream] at hstream'
        exact absurd hstream' (by simp)
  | some stream =>
      obtain ⟨depth, f, htree⟩ := hwf stream hstream
      obtain ⟨reply, s', hcall, hinv, -⟩ :=
        getSection_spec h hinstance hstream htree (hformat stream depth f hstream htree)
      refine ⟨depth, reply, s', hcall, hinv, ?_⟩
      intro stream' depth' f' hstream' htree'
      obtain ⟨reply', s'', hcall', -, hdelivers⟩ :=
        getSection_spec h hinstance hstream' htree' (hformat stream' depth' f' hstream' htree')
      have hsame := getSection_unique hcall hcall'
      rw [Prod.mk.injEq] at hsame
      rw [hsame.1]
      exact hdelivers

theorem Inv.step
    {s' : State} {event : Event}
    (h : Inv plat s []) (hwf : WellFormed plat s event) (hreg : Regular plat s event)
    (hstep : Step plat s event s') :
    Inv plat s' [] := by
  cases hstep with
  | openSectionStream hopen =>
      unfold openSectionStream at hopen
      split at hopen
      · exact absurd hopen (by simp)
      · rw [Option.some.injEq, Prod.mk.injEq] at hopen
        rw [← hopen.2]
        exact h
      · rw [Option.some.injEq, Prod.mk.injEq] at hopen
        rw [← hopen.2]
        exact h.openSectionStreamEx _ 0
  | getSection hcall =>
      obtain ⟨fuel, reply, s'', hcall', hinv, -⟩ := h.getSection hwf hreg
      have hsame := getSection_unique hcall hcall'
      rw [Prod.mk.injEq] at hsame
      rw [hsame.2]
      exact hinv
  | recordGuid guid => exact h.recordGuid hreg
  | installProtocol guid => exact h.installProtocol hreg

theorem inv_run
    {trace : List (State × Event)}
    (hrun : Run (Step plat) State.initial trace s)
    (hwf : ∀ x ∈ trace, WellFormed plat x.1 x.2) (hreg : ∀ x ∈ trace, Regular plat x.1 x.2) :
    Inv plat s [] := by
  have hkeep : ∀ s e s', Inv plat s [] → (WellFormed plat s e ∧ Regular plat s e) →
      Step plat s e s' → Inv plat s' [] :=
    fun _ _ _ hinv hok hstep => hinv.step hok.1 hok.2 hstep
  exact hrun.invariant hkeep (fun x hx => ⟨hwf x hx, hreg x hx⟩) (inv_initial plat)

/-- After every run of regular steps, a regular call of `GetSection` returns, and it returns the
instance asked for in the preorder of the tree of sections, or an error if there is none. -/
theorem getSection_preorder
    {trace : List (State × Event)}
    (hrun : Run (Step plat) State.initial trace s)
    (hwf : ∀ x ∈ trace, WellFormed plat x.1 x.2) (hreg : ∀ x ∈ trace, Regular plat x.1 x.2)
    (hcall : WellFormed plat s (.getSection request))
    (hregular : Regular plat s (.getSection request)) :
    (∃ fuel x, getSection plat fuel s request = some x) ∧
      ∀ fuel x, getSection plat fuel s request = some x → Meets plat s request x.1 := by
  obtain ⟨fuel, reply, s', hreply, -, hmeets⟩ := (inv_run hrun hwf hreg).getSection hcall hregular
  refine ⟨⟨fuel, _, hreply⟩, ?_⟩
  intro fuel' x hx
  rw [getSection_unique hx hreply]
  exact hmeets

end Calls

section Examples

/-- A protocol whose data stand plain behind the standard header. -/
def plainPlatform : Platform where
  decompress := id
  extractSection := fun _ section' => (section'.drop 24, 0)
  poolMemory := fun n => List.replicate n 0

def plainGuid : Guid := List.replicate 16 0xA5

/-- A guided section that needs its protocol, around a section with four bytes. -/
def guidedStream : Bytes :=
  [32, 0, 0, 2] ++ plainGuid ++ [24, 0, 3, 0] ++ [8, 0, 0, 0x19, 1, 2, 3, 4]

def rawRequest (searchType sectionInstance : Nat) : Request where
  sectionStreamHandle := 0
  sectionType := some searchType
  sectionDefinitionGuid := none
  sectionInstance := sectionInstance
  bufferSize := none
  isFfs3Fv := true

/-- The stream has been opened and its GUID recorded. -/
def waitingState : State :=
  recordGuid (openSectionStreamEx State.initial guidedStream 0) plainGuid

/-- The guided section has been parsed, and waits for its protocol. -/
def parsedState : State :=
  parsed plainPlatform waitingState 0 ⟨guidedStream, [], 0⟩ 0

theorem rawRequest_formatFits
    (plat : Platform) (s : State) (searchType sectionInstance : Nat) :
    FormatFits plat s (rawRequest searchType sectionInstance) :=
  fun _ _ _ _ _ _ _ _ => rfl

theorem wellFormed_of_tree
    {plat : Platform} {s : State} {request : Request} {stream : StreamNode} (depth : Nat)
    (hstream : s.streams[request.sectionStreamHandle]? = some stream)
    (h : (sectionTree plat (verifyGuidedSectionGuid s) depth stream.streamBuffer 0
      stream.authenticationStatus).isSome = true) :
    WellFormed plat s (.getSection request) := by
  intro stream' hstream'
  rw [hstream, Option.some.injEq] at hstream'
  subst hstream'
  exact ⟨depth, Option.isSome_iff_exists.mp h⟩

theorem getSection_preorder_installed :
    (∃ fuel x, getSection plainPlatform fuel (installProtocol plainPlatform parsedState plainGuid)
        (rawRequest 0x19 0) = some x) ∧
      ∀ fuel x, getSection plainPlatform fuel
          (installProtocol plainPlatform parsedState plainGuid) (rawRequest 0x19 0) = some x →
        Meets plainPlatform (installProtocol plainPlatform parsedState plainGuid)
          (rawRequest 0x19 0) x.1 := by
  have hopen : openSectionStream 1 State.initial guidedStream
      = some (.success, openSectionStreamEx State.initial guidedStream 0) := by
    decide
  have hearly : getSection plainPlatform 1 waitingState (rawRequest 0x19 0)
      = some (⟨.protocolError, none⟩, parsedState) := by
    decide
  have hrun : Run (Step plainPlatform) State.initial
      [(State.initial, .openSectionStream guidedStream),
        (openSectionStreamEx State.initial guidedStream 0, .recordGuid plainGuid),
        (waitingState, .getSection (rawRequest 0x19 0)),
        (parsedState, .installProtocol plainGuid)]
      (installProtocol plainPlatform parsedState plainGuid) :=
    .cons (.openSectionStream hopen) (.cons (.recordGuid _ _) (.cons (.getSection hearly)
      (.cons (.installProtocol _ _) (.nil _))))
  have hexpanded : (installProtocol plainPlatform parsedState plainGuid).streams[0]? =
      some ⟨guidedStream,
        [{ newNode guidedStream 0 with encapsulatedStreamHandle := some 1 }], 0⟩ := by
    decide
  have hwaiting : WellFormed plainPlatform waitingState (.getSection (rawRequest 0x19 0)) :=
    wellFormed_of_tree 2 rfl (by decide)
  refine getSection_preorder hrun ?_ ?_ ?_ ?_
  · intro x hx
    fin_cases hx
    · trivial
    · trivial
    · exact hwaiting
    · trivial
  · intro x hx
    fin_cases hx
    · trivial
    · exact fun h => absurd h (by decide)
    · exact ⟨by decide, rawRequest_formatFits _ _ _ _⟩
    · exact fun _ _ => by decide
  · exact wellFormed_of_tree 3 hexpanded (by decide)
  · exact ⟨by decide, rawRequest_formatFits _ _ _ _⟩

/-- A compression section around a section without data. -/
def nestedStream : Bytes := [13, 0, 0, 1, 4, 0, 0, 0, 0, 4, 0, 0, 0x19]

/-- The stream has been opened. -/
def nestedState : State := openSectionStreamEx State.initial nestedStream 0

/-- With the largest instance, leaving the compression section counts as a success: the stream has
no section of the type asked for, and the pointers to the section found were never set. -/
theorem getSection_largestInstance :
    ∃ trace s',
      Run (Step plainPlatform) State.initial trace nestedState ∧
        (∀ x ∈ trace, WellFormed plainPlatform x.1 x.2) ∧
        WellFormed plainPlatform nestedState (.getSection (rawRequest 0x10 (2 ^ 64 - 1))) ∧
        getSection plainPlatform 2 nestedState (rawRequest 0x10 (2 ^ 64 - 1))
          = some (⟨.success, none⟩, s') ∧
        ¬ Meets plainPlatform nestedState (rawRequest 0x10 (2 ^ 64 - 1)) ⟨.success, none⟩ := by
  have hopen : openSectionStream 1 State.initial nestedStream = some (.success, nestedState) := by
    decide
  have hwf : WellFormed plainPlatform nestedState
      (.getSection (rawRequest 0x10 (2 ^ 64 - 1))) :=
    wellFormed_of_tree 3 rfl (by decide)
  refine ⟨_, parsed plainPlatform (parsed plainPlatform nestedState 0 ⟨nestedStream, [], 0⟩ 0) 1
    ⟨[4, 0, 0, 0x19], [], 0⟩ 0, .single (.openSectionStream hopen), ?_, hwf, by decide, ?_⟩
  · intro x hx
    fin_cases hx
    trivial
  · intro hmeets
    have htree : sectionTree plainPlatform (verifyGuidedSectionGuid nestedState) 3 nestedStream 0 0
        = some (.cons (entryAt nestedStream 0 0)
          (.cons (entryAt [4, 0, 0, 0x19] 0 0) .nil .nil) .nil) := by
      decide
    have herror : EfiStatus.success.isError = true := hmeets _ 3 _ rfl htree
    exact absurd herror (by decide)

end Examples

end SectionExtraction
end Udk
