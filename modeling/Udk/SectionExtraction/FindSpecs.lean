import Udk.SectionExtraction.StreamInvariant

/-!
# What a search finds

Under the invariant, and with a counter that is not zero, `FindChildNode` is the counted search in
the tree of sections, whatever part of the tree has been parsed before.
-/

namespace Udk
namespace SectionExtraction

section Answers

variable (plat : Platform) (target : Target)

/-- The outcome of a search that finds the entry, or skips hits until the counter is `m + 1`. -/
def Answers : Entry ⊕ Nat → Outcome → Prop
  | .inl e, r =>
      r.status = .success ∧ r.sectionInstance = 0 ∧
        ∃ f stream, r.found = some f ∧ r.state.streams[f.stream]? = some stream ∧
          entryAt stream.streamBuffer f.child.offsetInStream stream.authenticationStatus = e ∧
          f.authenticationStatus = e.authenticationStatus
  | .inr m, r => r.status.isError = true ∧ r.sectionInstance = m + 1

/-- A search in the stream `handle` ends with the answer and keeps the invariant. -/
def Returns (s : State) (handle : Nat) (answer : Entry ⊕ Nat) (x : Option Outcome) : Prop :=
  ∃ r, x = some r ∧ Inv plat r.state [] ∧ Kept s r.state handle ∧ Answers answer r

/-- The walk from a child on is the counted search in the tree from its section on. -/
def WalkOk (depth : Nat) (walk : Walk) : Prop :=
  ∀ (s : State) (handle index : Nat) (errorStatus : EfiStatus) (count : Nat)
    (stream : StreamNode) (child : ChildNode) (f : Forest Entry),
    Inv plat s [] → s.streams[handle]? = some stream → stream.children[index]? = some child →
      sectionTree plat (verifyGuidedSectionGuid s) depth stream.streamBuffer child.offsetInStream
          stream.authenticationStatus = some f →
        0 < count → count < 2 ^ 64 → errorStatus.isError = true →
          Returns plat s handle (f.search (Entry.isWanted target) (count - 1))
            (walk s handle index errorStatus count)

end Answers

section Steps

variable {plat : Platform} {target : Target} {depth : Nat} {walk : Walk} {s : State}
  {handle : Nat} {stream : StreamNode} {todo : List RpnEventContext}

theorem Kept.mono
    {s' : State} {handle' : Nat}
    (h : Kept s s' handle') (hle : handle ≤ handle') :
    Kept s s' handle :=
  ⟨h.recorded, h.protocols, fun k hk => h.below k (lt_of_lt_of_le hk hle), h.grows⟩

theorem Returns.after
    {s' : State} {answer : Entry ⊕ Nat} {x : Option Outcome}
    (h : Returns plat s' handle answer x) (hkept : Kept s s' handle) :
    Returns plat s handle answer x := by
  obtain ⟨r, hr, hinv, hkept', hanswers⟩ := h
  exact ⟨r, hr, hinv, hkept.trans hkept' le_rfl, hanswers⟩

theorem returns_none
    {count : Nat} {status : EfiStatus}
    (h : Inv plat s []) (hcount : 0 < count) (hstatus : status.isError = true) :
    Returns plat s handle (.inr (count - 1)) (some ⟨status, count, none, s⟩) :=
  ⟨_, rfl, h, Kept.refl s handle, hstatus, by dsimp only; omega⟩

theorem StreamOk.childIsType
    {child : ChildNode} {index : Nat}
    (h : StreamOk plat s todo handle stream)
    (hchild : stream.children[index]? = some child) :
    childIsType target stream child =
      (entryAt stream.streamBuffer child.offsetInStream
        stream.authenticationStatus).isWanted target := by
  have htype : child.type = sectionType stream.streamBuffer child.offsetInStream := by
    rw [h.shape index child hchild]
    rfl
  unfold SectionExtraction.childIsType Entry.isWanted entryAt
  rw [htype]
  by_cases hall : target.searchType = sectionAll
  · simp only [hall, if_true, beq_self_eq_true, Bool.true_or]
  · have hall' : (target.searchType == sectionAll) = false := beq_eq_false_iff_ne.mpr hall
    rw [if_neg hall, hall', Bool.false_or]
    by_cases hsame : sectionType stream.streamBuffer child.offsetInStream = target.searchType
    · rw [if_neg (by simp [hsame]), hsame, beq_self_eq_true, Bool.true_and]
      by_cases hguided : target.searchType = sectionGuidDefined
      · rw [if_neg (by simp [hguided]), if_pos hguided, hguided]
        cases target.sectionDefinitionGuid with
        | none => rfl
        | some guid =>
            have hswap : ∀ g : Guid, (g == guid) = (guid == g) := fun g => Bool.beq_comm
            simp only [bne_self_eq_false, Option.isNone_some, Bool.or_self, Bool.false_or,
              Option.some_beq_some, hswap]
      · rw [if_pos hguided, bne_iff_ne.mpr hguided, Bool.true_or, Bool.true_or]
    · rw [if_pos hsame, beq_eq_false_iff_ne.mpr hsame, Bool.false_and]

theorem StreamOk.nextChildOffset
    {child : ChildNode} {index : Nat}
    (h : StreamOk plat s todo handle stream)
    (hchild : stream.children[index]? = some child)
    (hok : SectionOk plat stream.streamBuffer child.offsetInStream) :
    nextChildOffset child = nextOffset stream.streamBuffer child.offsetInStream := by
  have hsize : child.size = sectionSize stream.streamBuffer child.offsetInStream := by
    rw [h.shape index child hchild]
    rfl
  have hlt := hok.2.2.1
  rw [SectionExtraction.nextChildOffset, hsize, nextOffset, Nat.mod_eq_of_lt hlt]

section

variable {errorStatus : EfiStatus} {f : Forest Entry}

variable (hw : WalkOk plat target depth walk)
include hw

theorem WalkOk.parsed
    {offset count index : Nat}
    (h : Inv plat s []) (hstream : s.streams[handle]? = some stream)
    (hplace : NextPlace stream offset) (hindex : index = stream.children.length)
    (htree : sectionTree plat (verifyGuidedSectionGuid s) depth stream.streamBuffer offset
      stream.authenticationStatus = some f)
    (hcount : 0 < count) (hbound : count < 2 ^ 64) (herror : errorStatus.isError = true) :
    Returns plat s handle (f.search (Entry.isWanted target) (count - 1))
      (walk (parsed plat s handle stream offset) handle index errorStatus count) := by
  obtain ⟨hinv, hkept, node, rfl, hget⟩ := h.parsed hstream hplace
  have hchild : (stream.children ++ [node])[index]? = some node := by
    rw [hindex]
    exact List.getElem?_concat_length
  rw [← hkept.usable] at htree
  exact (hw _ handle index errorStatus count _ node f hinv hget hchild htree hcount hbound
    herror).after hkept

/-- Entering a stream searches its whole tree. -/
theorem enterStream_spec
    {count : Nat}
    (h : Inv plat s []) (hstream : s.streams[handle]? = some stream)
    (htree : sectionTree plat (verifyGuidedSectionGuid s) depth stream.streamBuffer 0
      stream.authenticationStatus = some f)
    (hcount : 0 < count) (hbound : count < 2 ^ 64) :
    Returns plat s handle (f.search (Entry.isWanted target) (count - 1))
      (enterStream plat walk s handle count) := by
  have hok := h.streams handle stream hstream
  unfold enterStream
  rw [hstream]
  dsimp only
  by_cases hempty : stream.streamBuffer.length = 0
  · rw [if_pos hempty, (sectionTree_end htree (by omega)).1]
    exact returns_none h hcount rfl
  · rw [if_neg hempty]
    by_cases hroom : stream.streamBuffer.length < 0 + 4
    · have hnil := (sectionTree_end htree hroom).2 rfl
      exact absurd (by rw [hnil]; rfl) hempty
    · by_cases hfirst : stream.children = []
      · have hsection := sectionOk_of_tree htree (by omega)
        have hplace : NextPlace stream 0 := by
          constructor
          case room => omega
          case first => exact fun _ => rfl
          case next =>
            intro i child hchild
            rw [hfirst] at hchild
            exact absurd hchild (by simp)
        rw [if_pos ⟨hfirst, by omega⟩, createChildNode_eq hsection]
        exact hw.parsed h hstream hplace (by rw [hfirst]; rfl) htree hcount hbound rfl
      · rw [if_neg (fun hboth => hfirst hboth.1)]
        obtain ⟨child, hchild⟩ : ∃ child, stream.children[0]? = some child := by
          obtain ⟨child, rest, hcons⟩ := List.exists_cons_of_ne_nil hfirst
          exact ⟨child, by rw [hcons]; rfl⟩
        rw [← hok.first child hchild] at htree
        exact hw s handle 0 .notFound count stream child f h hstream hchild htree hcount hbound rfl

/-- Behind a child, the search goes on in the tree from the next section on. -/
theorem walkOn_spec
    {index count : Nat} {child : ChildNode}
    (h : Inv plat s []) (hstream : s.streams[handle]? = some stream)
    (hchild : stream.children[index]? = some child)
    (hsection : SectionOk plat stream.streamBuffer child.offsetInStream)
    (htree : sectionTree plat (verifyGuidedSectionGuid s) depth stream.streamBuffer
      (nextOffset stream.streamBuffer child.offsetInStream) stream.authenticationStatus = some f)
    (hcount : 0 < count) (hbound : count < 2 ^ 64) (herror : errorStatus.isError = true) :
    Returns plat s handle (f.search (Entry.isWanted target) (count - 1))
      (walkOn plat walk s handle index errorStatus count) := by
  have hok := h.streams handle stream hstream
  have hoffset := hok.nextChildOffset hchild hsection
  have hlt := (List.getElem?_eq_some_iff.mp hchild).1
  rw [← hoffset] at htree
  unfold walkOn nextChild
  rw [hstream]
  dsimp only
  rw [hchild]
  dsimp only
  by_cases hmore : index + 1 < stream.children.length
  · rw [if_pos hmore]
    have hchild' := List.getElem?_eq_getElem hmore
    rw [← hok.next index child _ hchild hchild'] at htree
    exact hw s handle (index + 1) errorStatus count stream _ f h hstream hchild' htree hcount
      hbound herror
  · rw [if_neg hmore]
    by_cases hroom : nextChildOffset child + 4 ≤ stream.streamBuffer.length
    · have hplace : NextPlace stream (nextChildOffset child) := by
        constructor
        case room => exact hroom
        case first =>
          intro hnil
          rw [hnil] at hlt
          exact absurd hlt (by simp)
        case next =>
          intro i child' hchild' hlast
          have hi : i = index := by omega
          subst hi
          rw [hchild, Option.some.injEq] at hchild'
          rw [hchild']
      rw [if_pos hroom, createChildNode_eq (sectionOk_of_tree htree hroom)]
      exact hw.parsed h hstream hplace (by omega) htree hcount hbound herror
    · rw [if_neg hroom, (sectionTree_end htree (by omega)).1]
      exact returns_none h hcount herror

/-- Below and behind a child, the counter is handed through the two parts of the tree. -/
theorem walkBelow_spec
    {index count : Nat} {child : ChildNode} {inner rest : Forest Entry}
    (h : Inv plat s []) (hstream : s.streams[handle]? = some stream)
    (hchild : stream.children[index]? = some child)
    (hsection : SectionOk plat stream.streamBuffer child.offsetInStream)
    (hinner : match expansion plat (verifyGuidedSectionGuid s) stream.streamBuffer
        child.offsetInStream stream.authenticationStatus with
      | none => inner = .nil
      | some x => sectionTree plat (verifyGuidedSectionGuid s) depth x.1 0 x.2 = some inner)
    (hrest : sectionTree plat (verifyGuidedSectionGuid s) depth stream.streamBuffer
      (nextOffset stream.streamBuffer child.offsetInStream) stream.authenticationStatus
        = some rest)
    (hcount : 0 < count) (hbound : count < 2 ^ 64) (herror : errorStatus.isError = true) :
    Returns plat s handle
      (Forest.orElse (inner.search (Entry.isWanted target) (count - 1))
        fun m => rest.search (Entry.isWanted target) m)
      (walkBelow plat target walk s handle index errorStatus count child) := by
  have hok := h.streams handle stream hstream
  have hlinked : Linked s.streams handle child (expansionOf plat s stream child) := by
    rcases hok.linked index child hchild with hlinked | ⟨-, c, hc, -⟩
    · exact hlinked
    · exact absurd hc (by simp)
  unfold expansionOf at hlinked
  unfold walkBelow
  split at hinner
  case h_1 hnone =>
    rw [hnone] at hlinked
    have hhandle : child.encapsulatedStreamHandle = none := hlinked
    rw [hhandle, hinner]
    dsimp only [Forest.search]
    split
    · exact walkOn_spec hw h hstream hchild hsection hrest hcount hbound rfl
    · exact walkOn_spec hw h hstream hchild hsection hrest hcount hbound herror
  case h_2 x hsome =>
    rw [hsome] at hlinked
    obtain ⟨k, below, hhandle, hlt, hbelow, hbuffer, hstatus⟩ := hlinked
    rw [← hbuffer, ← hstatus] at hinner
    obtain ⟨r, hr, hinv, hkept, hanswers⟩ := enterStream_spec hw h hbelow hinner hcount hbound
    rw [hhandle]
    dsimp only
    rw [hr]
    dsimp only
    have hkept' := hkept.mono (le_of_lt hlt)
    cases hsearch : inner.search (Entry.isWanted target) (count - 1) with
    | inl e =>
        rw [hsearch] at hanswers
        obtain ⟨-, hzero, hfound⟩ := hanswers
        rw [if_pos hzero]
        exact ⟨_, rfl, hinv, hkept', rfl, rfl, hfound⟩
    | inr m =>
        rw [hsearch] at hanswers
        obtain ⟨hstatus', hinstance⟩ := hanswers
        have hm := Forest.search_le hsearch
        have hsame : r.state.streams[handle]? = some stream := by
          rw [hkept.below handle hlt]
          exact hstream
        rw [← hkept.usable] at hrest
        have hgo := walkOn_spec hw hinv hsame hchild hsection hrest
          (show 0 < r.sectionInstance by omega) (by omega) hstatus'
        rw [hinstance, Nat.add_sub_cancel] at hgo
        rw [hinstance, if_neg (Nat.succ_ne_zero m)]
        exact hgo.after hkept'

theorem walkTurn_spec :
    WalkOk plat target (depth + 1) (walkTurn plat target walk) := by
  intro s handle index errorStatus count stream child f h hstream hchild htree hcount hbound herror
  have hok := h.streams handle stream hstream
  obtain ⟨hsection, inner, rest, rfl, hinner, hrest⟩ :=
    sectionTree_section htree (hok.room index child hchild)
  have hdecrement : decrement count = count - 1 := by
    unfold decrement
    omega
  unfold walkTurn
  rw [hstream]
  dsimp only
  rw [hchild]
  dsimp only
  rw [hok.childIsType hchild, hdecrement, Forest.search]
  by_cases hwanted : (entryAt stream.streamBuffer child.offsetInStream
      stream.authenticationStatus).isWanted target = true
  · simp only [hwanted, Bool.true_and, if_true, beq_iff_eq]
    by_cases hlast : count - 1 = 0
    · simp only [hlast, if_true]
      exact ⟨_, rfl, h, Kept.refl s handle, rfl, rfl, _, stream, rfl, hstream, rfl, rfl⟩
    · simp only [hlast, if_false]
      exact walkBelow_spec hw h hstream hchild hsection hinner hrest (by omega) (by omega) herror
  · simp only [hwanted, Bool.false_and, Bool.false_eq_true, if_false]
    exact walkBelow_spec hw h hstream hchild hsection hinner hrest hcount hbound herror

end

theorem walkChildren_spec
    (depth : Nat) :
    WalkOk plat target depth (walkChildren plat target depth) := by
  induction depth with
  | zero =>
      intro s handle index errorStatus count stream child f _ _ _ htree
      exact absurd htree (by simp [sectionTree])
  | succ depth ih => exact walkTurn_spec ih

theorem findChildNode_spec
    {count : Nat} {f : Forest Entry}
    (h : Inv plat s []) (hstream : s.streams[handle]? = some stream)
    (htree : sectionTree plat (verifyGuidedSectionGuid s) depth stream.streamBuffer 0
      stream.authenticationStatus = some f)
    (hcount : 0 < count) (hbound : count < 2 ^ 64) :
    Returns plat s handle (f.search (Entry.isWanted target) (count - 1))
      (findChildNode plat target depth s handle count) :=
  enterStream_spec (walkChildren_spec depth) h hstream htree hcount hbound

end Steps

end SectionExtraction
end Udk
