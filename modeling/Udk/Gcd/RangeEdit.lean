import Udk.Gcd.Partition

/-!
# GCD calls edit their range

Every call of `CoreConvertSpace` or `CoreAllocateSpace` that succeeds edits what the map
records of the addresses of its range and of no other, and one that fails leaves the map
as it was.  Runs start from one entry for each space.
-/

namespace Udk
namespace Gcd

open Tiling Cell

/-- The first map with what it records edited in a range, and nowhere else. -/
def EditsRange (edit : GcdRegion → GcdRegion) (baseAddress length : UInt64)
    (map map' : GcdMap) : Prop :=
  ∀ x, labelAt map' x =
    if InBlock baseAddress length x then (labelAt map x).map edit else labelAt map x

section Split

variable {baseAddress length : UInt64} {map : GcdMap} {split : GcdSplit} {hi : Nat}
  {edit : GcdRegion → GcdRegion}

variable (h : IsWindow baseAddress length map split)
include h

/-- The converted map is a partition that shows the edited labels. -/
theorem IsWindow.convertSplit_tiles
    (hpart : Partition 0 map hi)
    (hlength : length ≠ 0)
    (hwrap : baseAddress.toNat + length.toNat ≤ 2 ^ 64) :
    Tiles (editBlock edit baseAddress length (labelAt map)) 0
      (convertSplit edit baseAddress length split) hi := by
  have hpos := length_pos hlength
  have hendNat := rangeEnd_toNat hlength hwrap
  have htiles := hpart.tiles
  rw [h.map_eq] at htiles
  obtain ⟨t, htiles, hafter⟩ := tiles_append.mp htiles
  obtain ⟨s, hbefore, hwindow⟩ := tiles_append.mp htiles
  rw [← h.map_eq] at hafter hbefore hwindow
  obtain ⟨entry, rest, hcons, hbase⟩ := h.first_contains
  obtain ⟨front, final, hsnoc, hend⟩ := h.last_contains
  rw [GcdMapEntry.contains_iff] at hbase hend
  rw [hendNat] at hend
  have hentryMem : entry ∈ split.window := by rw [hcons]; exact List.mem_cons_self
  have hfinalMem : final ∈ split.window := by rw [hsnoc]; simp
  have hentryBounds := hwindow.mem_bounds hentryMem
  have hfinalBounds := hwindow.mem_bounds hfinalMem
  have hstart : first entry = s := by
    rw [hcons] at hwindow
    exact hwindow.1
  -- before and behind the window the function is not edited
  have hbefore' : Tiles (editBlock edit baseAddress length (labelAt map)) 0 split.before s := by
    refine hbefore.congr fun x _ hx => ?_
    rw [editBlock, if_neg fun hblock : InBlock baseAddress length x => ?_]
    have := hblock.1
    omega
  have hafter' : Tiles (editBlock edit baseAddress length (labelAt map)) t split.after hi := by
    refine hafter.congr fun x hx _ => ?_
    rw [editBlock, if_neg fun hblock : InBlock baseAddress length x => ?_]
    have := hblock.2
    omega
  have hconverted : Tiles (editBlock edit baseAddress length (labelAt map)) s _ t :=
    convertWindow_tiles hlength hwrap hwindow
      (fun e es heq => by
        rw [hcons, List.cons.injEq] at heq
        rw [← heq.1]
        exact hbase.2)
      ⟨front, final, hsnoc, by omega⟩
  refine coreCleanupGcdMapEntry_tiles ?_
  have hall := hbefore'.append (hconverted.append hafter')
  simpa using hall

theorem IsWindow.range_le
    (hpart : Partition 0 map hi)
    (hlength : length ≠ 0)
    (hwrap : baseAddress.toNat + length.toNat ≤ 2 ^ 64) :
    baseAddress.toNat + length.toNat ≤ hi := by
  obtain ⟨front, final, hsnoc, hend⟩ := h.last_contains
  have hpos := length_pos hlength
  have hendNat := rangeEnd_toNat hlength hwrap
  have hmem : final ∈ map := by rw [h.map_eq, hsnoc]; simp
  have hbounds := hpart.tiles.mem_bounds hmem
  rw [GcdMapEntry.contains_iff, hendNat] at hend
  omega

theorem IsWindow.convertSplit_edits
    (hpart : Partition 0 map hi)
    (hlength : length ≠ 0)
    (hwrap : baseAddress.toNat + length.toNat ≤ 2 ^ 64) :
    Partition 0 (convertSplit edit baseAddress length split) hi ∧
      EditsRange edit baseAddress length map (convertSplit edit baseAddress length split) := by
  have htiles : Tiles (editBlock edit baseAddress length (labelAt map)) 0 _ hi :=
    h.convertSplit_tiles hpart hlength hwrap
  have hrange := h.range_le hpart hlength hwrap
  refine ⟨htiles.partition, fun x => ?_⟩
  rcases Nat.lt_or_ge x hi with hx | hx
  · exact htiles.labelAt_eq (Nat.zero_le x) hx
  · have hblock : ¬InBlock baseAddress length x := fun hblock => by
      have := hblock.2
      omega
    rw [htiles.partition.labelAt_outside hx, if_neg hblock, hpart.labelAt_outside hx]

end Split

/-- A call of one of the two workers with what it asks of its surroundings. -/
inductive GcdCall where
  | convert (request : ConvertRequest) (env : GcdEnvironment)
  | allocate (request : AllocateRequest) (env : GcdEnvironment)

/-- One call that returns. -/
inductive GcdStep : GcdState → GcdCall → GcdState → Prop
  | convert (s : GcdState) (request : ConvertRequest) (env : GcdEnvironment) :
      GcdStep s (.convert request env) (coreConvertSpace request env s).2
  | allocate {s s' : GcdState} {request : AllocateRequest} {env : GcdEnvironment} {turns : Nat}
      {status : Status} {baseAddress : Option UInt64}
      (h : coreAllocateSpace request turns env s = some (status, baseAddress, s')) :
      GcdStep s (.allocate request env) s'

/-- The range of a call does not wrap into the entry it starts in. -/
def GcdCall.InRange (s : GcdState) : GcdCall → Prop
  | .convert request _ =>
      Gcd.InRange (convertCheck request) (s.map request.operation) request.baseAddress
        request.length
  | .allocate request _ =>
      let check := coreAllocateSpaceCheckEntry request
      let map := s.map request.operation
      if request.gcdAllocateType = .address then
        ∀ baseAddress, request.baseAddress = some baseAddress →
          Gcd.InRange check map baseAddress request.length
      else if request.gcdAllocateType.isTopDown then True
      else
        ∀ entry ∈ map, check entry.toGcdRegion = .success →
          Gcd.InRange check map (bottomUpBase request entry) request.length

/-- What holds of the outcome of a call. -/
def Outcome (s : GcdState) : GcdCall → Prop
  | .convert request env =>
      let result := coreConvertSpace request env s
      if result.1 = .success then
        ∃ map, result.2 = s.setMap request.operation map ∧
          EditsRange (convertEdit request) request.baseAddress request.length
            (s.map request.operation) map
      else result.2 = s
  | .allocate request env =>
      ∀ turns status baseAddress s',
        coreAllocateSpace request turns env s = some (status, baseAddress, s') →
        if status = .success then
          ∃ base map, baseAddress = some base ∧ s' = s.setMap request.operation map ∧
            EditsRange (allocateEdit request) base request.length (s.map request.operation) map
        else s' = s

/-- Both maps partition their spaces. -/
structure Partitions (memorySize ioSize : Nat) (s : GcdState) : Prop where
  memory : Partition 0 s.memorySpaceMap memorySize
  io : Partition 0 s.ioSpaceMap ioSize

namespace GcdState

variable {s : GcdState} {operation : GcdOperation}

/-- The size of the space of an operation. -/
def size (memorySize ioSize : Nat) (operation : GcdOperation) : Nat :=
  if operation.isMemory then memorySize else ioSize

theorem size_le
    {memorySize ioSize bound : Nat}
    (hmemory : memorySize ≤ bound)
    (hio : ioSize ≤ bound)
    (operation : GcdOperation) :
    size memorySize ioSize operation ≤ bound := by
  rw [size]
  split
  · exact hmemory
  · exact hio

end GcdState

theorem Partitions.map
    {s : GcdState} {memorySize ioSize : Nat}
    (h : Partitions memorySize ioSize s)
    (operation : GcdOperation) :
    Partition 0 (s.map operation) (GcdState.size memorySize ioSize operation) := by
  rw [GcdState.map, GcdState.size]
  split
  · exact h.memory
  · exact h.io

theorem Partitions.setMap
    {s : GcdState} {memorySize ioSize : Nat}
    (h : Partitions memorySize ioSize s)
    {operation : GcdOperation} {map : GcdMap}
    (hmap : Partition 0 map (GcdState.size memorySize ioSize operation)) :
    Partitions memorySize ioSize (s.setMap operation map) := by
  rw [GcdState.size] at hmap
  rw [GcdState.setMap]
  split
  case isTrue hop =>
    rw [if_pos hop] at hmap
    exact ⟨hmap, h.io⟩
  case isFalse hop =>
    rw [if_neg hop] at hmap
    exact ⟨h.memory, hmap⟩

section Convert

variable {request : ConvertRequest} {env : GcdEnvironment} {s : GcdState}

/-- A call of `CoreConvertSpace` fails and changes nothing, or it converts the window of
its range. -/
theorem coreConvertSpace_cases :
    (coreConvertSpace request env s).1 ≠ .success ∧ (coreConvertSpace request env s).2 = s ∨
    request.length ≠ 0 ∧ ∃ split,
      coreSearchGcdMapEntry request.baseAddress request.length (s.map request.operation) =
        some split ∧
      checkWindow (convertCheck request) split.window = .success ∧
      coreConvertSpace request env s = (.success, s.setMap request.operation
        (convertSplit (convertEdit request) request.baseAddress request.length split)) := by
  rw [coreConvertSpace]
  by_cases hlength : request.length = 0
  · left
    simp [hlength]
  rw [if_neg hlength]
  cases hsearch : coreSearchGcdMapEntry request.baseAddress request.length
      (s.map request.operation) with
  | none =>
      left
      exact ⟨Status.noConfusion, rfl⟩
  | some split =>
      simp only
      cases hcheck : checkWindow (convertCheck request) split.window with
      | success =>
          cases hentries : env.allocateEntries with
          | false =>
              left
              exact ⟨Status.noConfusion, rfl⟩
          | true =>
              cases hcpu : setCpuAttributes request env with
              | success =>
                  right
                  exact ⟨hlength, split, rfl, hcheck, rfl⟩
              | _ =>
                  left
                  exact ⟨Status.noConfusion, rfl⟩
      | _ =>
          left
          exact ⟨Status.noConfusion, rfl⟩

variable {memorySize ioSize : Nat}

theorem Partitions.convert
    (h : Partitions memorySize ioSize s)
    (hrange : GcdCall.InRange s (.convert request env)) :
    Partitions memorySize ioSize (coreConvertSpace request env s).2 ∧
      Outcome s (.convert request env) := by
  rcases @coreConvertSpace_cases request env s with ⟨hfail, hsame⟩ |
    ⟨hlength, split, hsearch, hcheck, hresult⟩
  · refine ⟨by rw [hsame]; exact h, ?_⟩
    simp only [Outcome, if_neg hfail]
    exact hsame
  · have hpart := h.map request.operation
    have hwindow := coreSearchGcdMapEntry_isWindow hsearch
    have hwrap := hwindow.noWrap hpart hlength hrange (checkWindow_success hcheck)
    have hconverted : _ ∧ EditsRange (convertEdit request) _ _ _ _ :=
      hwindow.convertSplit_edits hpart hlength hwrap
    refine ⟨?_, ?_⟩
    · rw [hresult]
      exact h.setMap hconverted.1
    · simp only [Outcome, hresult, if_true]
      exact ⟨_, rfl, hconverted.2⟩

end Convert

section Allocate

variable {request : AllocateRequest} {env : GcdEnvironment} {s : GcdState}
  {map : GcdMap} {baseAddress maxAddress : UInt64} {split : GcdSplit} {turns : Nat}
  {base : UInt64} {status : Status} {answer : Option UInt64}

/-- The search ends with the window of a candidate whose entries all pass the check. -/
theorem allocateSearch_found
    {link : Option Nat}
    (h : allocateSearch request map maxAddress turns link = some (.found baseAddress split)) :
    coreSearchGcdMapEntry baseAddress request.length map = some split ∧
      (∀ entry ∈ split.window,
        coreAllocateSpaceCheckEntry request entry.toGcdRegion = .success) ∧
      ∃ entry ∈ map, coreAllocateSpaceCheckEntry request entry.toGcdRegion = .success ∧
        candidate request maxAddress entry = .base baseAddress := by
  induction turns generalizing link with
  | zero => simp [allocateSearch] at h
  | succ turns ih =>
      cases link with
      | none => simp [allocateSearch] at h
      | some link =>
          rw [allocateSearch] at h
          cases hentry : map[link]? with
          | none => simp [hentry] at h
          | some entry =>
              simp only [hentry] at h
              split at h
              case h_1 hcheck =>
                split at h
                case h_1 => exact ih h
                case h_2 => simp at h
                case h_3 base hbase =>
                  split at h
                  case h_1 => simp at h
                  case h_2 found hsearch =>
                    split at h
                    case h_1 hpass =>
                      simp only [Option.some.injEq, Placement.found.injEq] at h
                      obtain ⟨rfl, rfl⟩ := h
                      refine ⟨hsearch, fun e he => ?_, entry, List.mem_of_getElem? hentry,
                        hcheck, hbase⟩
                      rw [List.findIdx?_eq_none_iff] at hpass
                      simpa using hpass e he
                    case h_2 => exact ih h
              case h_2 => exact ih h

theorem allocatePlace_found
    (h : allocatePlace request turns map base = some (.found baseAddress split)) :
    coreSearchGcdMapEntry baseAddress request.length map = some split ∧
      (∀ entry ∈ split.window,
        coreAllocateSpaceCheckEntry request entry.toGcdRegion = .success) ∧
      (request.gcdAllocateType = .address ∧ baseAddress = base ∨
        request.gcdAllocateType ≠ .address ∧ ∃ limit, ∃ entry ∈ map,
          coreAllocateSpaceCheckEntry request entry.toGcdRegion = .success ∧
          candidate request limit entry = .base baseAddress) := by
  rw [allocatePlace] at h
  split at h
  case isTrue haddress =>
    split at h
    case isTrue => simp at h
    case isFalse =>
      split at h
      case h_1 => simp at h
      case h_2 found hsearch =>
        split at h
        case h_1 hcheck =>
          simp only [Option.some.injEq, Placement.found.injEq] at h
          obtain ⟨rfl, rfl⟩ := h
          exact ⟨hsearch, checkWindow_success hcheck, Or.inl ⟨haddress, rfl⟩⟩
        case h_2 => simp at h
  case isFalse haddress =>
    split at h
    case h_1 => simp at h
    case h_2 final _ =>
      obtain ⟨hsearch, hpass, entry, hentry, hcheck, hbase⟩ := allocateSearch_found h
      exact ⟨hsearch, hpass, Or.inr ⟨haddress, _, entry, hentry, hcheck, hbase⟩⟩

theorem allocateSearch_failed
    {link : Option Nat}
    (h : allocateSearch request map maxAddress turns link = some (.failed status)) :
    status ≠ .success := by
  induction turns generalizing link with
  | zero => simp [allocateSearch] at h
  | succ turns ih =>
      cases link with
      | none =>
          simp only [allocateSearch, Option.some.injEq, Placement.failed.injEq] at h
          exact h ▸ Status.noConfusion
      | some link =>
          have hnotFound : some (Placement.failed .notFound) = some (.failed status) →
              status ≠ .success := by
            intro heq
            simp only [Option.some.injEq, Placement.failed.injEq] at heq
            exact heq ▸ Status.noConfusion
          rw [allocateSearch] at h
          split at h
          case h_1 => exact hnotFound h
          case h_2 =>
            split at h
            case h_1 =>
              split at h
              case h_1 => exact ih h
              case h_2 => exact hnotFound h
              case h_3 =>
                split at h
                case h_1 => exact hnotFound h
                case h_2 =>
                  split at h
                  case h_1 => simp at h
                  case h_2 => exact ih h
            case h_2 => exact ih h

theorem allocatePlace_failed
    (h : allocatePlace request turns map base = some (.failed status)) :
    status ≠ .success := by
  have hnotFound : some (Placement.failed .notFound) = some (.failed status) →
      status ≠ .success := by
    intro heq
    simp only [Option.some.injEq, Placement.failed.injEq] at heq
    exact heq ▸ Status.noConfusion
  rw [allocatePlace] at h
  split at h
  case isTrue =>
    split at h
    case isTrue => exact hnotFound h
    case isFalse =>
      split at h
      case h_1 => exact hnotFound h
      case h_2 =>
        split at h
        case h_1 => simp at h
        case h_2 hcheck =>
          simp only [Option.some.injEq, Placement.failed.injEq] at h
          exact h ▸ hcheck
  case isFalse =>
    split at h
    case h_1 => exact hnotFound h
    case h_2 => exact allocateSearch_failed h

theorem allocateParameters_success
    (h : allocateParameters request = .success) :
    request.gcdAllocateType ≠ .other ∧ request.length ≠ 0 ∧
      ∃ base, request.baseAddress = some base := by
  simp only [allocateParameters] at h
  split_ifs at h with htype hmemory hio hbase himage halign hlength
  exact ⟨htype, hlength, Option.ne_none_iff_exists'.mp hbase⟩

/-- A call of `CoreAllocateSpace` fails and changes nothing, or it converts the window of
the place it found. -/
theorem coreAllocateSpace_cases
    {s' : GcdState}
    (h : coreAllocateSpace request turns env s = some (status, answer, s')) :
    status ≠ .success ∧ s' = s ∨
    request.length ≠ 0 ∧ ∃ base baseAddress split, request.baseAddress = some base ∧
      allocatePlace request turns (s.map request.operation) base =
        some (.found baseAddress split) ∧
      status = .success ∧ answer = some baseAddress ∧
      s' = s.setMap request.operation
        (convertSplit (allocateEdit request) baseAddress request.length split) := by
  rw [coreAllocateSpace] at h
  split at h
  case h_1 base hparameters hbase =>
    have hlength := (allocateParameters_success hparameters).2.1
    rw [Option.map_eq_some_iff] at h
    obtain ⟨place, hplace, h⟩ := h
    cases place with
    | failed reason =>
        left
        simp only [Prod.mk.injEq] at h
        exact ⟨h.1 ▸ allocatePlace_failed hplace, h.2.2.symm⟩
    | found baseAddress split =>
        simp only at h
        split at h
        case isTrue =>
          left
          simp only [Prod.mk.injEq] at h
          exact ⟨h.1 ▸ Status.noConfusion, h.2.2.symm⟩
        case isFalse =>
          right
          simp only [Prod.mk.injEq] at h
          exact ⟨hlength, base, baseAddress, split, hbase, hplace, h.1.symm, h.2.1.symm,
            h.2.2.symm⟩
  case h_2 hfail =>
    left
    simp only [Option.some.injEq, Prod.mk.injEq] at h
    refine ⟨fun hsuccess => ?_, h.2.2.symm⟩
    have hparameters := h.1.trans hsuccess
    obtain ⟨-, -, base, hbase⟩ := allocateParameters_success hparameters
    exact hfail base hparameters hbase

theorem candidate_topDown_noWrap
    {entry : GcdMapEntry} {hi : Nat}
    (hpart : Partition 0 map hi)
    (hsize : hi ≤ 2 ^ 63)
    (hentry : entry ∈ map)
    (htop : request.gcdAllocateType.isTopDown = true)
    (h : candidate request maxAddress entry = .base baseAddress) :
    baseAddress.toNat + request.length.toNat ≤ 2 ^ 64 := by
  have hbounds := hpart.tiles.mem_bounds hentry
  simp only [first_eq, last_eq] at hbounds
  have hone : (1 : UInt64).toNat = 1 := rfl
  simp only [candidate, htop, if_true] at h
  split_ifs at h with hmax hstop
  simp only [Candidate.base.injEq] at h
  rw [gt_iff_lt, UInt64.lt_iff_toNat_lt, UInt64.toNat_add, hone] at hstop
  rw [gt_iff_lt, UInt64.lt_iff_toNat_lt, UInt64.toNat_add] at hmax
  have hmask : baseAddress.toNat ≤
      ((if entry.endAddress > maxAddress then maxAddress else entry.endAddress) + 1 -
        request.length).toNat := by
    rw [← h, topDownBase, UInt64.toNat_and]
    exact Nat.and_le_left
  split at hmask
  case isTrue hlimit =>
    have hlimit' := UInt64.lt_iff_toNat_lt.mp hlimit
    rw [UInt64.toNat_sub, UInt64.toNat_add, hone] at hmask
    omega
  case isFalse hlimit =>
    rw [UInt64.toNat_sub, UInt64.toNat_add, hone] at hmask
    omega

variable {memorySize ioSize : Nat}

theorem allocatePlace_noWrap
    {hi : Nat}
    (hpart : Partition 0 (s.map request.operation) hi)
    (hsize : hi ≤ 2 ^ 63)
    (hrange : GcdCall.InRange s (.allocate request env))
    (hbase : request.baseAddress = some base)
    (hlength : request.length ≠ 0)
    (hplace : allocatePlace request turns (s.map request.operation) base =
      some (.found baseAddress split)) :
    IsWindow baseAddress request.length (s.map request.operation) split ∧
      baseAddress.toNat + request.length.toNat ≤ 2 ^ 64 := by
  obtain ⟨hsearch, hpass, hwhere⟩ := allocatePlace_found hplace
  have hwindow := coreSearchGcdMapEntry_isWindow hsearch
  refine ⟨hwindow, ?_⟩
  simp only [GcdCall.InRange] at hrange
  rcases hwhere with ⟨haddress, rfl⟩ | ⟨haddress, limit, entry, hentry, hcheck, hcandidate⟩
  · rw [if_pos haddress] at hrange
    exact hwindow.noWrap hpart hlength (hrange baseAddress hbase) hpass
  · rw [if_neg haddress] at hrange
    cases htop : request.gcdAllocateType.isTopDown with
    | true => exact candidate_topDown_noWrap hpart hsize hentry htop hcandidate
    | false =>
        rw [htop, if_neg Bool.false_ne_true] at hrange
        have hbottomUp : bottomUpBase request entry = baseAddress := by
          simp only [candidate, htop, Bool.false_eq_true, if_false] at hcandidate
          split_ifs at hcandidate
          exact Candidate.base.inj hcandidate
        rw [← hbottomUp] at hwindow ⊢
        exact hwindow.noWrap hpart hlength (hrange entry hentry hcheck) hpass

theorem Partitions.allocate
    {s' : GcdState}
    (h : Partitions memorySize ioSize s)
    (hmemory : memorySize ≤ 2 ^ 63)
    (hio : ioSize ≤ 2 ^ 63)
    (hrange : GcdCall.InRange s (.allocate request env))
    (hcall : coreAllocateSpace request turns env s = some (status, answer, s')) :
    Partitions memorySize ioSize s' ∧
      if status = .success then
        ∃ base map, answer = some base ∧ s' = s.setMap request.operation map ∧
          EditsRange (allocateEdit request) base request.length (s.map request.operation) map
      else s' = s := by
  rcases coreAllocateSpace_cases hcall with ⟨hfail, hsame⟩ |
    ⟨hlength, base, baseAddress, split, hbase, hplace, hstatus, hanswer, hresult⟩
  · refine ⟨by rw [hsame]; exact h, ?_⟩
    rw [if_neg hfail]
    exact hsame
  · have hpart := h.map request.operation
    have hsize := GcdState.size_le hmemory hio request.operation
    obtain ⟨hwindow, hwrap⟩ := allocatePlace_noWrap hpart hsize hrange hbase hlength hplace
    have hconverted : _ ∧ EditsRange (allocateEdit request) _ _ _ _ :=
      hwindow.convertSplit_edits hpart hlength hwrap
    refine ⟨?_, ?_⟩
    · rw [hresult]
      exact h.setMap hconverted.1
    · rw [if_pos hstatus]
      exact ⟨baseAddress, _, hanswer, hresult, hconverted.2⟩

end Allocate

section Run

variable {s s' : GcdState} {trace : List (GcdState × GcdCall)} {memorySize ioSize : Nat}
  {call : GcdCall}

theorem Partitions.step
    (h : Partitions memorySize ioSize s)
    (hmemory : memorySize ≤ 2 ^ 63)
    (hio : ioSize ≤ 2 ^ 63)
    (hrange : call.InRange s)
    (hstep : GcdStep s call s') :
    Partitions memorySize ioSize s' := by
  cases hstep with
  | convert request env => exact (h.convert hrange).1
  | allocate hcall => exact (h.allocate hmemory hio hrange hcall).1

theorem Partitions.outcome
    (h : Partitions memorySize ioSize s)
    (hmemory : memorySize ≤ 2 ^ 63)
    (hio : ioSize ≤ 2 ^ 63)
    (hrange : call.InRange s) :
    Outcome s call := by
  cases call with
  | convert request env => exact (h.convert hrange).2
  | allocate request env =>
      intro turns status baseAddress s' hcall
      exact (h.allocate hmemory hio hrange hcall).2

/-- The maps of `CoreInitializeGcdServices`: an entry for each space, of `2 ^ n` addresses. -/
def initialGcdState (sizeOfMemorySpace sizeOfIoSpace : Nat) : GcdState where
  memorySpaceMap := [⟨gcdTemplate, 0, UInt64.ofNat (2 ^ sizeOfMemorySpace - 1)⟩]
  ioSpaceMap := [⟨gcdTemplate, 0, UInt64.ofNat (2 ^ sizeOfIoSpace - 1)⟩]

theorem partition_initial
    {n : Nat}
    (hn : n < 64) :
    Partition 0 [(⟨gcdTemplate, 0, UInt64.ofNat (2 ^ n - 1)⟩ : GcdMapEntry)] (2 ^ n) := by
  have hpow : 2 ^ n ≤ 2 ^ 63 := Nat.pow_le_pow_right (by omega) (by omega)
  have hpos : 0 < 2 ^ n := Nat.two_pow_pos n
  have hlast : (UInt64.ofNat (2 ^ n - 1)).toNat = 2 ^ n - 1 := by
    rw [UInt64.toNat_ofNat', Nat.mod_eq_of_lt (by omega)]
  refine ⟨rfl, Nat.zero_le _, ?_⟩
  show (UInt64.ofNat (2 ^ n - 1)).toNat + 1 = 2 ^ n
  omega

/-- In every run whose ranges do not wrap into the entry they start in, both maps stay
partitions, and each call edits its range or nothing. -/
theorem gcdMaps_partition
    {sizeOfMemorySpace sizeOfIoSpace : Nat}
    (hmemory : sizeOfMemorySpace < 64)
    (hio : sizeOfIoSpace < 64)
    (hrun : Run GcdStep (initialGcdState sizeOfMemorySpace sizeOfIoSpace) trace s)
    (hrange : ∀ x ∈ trace, x.2.InRange x.1) :
    Partitions (2 ^ sizeOfMemorySpace) (2 ^ sizeOfIoSpace) s ∧
      ∀ call : GcdCall, call.InRange s → Outcome s call := by
  have hmemory' : 2 ^ sizeOfMemorySpace ≤ 2 ^ 63 := Nat.pow_le_pow_right (by omega) (by omega)
  have hio' : 2 ^ sizeOfIoSpace ≤ 2 ^ 63 := Nat.pow_le_pow_right (by omega) (by omega)
  have hinit : Partitions (2 ^ sizeOfMemorySpace) (2 ^ sizeOfIoSpace)
      (initialGcdState sizeOfMemorySpace sizeOfIoSpace) :=
    ⟨partition_initial hmemory, partition_initial hio⟩
  have hs := hrun.invariant
    (fun _ _ _ hI hok hstep => Partitions.step hI hmemory' hio' hok hstep) hrange hinit
  exact ⟨hs, fun _ hcall => hs.outcome hmemory' hio' hcall⟩

/-- A request to add memory. -/
def sampleAdd (baseAddress length : UInt64) : ConvertRequest where
  operation := .addMemory
  gcdMemoryType := 2
  gcdIoType := 0
  baseAddress := baseAddress
  length := length
  capabilities := 0
  attributes := 0

/-- The pool has room; there is no CPU protocol. -/
def sampleEnvironment : GcdEnvironment := ⟨true, none⟩

theorem gcdMaps_partition_sample :
    Partitions (2 ^ 36) (2 ^ 16)
        (coreConvertSpace (sampleAdd 0x2000 0x1000) sampleEnvironment
          (initialGcdState 36 16)).2 ∧
      ∀ call : GcdCall,
        call.InRange (coreConvertSpace (sampleAdd 0x2000 0x1000) sampleEnvironment
          (initialGcdState 36 16)).2 →
        Outcome (coreConvertSpace (sampleAdd 0x2000 0x1000) sampleEnvironment
          (initialGcdState 36 16)).2 call :=
  gcdMaps_partition (by decide) (by decide)
    (.single (.convert (initialGcdState 36 16) (sampleAdd 0x2000 0x1000) sampleEnvironment))
    (fun _ hx => by
      rw [List.mem_singleton.mp hx]
      exact Or.inl (by decide))

/-- A range of `2 ^ 64 - 0x1000` bytes from `0x2000` on ends, modulo `2 ^ 64`, in the entry
of its base address: the entry is left with its end below its base. -/
theorem wrappedRange_breaksMap :
    ¬∀ sizeOfMemorySpace sizeOfIoSpace trace s, sizeOfMemorySpace < 64 → sizeOfIoSpace < 64 →
      Run GcdStep (initialGcdState sizeOfMemorySpace sizeOfIoSpace) trace s →
      Partitions (2 ^ sizeOfMemorySpace) (2 ^ sizeOfIoSpace) s ∧
        ∀ call : GcdCall, Outcome s call := by
  intro h
  have hrun := h 36 16 _ _ (by decide) (by decide)
    (.single (.convert (initialGcdState 36 16) (sampleAdd 0x2000 0xfffffffffffff000)
      sampleEnvironment))
  have hmap : (coreConvertSpace (sampleAdd 0x2000 0xfffffffffffff000) sampleEnvironment
      (initialGcdState 36 16)).2.memorySpaceMap =
      [⟨gcdTemplate, 0, 0x1fff⟩,
        ⟨{ gcdTemplate with gcdMemoryType := 2, capabilities := efiMemoryRuntime },
          0x2000, 0xfff⟩,
        ⟨gcdTemplate, 0x1000, 0xfffffffff⟩] := by
    decide
  have hpart := hrun.1.memory
  rw [hmap] at hpart
  obtain ⟨-, -, -, hle, -⟩ := hpart
  exact absurd hle (by decide)

end Run

end Gcd
end Udk
