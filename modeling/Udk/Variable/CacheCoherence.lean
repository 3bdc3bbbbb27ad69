import Udk.Variable.AtRest

/-!
# Cache coherence

Every write site of the driver changes flash and the memory cache with two separate
statements.  On flash that takes the bytes it is given the two stay equal, but for
`RecordVarErrorFlag`: it programs the old flag with new bits cleared and caches the new
bits alone.
-/

namespace Udk
namespace Variable

open List

section Memory

theorem take_copyMem (mem bs : Bytes) {k offset : Nat} (h : k ≤ offset) :
    (copyMem mem offset bs).take k = mem.take k := by
  apply ext_getElem?
  intro i
  rw [getElem?_take, getElem?_take, copyMem, overlay_getElem?]
  split_ifs with h1 h2
  · omega
  · rfl
  · rfl

theorem storeSize_take (store : Bytes) {k : Nat} (h : 20 ≤ k) :
    storeSize (store.take k) = storeSize store := by
  rw [storeSize, storeSize, field, field, slice, slice, drop_take, take_take,
    Nat.min_eq_left (by omega)]

theorem storeSize_copyMem (store bs : Bytes) {offset : Nat} (h : storeHeaderSize ≤ offset) :
    storeSize (copyMem store offset bs) = storeSize store := by
  have h20 : 20 ≤ offset := le_trans (by decide) h
  rw [← storeSize_take _ h20, take_copyMem _ _ le_rfl, storeSize_take _ h20]

theorem copyMem_recordWrites (mem next : Bytes) (offset : Nat) {k : Nat} (hk : 2 < k)
    (hlen : k ≤ next.length) (s s' : UInt8) :
    copyMem (copyMem (copyMem (copyMem mem offset (next.take k)) (offset + 2) [s]) (offset + k)
        (next.drop k)) (offset + 2) [s'] =
      copyMem mem offset (next.set 2 s') := by
  apply ext_getElem?
  intro i
  simp only [copyMem, overlay_getElem?, length_take, length_drop, length_singleton,
    length_set, Nat.min_eq_left hlen, getElem?_take, getElem?_drop,
    getElem?_set]
  by_cases hi : offset ≤ i ∧ i < offset + next.length
  · rw [if_pos hi]
    by_cases h2 : i = offset + 2
    · subst h2
      have hlt : 2 < next.length := by omega
      cases mem[offset + 2]? with
      | none => simp
      | some b =>
          have hk' : ¬(k ≤ 2 ∧ offset + 2 < offset + k + (next.length - k)) := by omega
          simp [hlt, hk, hk']
    · rw [if_neg (show ¬(offset + 2 ≤ i ∧ i < offset + 2 + 1) by omega)]
      have hne : ¬2 = i - offset := by omega
      simp only [hne, if_false]
      by_cases hfront : i < offset + k
      · rw [if_neg (show ¬(offset + k ≤ i ∧ i < offset + k + (next.length - k)) by omega),
          if_neg (show ¬(offset + 2 ≤ i ∧ i < offset + 2 + 1) by omega), if_pos (by omega),
          if_pos (by omega)]
      · rw [if_pos (by omega), if_neg (show ¬(offset + 2 ≤ i ∧ i < offset + 2 + 1) by omega),
          if_neg (by omega), show k + (i - (offset + k)) = i - offset by omega]
  · rw [if_neg hi, if_neg (by omega), if_neg (by omega), if_neg (by omega), if_neg (by omega)]

end Memory

section Search

variable {authFormat : Bool} {store : Bytes}

theorem le_of_mem_walkFrom {endPtr fuel ptr p : Nat}
    (h : p ∈ walkFrom authFormat store endPtr fuel ptr) : ptr ≤ p := by
  induction fuel generalizing ptr with
  | zero => cases h
  | succ fuel ih =>
      rw [walkFrom] at h
      split_ifs at h
      · rcases mem_cons.mp h with rfl | h
        · exact le_rfl
        · have := ih h
          have := lt_getNextVariablePtr authFormat store ptr
          omega
      · cases h

theorem le_walkFromEnd {endPtr : Nat} (fuel ptr : Nat) :
    ptr ≤ walkFromEnd authFormat store endPtr fuel ptr := by
  induction fuel generalizing ptr with
  | zero => exact le_rfl
  | succ fuel ih =>
      rw [walkFromEnd]
      split_ifs
      · have := ih (getNextVariablePtr authFormat store ptr)
        have := lt_getNextVariablePtr authFormat store ptr
        omega
      · exact le_rfl

theorem le_of_findVariableEx {name : Char16Str} {guid : Guid} {ignoreRtCheck atRuntime : Bool}
    {p : Nat}
    (h : (findVariableEx authFormat store name guid ignoreRtCheck atRuntime).1 = some p ∨
      (findVariableEx authFormat store name guid ignoreRtCheck atRuntime).2 = some p) :
    storeHeaderSize ≤ p := by
  have hmem : p ∈ storeWalk authFormat store := by
    rcases h with h | h
    · exact (VersionLog.current_mem _ _ h).1
    · rcases VersionLog.scan_snd_mem _ _ h with ⟨hmem, -⟩ | hnone
      · exact hmem
      · cases hnone
  exact le_of_mem_walkFrom hmem

variable {P : Platform} {d : Driver}

/-- Pointers of a track lie behind the store header. -/
structure InStore (track : PointerTrack) : Prop where
  curr : ∀ p, track.currPtr = some p → storeHeaderSize ≤ p
  inTransition : ∀ p, track.inDeletedTransitionPtr = some p → storeHeaderSize ≤ p

theorem inStore_findVariableIn (P : Platform) (d : Driver) (name : Char16Str) (guid : Guid)
    (ignoreRtCheck : Bool) (type : StoreType) :
    InStore (findVariableIn P d name guid ignoreRtCheck type) := by
  unfold findVariableIn
  cases d.searchedStore type with
  | none => exact ⟨fun _ hp => (nomatch hp), fun _ hp => (nomatch hp)⟩
  | some store =>
      exact ⟨fun _ hp => le_of_findVariableEx (Or.inl hp),
        fun _ hp => le_of_findVariableEx (Or.inr hp)⟩

theorem inStore_findVariable (P : Platform) (d : Driver) (name : Char16Str) (guid : Guid)
    (ignoreRtCheck : Bool) : InStore (findVariable P d name guid ignoreRtCheck) := by
  unfold findVariable
  dsimp only
  split_ifs <;> exact inStore_findVariableIn P d name guid ignoreRtCheck _

theorem inStore_redirectHob {req : UpdateRequest} {cacheVariable track : PointerTrack}
    (hcache : InStore cacheVariable) (h : redirectHob P d req cacheVariable = some track) :
    InStore track := by
  unfold redirectHob at h
  dsimp only at h
  split_ifs at h with h1 h2
  · cases h
    exact inStore_findVariableIn P d _ _ _ _
  · cases h
    exact hcache

end Search

section Buffer

theorem foldl_extends {step : ReclaimBuffer → Nat → ReclaimBuffer}
    (hstep : ∀ b p, ∃ more, (step b p).bytes = b.bytes ++ more) (ptrs : List Nat)
    (buffer : ReclaimBuffer) :
    ∃ more, (ptrs.foldl step buffer).bytes = buffer.bytes ++ more := by
  induction ptrs generalizing buffer with
  | nil => exact ⟨[], by simp⟩
  | cons p ptrs ih =>
      obtain ⟨first, hfirst⟩ := hstep buffer p
      obtain ⟨more, hmore⟩ := ih (step buffer p)
      exact ⟨first ++ more, by rw [foldl_cons, hmore, hfirst, append_assoc]⟩

theorem reclaimBuffer_header {P : Platform} {d : Driver} {isVolatile : Bool} {store : Bytes}
    {updating updatingInTransition : Option Nat} {new : Option Bytes} {buffer : ReclaimBuffer}
    (h : reclaimBuffer P d isVolatile store updating updatingInTransition new = some buffer) :
    ∃ more, buffer.bytes = slice store 0 storeHeaderSize ++ more := by
  obtain ⟨first, hfirst⟩ : ∃ more, (reinstallAdded P d store updating
      ⟨slice store 0 storeHeaderSize, ⟨0, 0, 0⟩⟩).bytes =
        slice store 0 storeHeaderSize ++ more := by
    unfold reinstallAdded
    apply foldl_extends
    intro b p
    split_ifs
    · exact ⟨_, rfl⟩
    · exact ⟨[], by simp⟩
  obtain ⟨second, hsecond⟩ : ∃ more,
      (reinstall P d store updating updatingInTransition).bytes =
        (reinstallAdded P d store updating
          ⟨slice store 0 storeHeaderSize, ⟨0, 0, 0⟩⟩).bytes ++ more := by
    unfold reinstall reinstallInTransition
    apply foldl_extends
    intro b p
    split_ifs
    · exact ⟨_, rfl⟩
    · exact ⟨[], by simp⟩
  rw [hfirst, append_assoc] at hsecond
  unfold reclaimBuffer installNew at h
  cases new with
  | none =>
      cases h
      exact ⟨_, hsecond⟩
  | some new =>
      dsimp only at h
      split_ifs at h
      cases h
      exact ⟨first ++ second ++ new.set 2 varAdded, by simp [hsecond]⟩

theorem storeSize_validBuffer {store more : Bytes} {size : Nat}
    (hlen : storeHeaderSize ≤ store.length) (hsize : storeHeaderSize ≤ size) :
    (validBuffer size (slice store 0 storeHeaderSize ++ more)).length = size ∧
      storeSize (validBuffer size (slice store 0 storeHeaderSize ++ more)) = storeSize store := by
  have hheader : (slice store 0 storeHeaderSize).length = storeHeaderSize := by
    rw [slice, drop_zero, length_take, Nat.min_eq_left hlen]
  constructor
  · rw [validBuffer, length_take, length_append, length_replicate]
    omega
  · have hfront : (validBuffer size (slice store 0 storeHeaderSize ++ more)).take storeHeaderSize =
        store.take storeHeaderSize := by
      rw [validBuffer, take_take, Nat.min_eq_left hsize, append_assoc,
        take_left' hheader, slice, drop_zero]
    rw [← storeSize_take _ (show 20 ≤ storeHeaderSize by decide), hfront,
      storeSize_take _ (by decide)]

end Buffer

section Coherent

variable {P : Platform} {d d' : Driver}

/-- The cache is a copy of flash. -/
structure Coherent (P : Platform) (d : Driver) : Prop where
  cache_eq : d.mNvVariableCache = d.flash
  length_eq : d.flash.length = P.storeLength
  size_eq : storeSize d.flash = P.storeLength
  last_ge : storeHeaderSize ≤ d.nonVolatileLastVariableOffset

/-- A coherent driver whose block writes succeed. -/
structure CoherentWorks (P : Platform) (d : Driver) : Prop where
  coherent : Coherent P d
  fvb : d.faults.fvb = []

theorem Coherent.congr (h : Coherent P d) (hflash : d'.flash = d.flash)
    (hcache : d'.mNvVariableCache = d.mNvVariableCache)
    (hlast : d'.nonVolatileLastVariableOffset = d.nonVolatileLastVariableOffset) :
    Coherent P d' :=
  ⟨by rw [hcache, hflash, h.cache_eq], by rw [hflash, h.length_eq], by rw [hflash, h.size_eq],
    by rw [hlast]; exact h.last_ge⟩

theorem SameNv.coherentWorks (hsame : SameNv d d') (h : CoherentWorks P d) : CoherentWorks P d' :=
  ⟨h.coherent.congr hsame.flash hsame.cache hsame.last, hsame.fvb.trans h.fvb⟩

theorem coherent_copyBackCache (hlen : d.flash.length = P.storeLength)
    (hcache : d.mNvVariableCache.length = P.storeLength)
    (hsize : storeSize d.flash = P.storeLength)
    (hlast : storeHeaderSize ≤ d.nonVolatileLastVariableOffset) :
    Coherent P (copyBackCache d) := by
  rw [copyBackCache_eq hlen hcache hsize]
  exact ⟨rfl, hlen, hsize, hlast⟩

/-- A reclaim leaves the cache a copy of flash, whether it succeeds or not. -/
theorem Coherent.reclaim (h : Coherent P d) (isVolatile : Bool)
    (updating updatingInTransition : Option Nat) (new : Option Bytes) :
    Coherent P (Variable.reclaim P d isVolatile updating updatingInTransition new).2 := by
  have hlen := h.length_eq
  have hsize := h.size_eq
  have hcache : d.mNvVariableCache.length = P.storeLength := by rw [h.cache_eq, hlen]
  have hheader : storeHeaderSize ≤ P.storeLength := by
    have := P.hwErr_lt
    omega
  cases isVolatile with
  | true =>
      have hsame := reclaimVolatile_sameNv P d updating updatingInTransition new
      exact h.congr hsame.flash hsame.cache hsame.last
  | false =>
      show Coherent P (reclaimNv P d updating updatingInTransition new).2
      unfold reclaimNv
      cases hbuffer : reclaimBuffer P d false d.flash updating updatingInTransition new with
      | none => exact coherent_copyBackCache hlen hcache hsize h.last_ge
      | some buffer =>
          obtain ⟨more, hmore⟩ := reclaimBuffer_header hbuffer
          simp only [ftwVariableSpace]
          by_cases hfail : d.faults.ftw.headD false = true
          · simp only [hfail, if_true, EfiStatus.isError]
            exact coherent_copyBackCache hlen hcache hsize (le_walkFromEnd _ _)
          · have hvalid : (validBuffer P.storeLength
                (slice d.flash 0 storeHeaderSize ++ more)).length = P.storeLength ∧
                storeSize (validBuffer P.storeLength
                  (slice d.flash 0 storeHeaderSize ++ more)) = storeSize d.flash :=
              storeSize_validBuffer (by rw [hlen]; exact hheader) hheader
            rw [← hmore, hsize] at hvalid
            have hlast : storeHeaderSize ≤ buffer.bytes.length := by
              rw [hmore, slice, drop_zero, length_append, length_take, hlen,
                Nat.min_eq_left hheader]
              exact Nat.le_add_right _ _
            simp only [hfail, Bool.false_eq_true, if_false, EfiStatus.isError, bne_self_eq_false]
            exact coherent_copyBackCache (by rw [hsize]; exact hvalid.1) hcache
              (by rw [hsize]; exact hvalid.2) hlast

theorem reclaim_fvb (P : Platform) (d : Driver) (updating updatingInTransition : Option Nat)
    (new : Option Bytes) :
    (Variable.reclaim P d false updating updatingInTransition new).2.faults.fvb = d.faults.fvb := by
  show (reclaimNv P d updating updatingInTransition new).2.faults.fvb = d.faults.fvb
  unfold reclaimNv ftwVariableSpace
  dsimp only
  cases reclaimBuffer P d false d.flash updating updatingInTransition new with
  | none => rfl
  | some buffer =>
      dsimp only
      split_ifs <;> rfl

theorem writeState_counters (P : Platform) (d : Driver) (isVolatile : Bool) (ptr : Nat)
    (mask : UInt8) :
    (writeState P d isVolatile ptr mask).2.totals = d.totals ∧
      (writeState P d isVolatile ptr mask).2.mEndOfDxe = d.mEndOfDxe ∧
      (writeState P d isVolatile ptr mask).2.atRuntime = d.atRuntime ∧
      (writeState P d isVolatile ptr mask).2.nonVolatileLastVariableOffset =
        d.nonVolatileLastVariableOffset := by
  cases isVolatile with
  | true =>
      have hsame := writeState_volatile P d ptr mask
      exact ⟨hsame.totals, hsame.mEndOfDxe, hsame.atRuntime, hsame.last⟩
  | false =>
      obtain ⟨status, -, hcase⟩ := writeState_nv P d ptr mask
      rcases hcase with ⟨-, hd | ⟨fvb, -, hd⟩⟩ | ⟨-, fvb, -, hd⟩ <;>
      · rw [hd]
        exact ⟨rfl, rfl, rfl, rfl⟩

theorem le_findVarErrorFlag {offset : Nat} {flag : UInt8}
    (h : findVarErrorFlag P d = some (offset, flag)) : storeHeaderSize ≤ offset := by
  have hstore := inStore_findVariable P d varErrorFlagName edkiiVarErrorFlagGuid false
  unfold findVarErrorFlag at h
  dsimp only at h
  cases hcurr : (findVariable P d varErrorFlagName edkiiVarErrorFlagGuid false).currPtr with
  | none =>
      rw [hcurr] at h
      cases h
  | some currPtr =>
      rw [hcurr] at h
      simp only at h
      split_ifs at h
      cases h
      exact (hstore.curr currPtr hcurr).trans (Nat.le_add_right _ _)

section Rewritable

variable {track : PointerTrack}

variable (hkind : P.flashKind = .rewritable)
include hkind

theorem program_eq_copyMem (flash bs : Bytes) (offset : Nat) :
    P.program flash offset bs = copyMem flash offset bs := by
  rw [Platform.program, hkind]
  rfl

theorem Coherent.write (h : Coherent P d) {offset : Nat} (hoff : storeHeaderSize ≤ offset)
    (bs : Bytes) (hflash : d'.flash = P.program d.flash offset bs)
    (hcache : d'.mNvVariableCache = copyMem d.mNvVariableCache offset bs)
    (hlast : d.nonVolatileLastVariableOffset ≤ d'.nonVolatileLastVariableOffset) :
    Coherent P d' := by
  rw [program_eq_copyMem hkind] at hflash
  refine ⟨?_, ?_, ?_, h.last_ge.trans hlast⟩
  · rw [hcache, hflash, h.cache_eq]
  · rw [hflash, copyMem_length, h.length_eq]
  · rw [hflash, storeSize_copyMem _ _ hoff, h.size_eq]

theorem CoherentWorks.writeState (h : CoherentWorks P d) {ptr : Nat} (hptr : storeHeaderSize ≤ ptr)
    (isVolatile : Bool) (mask : UInt8) :
    CoherentWorks P (Variable.writeState P d isVolatile ptr mask).2 := by
  cases isVolatile with
  | true => exact (writeState_volatile P d ptr mask).coherentWorks h
  | false =>
      obtain ⟨status, -, hcase⟩ := writeState_nv P d ptr mask
      rcases hcase with ⟨-, hd | ⟨fvb, hfvb, hd⟩⟩ | ⟨-, fvb, hfvb, hd⟩
      · rw [hd]
        exact h
      · rw [hd]
        exact ⟨h.coherent.congr rfl rfl rfl, hfvb h.fvb⟩
      · rw [hd]
        exact ⟨h.coherent.write hkind (by omega) _ rfl rfl le_rfl, hfvb h.fvb⟩

theorem CoherentWorks.deleteRecords (h : CoherentWorks P d) {currPtr : Nat}
    (htrack : InStore track) (hcurr : track.currPtr = some currPtr) :
    CoherentWorks P (Variable.deleteRecords P d track currPtr).2 := by
  have hlast := htrack.curr currPtr hcurr
  rw [Variable.deleteRecords]
  cases hptr : track.inDeletedTransitionPtr with
  | none => exact h.writeState hkind hlast _ _
  | some ptr =>
      have hfirst := h.writeState hkind (htrack.inTransition ptr hptr) track.isVolatile varDeleted
      simp only
      split_ifs
      · exact hfirst
      · exact hfirst.writeState hkind hlast _ _

theorem CoherentWorks.deleteReplaced (h : CoherentWorks P d)
    (htrack : InStore track) (intoVolatile : Bool) :
    CoherentWorks P (Variable.deleteReplaced P d track intoVolatile).driver := by
  unfold Variable.deleteReplaced
  cases hcurr : track.currPtr with
  | none => exact h
  | some currPtr => exact h.deleteRecords hkind htrack hcurr

/-- Programming a record that ends inside the volume. -/
theorem CoherentWorks.writeRecord (h : CoherentWorks P d) (req : UpdateRequest)
    (old : Option Bytes) (data : Bytes)
    (hroom : P.headerLength + d.nonVolatileLastVariableOffset +
      (buildVariable P.authFormat req old data).length < P.fvLength) (hwErr user : Bool) :
    CoherentWorks P
      (Variable.writeRecord P d (buildVariable P.authFormat req old data) hwErr user).2 := by
  have h32 := headerSize_le P.authFormat
  have hlen : getVariableHeaderSize P.authFormat ≤
      (buildVariable P.authFormat req old data).length := by
    rw [buildVariable_length]
    omega
  have hwrites := recordWrites_room P d.nonVolatileLastVariableOffset hroom
  have hchain : Chain P (fun _ => True) d.flash
      (recordWrites P d.nonVolatileLastVariableOffset (buildVariable P.authFormat req old data))
      (copyMem d.flash d.nonVolatileLastVariableOffset
        ((buildVariable P.authFormat req old data).set 2 varAdded)) := by
    have hne := fun w hw => (hwrites w hw).1
    simp only [recordWrites, mem_cons, not_mem_nil, or_false, forall_eq_or_imp,
      forall_eq] at hne
    rw [← copyMem_recordWrites d.flash _ d.nonVolatileLastVariableOffset (by omega) hlen
      varHeaderValidOnly varAdded]
    simp only [← program_eq_copyMem hkind]
    exact .cons hne.1 (fun _ _ => trivial) (.cons hne.2.1 (fun _ _ => trivial)
      (.cons hne.2.2.1 (fun _ _ => trivial) (.cons hne.2.2.2 (fun _ _ => trivial) (.nil _))))
  obtain ⟨status, flash, fvb, history, hseq, hfvb, -, new, -, hres⟩ := writeSequence_chain P hchain
  rw [Variable.writeRecord, hseq]
  rcases hres with ⟨herr, -, -⟩ | ⟨rfl, hflash, -⟩
  · have hrefused := writeSequence_refused P h.fvb hwrites (by rw [hseq]; exact herr)
    rw [hseq] at hrefused
    change d.programmed flash fvb history = d at hrefused
    simp only [isError_eq_true.mpr herr, if_true]
    rw [hrefused]
    exact h
  · simp only [EfiStatus.isError, bne_self_eq_false, Bool.false_eq_true, if_false]
    refine ⟨h.coherent.write hkind h.coherent.last_ge
      ((buildVariable P.authFormat req old data).set 2 varAdded) ?_ rfl (Nat.le_add_right _ _),
      hfvb h.fvb⟩
    rw [program_eq_copyMem hkind]
    exact hflash

theorem CoherentWorks.installVariable (h : CoherentWorks P d) (req : UpdateRequest)
    (htrack : InStore track) (data : Bytes)
    (hroom : ∀ old, hasAttribute req.attributes efiVariableNonVolatile = true →
      overQuota P d req (buildVariable P.authFormat req old data) = false →
      P.headerLength + d.nonVolatileLastVariableOffset +
        (buildVariable P.authFormat req old data).length < P.fvLength) :
    CoherentWorks P (Variable.installVariable P d req track data).driver := by
  unfold Variable.installVariable
  dsimp only
  generalize track.currPtr.map (trackedRecord d track) = old
  cases hattr : hasAttribute req.attributes efiVariableNonVolatile with
  | false =>
      rw [if_neg (by decide)]
      obtain ⟨d', hsame, ⟨status, heq⟩ | heq⟩ :=
        installVolatile_cases P d track (buildVariable P.authFormat req old data)
      · rw [heq]
        exact hsame.coherentWorks h
      · rw [heq]
        exact (hsame.coherentWorks h).deleteReplaced hkind htrack true
  | true =>
      rw [if_pos rfl, installNonVolatile]
      cases hquota : overQuota P d req (buildVariable P.authFormat req old data) with
      | true =>
          rw [if_pos rfl]
          split_ifs
          · exact h
          · have hreclaim : CoherentWorks P (Variable.reclaim P d false
                (trackedIn false track track.currPtr)
                (trackedIn false track track.inDeletedTransitionPtr)
                (some (padRecord (buildVariable P.authFormat req old data)))).2 :=
              ⟨h.coherent.reclaim false _ _ _, (reclaim_fvb P d _ _ _).trans h.fvb⟩
            dsimp only
            split_ifs <;> exact hreclaim
      | false =>
          rw [if_neg (by decide)]
          have hwritten := h.writeRecord hkind req old data (hroom old hattr hquota) req.isHwErr
            (isCommonUserVariable P d req (buildVariable P.authFormat req old data))
          dsimp only
          split_ifs
          · exact hwritten
          · exact hwritten.deleteReplaced hkind htrack false

/-- **An update keeps flash and the cache equal.** -/
theorem CoherentWorks.update (h : CoherentWorks P d) {req : UpdateRequest} {ignoreRtCheck : Bool}
    (hroom : VolumeRoom P d req (trackOf P d req ignoreRtCheck)) :
    CoherentWorks P (updateVariableBody P d req (trackOf P d req ignoreRtCheck)).driver := by
  have hcache : InStore (trackOf P d req ignoreRtCheck) := inStore_findVariable P d _ _ _
  rw [updateVariableBody_eq]
  cases hplan : plan P d req (trackOf P d req ignoreRtCheck) with
  | stop status exit => exact h
  | delete track currPtr =>
      obtain ⟨hred, hcurr, -⟩ := plan_delete P d req hplan
      exact h.deleteRecords hkind (inStore_redirectHob hcache hred) hcurr
  | install track mark data =>
      obtain ⟨hred, -, -⟩ := plan_install P d req hplan
      have htrack := inStore_redirectHob hcache hred
      have hroom' : ∀ old, hasAttribute req.attributes efiVariableNonVolatile = true →
          overQuota P d req (buildVariable P.authFormat req old data) = false →
          P.headerLength + d.nonVolatileLastVariableOffset +
            (buildVariable P.authFormat req old data).length < P.fvLength :=
        fun old => hroom track mark data old hplan
      unfold execute executeInstall
      cases mark with
      | none => exact h.installVariable hkind req htrack data hroom'
      | some currPtr =>
          have hcurr := plan_install_mark P d req hplan currPtr rfl
          have hmarked := h.writeState hkind (htrack.curr currPtr hcurr) track.isVolatile
            varInDeletedTransition
          obtain ⟨htotals, hdxe, hrt, hlast⟩ :=
            writeState_counters P d track.isVolatile currPtr varInDeletedTransition
          dsimp only
          split_ifs
          · exact hmarked
          · refine hmarked.installVariable hkind req htrack data ?_
            intro old hattr hquota
            rw [overQuota_congr req _ htotals hdxe hrt] at hquota
            rw [hlast]
            exact hroom' old hattr hquota

/-- The flag that is cached is the flag that is programmed. -/
def FlagAgrees (P : Platform) (d : Driver) (flag : UInt8) : Prop :=
  ∀ offset varErrFlag, d.mEndOfDxe = true →
    findVarErrorFlag P d = some (offset, varErrFlag) →
      varErrFlag &&& flag = varErrFlag ∨ varErrFlag &&& flag = flag

theorem CoherentWorks.recordVarErrorFlag (h : CoherentWorks P d) {flag : UInt8}
    (hflag : FlagAgrees P d flag) : CoherentWorks P (Variable.recordVarErrorFlag P d flag) := by
  unfold Variable.recordVarErrorFlag
  cases hdxe : d.mEndOfDxe with
  | false =>
      rw [if_pos (by decide)]
      exact ⟨h.coherent.congr rfl rfl rfl, h.fvb⟩
  | true =>
      rw [if_neg (by decide)]
      cases hfind : findVarErrorFlag P d with
      | none => exact h
      | some entry =>
          obtain ⟨offset, varErrFlag⟩ := entry
          simp only
          by_cases hsame : (varErrFlag &&& flag == varErrFlag) = true
          · rw [if_pos hsame]
            exact h
          · rw [if_neg hsame]
            have hflags : varErrFlag &&& flag = flag := by
              rcases hflag offset varErrFlag hdxe hfind with heq | heq
              · rw [heq] at hsame
                simp at hsame
              · exact heq
            have hoff := le_findVarErrorFlag hfind
            rcases updateVariableStore_nv P d offset [varErrFlag &&& flag] (by simp) with
              ⟨heq, -⟩ | ⟨status, n, fvb, heq, hres, hok⟩
            · rw [heq]
              exact h
            · obtain ⟨rfl, rfl⟩ := hok h.fvb
              rcases hres with ⟨-, rfl⟩ | ⟨hfail, -⟩
              · rw [heq, take_length, hflags]
                exact ⟨h.coherent.write hkind hoff [flag] rfl rfl le_rfl, rfl⟩
              · cases hfail

/-- A step whose block writes succeed and stay inside the volume, and which records an error
only where the recorded flag is the one that is cached. -/
def StepCoherent (P : Platform) (d : Driver) : Op → Prop
  | .update req ignoreRtCheck =>
      d.faults.fvb = [] ∧ VolumeRoom P d req (trackOf P d req ignoreRtCheck)
  | .recordVarErrorFlag flag => d.faults.fvb = [] ∧ FlagAgrees P d flag
  | .restart => ∀ img ∈ d.flash :: d.history, storeSize img = P.storeLength
  | .reclaim => True
  | .environment => True

theorem Coherent.step {op : Op} (h : Coherent P d) (hok : StepCoherent P d op)
    (hstep : Step P d op d') : Coherent P d' := by
  cases hstep with
  | update req ignoreRtCheck => exact (CoherentWorks.update hkind ⟨h, hok.1⟩ hok.2).coherent
  | recordVarErrorFlag flag =>
      exact (CoherentWorks.recordVarErrorFlag hkind ⟨h, hok.1⟩ hok.2).coherent
  | reclaim => exact h.reclaim false none none none
  | environment _ hsame => exact h.congr hsame.flash hsame.cache hsame.last
  | restart image volatileStore hob faults himage hlen =>
      exact ⟨rfl, hlen.trans h.length_eq, hok image himage, le_walkFromEnd _ _⟩

/-- **Cache coherence**: in every run whose steps all meet the condition the cache is a copy of
the flash store. -/
theorem cache_coherent_run {start : Driver} {trace : List (Driver × Op)}
    (hstart : Coherent P start) (hok : ∀ x ∈ trace, StepCoherent P x.1 x.2)
    (hrun : DriverRun P start trace d) : d.mNvVariableCache = d.flash :=
  (hrun.invariant (fun _ _ _ h hs hstep => Coherent.step hkind h hs hstep) hok hstart).cache_eq

end Rewritable

theorem Coherent.powerOn {img : Bytes} (hlen : img.length = P.storeLength)
    (hsize : storeSize img = P.storeLength) (volatileStore : Bytes) (hob : Option Bytes)
    (faults : Faults) : Coherent P (Variable.powerOn P img volatileStore hob faults) :=
  ⟨rfl, hlen, hsize, le_walkFromEnd _ _⟩

end Coherent

section Sample

/-- The sample platform with flash that takes the bytes it is given. -/
def rewritablePlatform : Platform :=
  { samplePlatform with flashKind := .rewritable }

/-- The driver at the end of DXE, with an error flag that records no error. -/
def flaggedDriver : Driver :=
  { sampleDriver [addedRecord false
      ⟨varErrorFlagName, edkiiVarErrorFlagGuid, [varErrorFlagNoError], variableAttributeNvBsRt,
        0, 0, none⟩ none [varErrorFlagNoError]] with
    mEndOfDxe := true }

theorem coherent_flaggedDriver : Coherent rewritablePlatform flaggedDriver :=
  ⟨rfl, by decide +kernel, by decide +kernel, by decide +kernel⟩

/-- A system error is recorded in flash and in the cache. -/
theorem cache_coherent_run_systemError :
    (recordVarErrorFlag rewritablePlatform flaggedDriver varErrorFlagSystemError).mNvVariableCache =
      (recordVarErrorFlag rewritablePlatform flaggedDriver varErrorFlagSystemError).flash := by
  refine cache_coherent_run rfl coherent_flaggedDriver ?_
    (.single (.recordVarErrorFlag _ varErrorFlagSystemError))
  intro x hx
  rw [mem_singleton.mp hx]
  refine ⟨rfl, ?_⟩
  intro offset varErrFlag _ hfind
  have hflag : (findVarErrorFlag rewritablePlatform flaggedDriver).map Prod.snd =
      some varErrorFlagNoError := by decide +kernel
  rw [hfind, Option.map_some, Option.some.injEq] at hflag
  right
  simp only at hflag
  rw [hflag]
  decide

/-- Once a user error follows, flash has both errors and the cache has the last one. -/
theorem recordVarErrorFlag_incoherent :
    let d := recordVarErrorFlag rewritablePlatform
      (recordVarErrorFlag rewritablePlatform flaggedDriver varErrorFlagSystemError)
      varErrorFlagUserError
    (∃ trace, DriverRun rewritablePlatform flaggedDriver trace d) ∧
      readVariable false d.flash varErrorFlagName edkiiVarErrorFlagGuid = some (7, [0xee]) ∧
      readVariable false d.mNvVariableCache varErrorFlagName edkiiVarErrorFlagGuid =
        some (7, [0xfe]) ∧
      d.mNvVariableCache ≠ d.flash := by
  intro d
  have h1 := Run.single (Step.recordVarErrorFlag (P := rewritablePlatform) flaggedDriver
    varErrorFlagSystemError)
  have h2 := Run.single (Step.recordVarErrorFlag (P := rewritablePlatform)
    (recordVarErrorFlag rewritablePlatform flaggedDriver varErrorFlagSystemError)
    varErrorFlagUserError)
  exact ⟨⟨_, h1.append h2⟩, by decide +kernel, by decide +kernel, by decide +kernel⟩

end Sample

end Variable
end Udk
