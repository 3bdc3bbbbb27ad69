import Udk.Variable.ReclaimSpec

/-!
# Reclaiming the non-volatile store

A reclaim refuses the new record and leaves flash alone, or replaces the store as a
whole, or keeps the old one when the fault tolerant write fails.  In each case the
cache is a copy of flash afterwards.
-/

namespace Udk
namespace Variable

open List

section Kept

variable {authFormat : Bool} {updating updatingInTransition : Option Nat} {rs junk : List Bytes}

theorem filter_append_dead {p : Bytes → Bool} {L J : List (Nat × Bytes)} {q : Nat × Bytes → Bool}
    (h : ∀ e ∈ J, p e.2 = false) :
    (((L ++ J).filter q).map Prod.snd).filter p = ((L.filter q).map Prod.snd).filter p := by
  rw [filter_append, map_append, filter_append]
  have hnil : ((J.filter q).map Prod.snd).filter p = [] := by
    rw [filter_eq_nil_iff]
    intro x hx
    obtain ⟨e, he, rfl⟩ := mem_map.mp hx
    rw [h e (mem_filter.mp he).1]
    decide
  rw [hnil, append_nil]

theorem keptRecords_append_dead (hdead : ∀ r ∈ junk, isLive r = false) :
    keptRecords authFormat updating updatingInTransition (rs ++ junk) =
      keptRecords authFormat updating updatingInTransition rs := by
  have hadded : ∀ e ∈ located (storeHeaderSize + rs.flatten.length) junk,
      isAdded e.2 = false := fun e he => (dead_states (hdead _ (mem_of_mem_located he))).1
  have htrans : ∀ e ∈ located (storeHeaderSize + rs.flatten.length) junk,
      isInTransition e.2 = false := fun e he => (dead_states (hdead _ (mem_of_mem_located he))).2
  rw [keptRecords, keptRecords, VersionLog.compact, VersionLog.compact, remaining, remaining,
    located_append, filter_append_dead hadded, filter_append_dead htrans]

theorem TracksInTransition.append (ht : TracksInTransition rs updatingInTransition)
    (hdead : ∀ r ∈ junk, isLive r = false) :
    TracksInTransition (rs ++ junk) updatingInTransition := by
  intro off r hmem heq
  rw [located_append, mem_append] at hmem
  rcases hmem with hmem | hmem
  · exact ht off r hmem heq
  · exact (dead_states (hdead r (mem_of_mem_located hmem))).1

theorem WellFormed.append_dead (h : WellFormed authFormat rs)
    (hdead : ∀ r ∈ junk, isLive r = false) : WellFormed authFormat (rs ++ junk) := by
  intro r hr hlive
  rcases mem_append.mp hr with hr | hr
  · exact h r hr hlive
  · rw [hdead r hr] at hlive
    cases hlive

end Kept

/-- What a new record is once `Reclaim` has installed it. -/
structure NewRecord (authFormat : Bool) (new : Bytes) : Prop where
  record : IsRecord authFormat (setState new varAdded)
  live : LiveRecord authFormat (setState new varAdded)

section Reclaim

variable {P : Platform} {d : Driver} {rs : List Bytes}
variable {updating updatingInTransition : Option Nat} {new : Option Bytes}

/-- The store after a successful reclaim. -/
def reclaimedRecords (authFormat : Bool) (updating updatingInTransition : Option Nat)
    (rs : List Bytes) (new : Option Bytes) : List Bytes :=
  keptRecords authFormat updating updatingInTransition rs ++
    (new.map (fun n => setState n varAdded)).toList

/-- There is no room for the new record in the store or in the quotas. -/
def NoRoom (P : Platform) (d : Driver) (kept : List Bytes) (new : Bytes) : Prop :=
  let totals := listTotals P d (kept ++ [setState new varAdded])
  P.storeLength < storeHeaderSize + kept.flatten.length + new.length ∨
    P.pcdHwErrStorageSize < totals.hwErr ∨ P.commonVariableSpace < totals.common ∨
    P.commonMaxUserVariableSpace < totals.user

theorem installNew_eq (new : Option Bytes) {header : Bytes} {kept : List Bytes} {buffer : ReclaimBuffer}
    (hb : Holds P d header kept buffer) (hheader : header.length = storeHeaderSize) :
    (∃ n, new = some n ∧ NoRoom P d kept n ∧
        installNew P d false P.storeLength buffer new = none) ∨
      ((∀ n, new = some n → ¬NoRoom P d kept n) ∧
        ∃ buffer', installNew P d false P.storeLength buffer new = some buffer' ∧
          Holds P d header (kept ++ (new.map (fun n => setState n varAdded)).toList) buffer') := by
  cases new with
  | none => exact Or.inr ⟨fun n hn => (by cases hn), buffer, rfl, by simpa using hb⟩
  | some n =>
      have hlen : buffer.bytes.length = storeHeaderSize + kept.flatten.length := by
        rw [hb.bytes, length_append, hheader]
      have htot : buffer.totals.add P d n n.length =
          listTotals P d (kept ++ [setState n varAdded]) := by
        rw [listTotals_append_singleton, hb.totals, setState_length, totals_add_setState]
      by_cases hroom : NoRoom P d kept n
      · refine Or.inl ⟨n, rfl, hroom, ?_⟩
        simp only [installNew, hlen, htot]
        rcases hroom with h | h | h | h
        · rw [if_pos h]
        all_goals
          split_ifs with h1 h2
          · rfl
          · rfl
          · simp [h] at h2
      · refine Or.inr ⟨fun m hm => by cases hm; exact hroom,
          ⟨buffer.bytes ++ n.set 2 varAdded, listTotals P d (kept ++ [setState n varAdded])⟩,
          ?_, ?_⟩
        · simp only [NoRoom, not_or] at hroom
          obtain ⟨h1, h2, h3, h4⟩ := hroom
          simp only [installNew, hlen, htot, if_neg h1, h2, h3, h4]
          rfl
        · exact ⟨by rw [hb.bytes]; simp [setState], rfl⟩

theorem copyBackCache_eq (hflash : d.flash.length = P.storeLength)
    (hcache : d.mNvVariableCache.length = P.storeLength) (hsize : storeSize d.flash = P.storeLength) :
    copyBackCache d = { d with mNvVariableCache := d.flash } := by
  have hslice : slice d.flash 0 (storeSize d.flash) = d.flash := by
    rw [slice, drop_zero, hsize, take_of_length_le (by omega)]
  have hcopy : copyMem d.mNvVariableCache 0 d.flash = d.flash := by
    rw [copyMem_zero (by omega), drop_of_length_le (by omega), append_nil]
  rw [copyBackCache, hslice, hcopy]

theorem NvInv.of_flash (hflash : Shows P.authFormat d.flash rs) (hwf : WellFormed P.authFormat rs)
    (hcache : d.mNvVariableCache = d.flash)
    (hlast : d.nonVolatileLastVariableOffset = storeHeaderSize + rs.flatten.length)
    (hlen : d.flash.length = P.storeLength) : NvInv P d rs where
  flash := hflash
  cache := ⟨rs, by rwa [hcache], List.forall₂_same.mpr (fun r _ => Mirrors.refl r)⟩
  wellFormed := hwf
  last := hlast
  erased := by rw [hcache]; exact id
  flash_length := hlen
  cache_length := by rw [hcache, hlen]

theorem recountFlash_totals {header tail : Bytes}
    (h : Layout P.authFormat d.flash header rs tail) :
    (recountFlash P d).commonVariableTotalSize = d.commonVariableTotalSize + commonSize rs ∧
      (recountFlash P d).hwErrVariableTotalSize = d.hwErrVariableTotalSize + hwErrSize rs := by
  have hgen : ∀ L : List (Nat × Bytes), (∀ e ∈ L, e ∈ located storeHeaderSize rs) →
      ∀ totals : Totals,
      let result := L.foldl (fun totals e => Totals.add P d totals (d.flash.drop e.1)
        (recordSize P.authFormat d.flash e.1)) totals
      result.common = totals.common + commonSize (L.map Prod.snd) ∧
        result.hwErr = totals.hwErr + hwErrSize (L.map Prod.snd) := by
    intro L
    induction L with
    | nil => simp [commonSize, hwErrSize]
    | cons e L ih =>
        intro hsub totals
        obtain ⟨off, r⟩ := e
        have hmem := hsub (off, r) mem_cons_self
        have hrec := h.isRecord_of_located hmem
        obtain ⟨rest, hdrop⟩ := h.drop_located hmem
        have hattr : isHwErrRecord (d.flash.drop off) = isHwErrRecord r := by
          rw [hdrop, isHwErrRecord_append rest hrec.length_ge]
        have ih' := ih (fun e he => hsub e (mem_cons_of_mem _ he))
          (Totals.add P d totals (d.flash.drop off) (recordSize P.authFormat d.flash off))
        simp only [foldl_cons]
        rw [ih'.1, ih'.2, (recordSize_located h hmem).1, Totals.add, hattr]
        cases hhw : isHwErrRecord r <;>
          simp [commonSize, hwErrSize, hhw, Nat.add_assoc]
  have hall := hgen _ (fun _ he => he) d.totals
  rw [located_map_snd] at hall
  rw [recountFlash, h.storeWalk_eq, foldl_map]
  exact hall

theorem erased_of_layout {authFormat : Bool} {img header : Bytes} {k : Nat}
    (h : Layout authFormat img header rs (List.replicate k 0xff)) :
    Erased img (storeHeaderSize + rs.flatten.length) := by
  intro b hb
  rw [h.eq, ← h.header_length, ← drop_drop, drop_left, drop_left] at hb
  exact (mem_replicate.mp hb).2

/-- How a reclaim of the non-volatile store can end. -/
inductive ReclaimResult (P : Platform) (d : Driver) (rs : List Bytes)
    (updating updatingInTransition : Option Nat) (new : Option Bytes) : EfiStatus → Driver → Prop
  /-- There is no room for the new record. -/
  | refused (n : Bytes) (d' : Driver) (hnew : new = some n)
      (hroom : NoRoom P d (keptRecords P.authFormat updating updatingInTransition rs) n)
      (hinv : NvInv P d' rs) (hcounters : SameCounters d d') (hflash : d'.flash = d.flash)
      (hfaults : d'.faults = d.faults) (hhistory : d'.history = d.history) :
      ReclaimResult P d rs updating updatingInTransition new .outOfResources d'
  /-- The fault tolerant write fails: the old store stays and is counted again. -/
  | failed (junk : List Bytes) (d' : Driver) (hftw : d.faults.ftw ≠ [])
      (hdead : ∀ r ∈ junk, isLive r = false) (hinv : NvInv P d' (rs ++ junk))
      (hcommon : d'.commonVariableTotalSize = d.commonVariableTotalSize + commonSize (rs ++ junk))
      (hhwErr : d'.hwErrVariableTotalSize = d.hwErrVariableTotalSize + hwErrSize (rs ++ junk))
      (hflash : d'.flash = d.flash) (hhistory : d'.history = d.history) :
      ReclaimResult P d rs updating updatingInTransition new .aborted d'
  | done (d' : Driver)
      (hroom : ∀ n, new = some n →
        ¬NoRoom P d (keptRecords P.authFormat updating updatingInTransition rs) n)
      (hinv : NvInv P d' (reclaimedRecords P.authFormat updating updatingInTransition rs new))
      (herased : Erased d'.flash d'.nonVolatileLastVariableOffset)
      (htotals : d'.totals = listTotals P d
        (reclaimedRecords P.authFormat updating updatingInTransition rs new))
      (hhistory : d'.history = d'.flash :: d.history) :
      ReclaimResult P d rs updating updatingInTransition new .success d'

/-- **Reclaiming the non-volatile store.** -/
theorem NvInv.reclaim (h : NvInv P d rs) (updating : Option Nat)
    (ht : TracksInTransition rs updatingInTransition)
    (hnew : ∀ n, new = some n → n.length ≤ P.storeLength → NewRecord P.authFormat n) :
    ∃ status d', reclaim P d false updating updatingInTransition new = (status, d') ∧
      SameEnv d d' ∧ d'.mNvVariableCache = d'.flash ∧
      ReclaimResult P d rs updating updatingInTransition new status d' := by
  obtain ⟨header, junk, tail, hlayout, hdead⟩ := h.flash
  have hwf := h.wellFormed.append_dead hdead
  have hsize : storeSize d.flash = P.storeLength := by rw [hlayout.size_eq, h.flash_length]
  have hheader : storeSize header = P.storeLength := by
    rw [← hsize, hlayout.eq, Layout.storeSize_append _ hlayout.header_length]
  have hholds := reinstall_holds (d := d) updating hlayout hwf (ht.append hdead)
  rw [keptRecords_append_dead hdead] at hholds
  have hfacts := keptRecords_facts updating updatingInTransition
    (fun r hr => hlayout.records r (mem_append_left _ hr)) h.wellFormed
  have hlength := keptRecords_length P.authFormat updating ht
  have hstore := hlayout.length_eq
  rw [flatten_append, length_append, h.flash_length] at hstore
  rw [Variable.reclaim, if_neg (by decide), reclaimNv, reclaimBuffer, hsize]
  rcases installNew_eq new hholds hlayout.header_length with
    ⟨n, hn, hroom, heq⟩ | ⟨hroom, buffer, heq, hbuf⟩
  · -- No room: only the cache is written.
    rw [heq]
    have hcopy := copyBackCache_eq (P := P) h.flash_length h.cache_length hsize
    refine ⟨.outOfResources, _, rfl, ?_, ?_, ?_⟩
    · rw [hcopy]
      exact ⟨rfl, rfl, rfl, rfl, rfl, rfl, rfl, id, id, rfl⟩
    · rw [hcopy]
    · refine .refused n _ hn hroom ?_ ?_ ?_ ?_ ?_ <;> rw [hcopy]
      · exact .of_flash h.flash h.wellFormed rfl h.last h.flash_length
      · exact ⟨rfl, rfl⟩
  · rw [heq]
    simp only [ftwVariableSpace]
    cases hfault : d.faults.ftw.headD false with
    | true =>
        -- The old store stays: it is walked again, with the dead records behind it.
        have hftw : d.faults.ftw ≠ [] := by
          intro hnil
          rw [hnil] at hfault
          cases hfault
        set d1 : Driver := { d with faults := { d.faults with ftw := d.faults.ftw.tail } } with _
        have hrecount := recountFlash_totals (P := P) (d := d1) hlayout
        have hend : (recountFlash P d1).nonVolatileLastVariableOffset =
            storeHeaderSize + (rs ++ junk).flatten.length := hlayout.storeWalkEnd_eq
        have hcopy := copyBackCache_eq (P := P) (d := recountFlash P d1) h.flash_length
          h.cache_length hsize
        simp only [if_true, EfiStatus.isError, bne_iff_ne, ne_eq, reduceCtorEq,
          not_false_eq_true]
        refine ⟨.aborted, _, rfl, ?_, ?_, ?_⟩
        · rw [hcopy]
          refine ⟨rfl, rfl, rfl, rfl, rfl, rfl, rfl, id, ?_, rfl⟩
          intro hnil
          exact absurd hnil hftw
        · rw [hcopy]
        · refine .failed junk _ hftw hdead ?_ ?_ ?_ ?_ ?_ <;> rw [hcopy]
          · exact .of_flash hlayout.shows hwf rfl hend h.flash_length
          · exact hrecount.1
          · exact hrecount.2
          · rfl
          · rfl
    | false =>
        simp only [Bool.false_eq_true, if_false, EfiStatus.isError, bne_self_eq_false]
        have hnewRecord : ∀ n, new = some n → NewRecord P.authFormat n := by
          intro n hn
          have hno := hroom n hn
          simp only [NoRoom, not_or] at hno
          exact hnew n hn (by omega)
        have hrecs : ∀ x ∈ keptRecords P.authFormat updating updatingInTransition rs ++
            (new.map (fun n => setState n varAdded)).toList, IsRecord P.authFormat x := by
          intro x hx
          rcases mem_append.mp hx with hx | hx
          · exact (hfacts x hx).1
          · cases new with
            | none => simp at hx
            | some n =>
                have hxn : x = setState n varAdded := by simpa using hx
                rw [hxn]
                exact (hnewRecord n rfl).record
        have hwf' : WellFormed P.authFormat (reclaimedRecords P.authFormat updating
            updatingInTransition rs new) := by
          intro x hx _
          rcases mem_append.mp hx with hx | hx
          · exact (hfacts x hx).2.2
          · cases new with
            | none => simp at hx
            | some n =>
                have hxn : x = setState n varAdded := by simpa using hx
                rw [hxn]
                exact (hnewRecord n rfl).live
        have hfit : storeHeaderSize + (keptRecords P.authFormat updating updatingInTransition rs ++
            (new.map (fun n => setState n varAdded)).toList).flatten.length ≤ P.storeLength := by
          cases new with
          | none =>
              simp only [Option.map_none, Option.toList_none, append_nil]
              omega
          | some n =>
              have hno := hroom n rfl
              simp only [NoRoom, not_or] at hno
              simp only [Option.map_some, Option.toList_some, flatten_append,
                length_append, flatten_singleton, setState_length]
              omega
        have hnewlay := layout_validBuffer hlayout.header_length hheader hfit hrecs
        rw [← hbuf.bytes] at hnewlay
        have hnewlen : (validBuffer P.storeLength buffer.bytes).length = P.storeLength := by
          rw [← hnewlay.size_eq, hnewlay.eq, Layout.storeSize_append _ hlayout.header_length,
            hheader]
        set d1 : Driver := Driver.setTotals
          { d with
            faults := { d.faults with ftw := d.faults.ftw.tail }
            flash := validBuffer P.storeLength buffer.bytes
            history := validBuffer P.storeLength buffer.bytes :: d.history }
          buffer.totals with _
        have hlast : buffer.bytes.length = storeHeaderSize +
            (reclaimedRecords P.authFormat updating updatingInTransition rs new).flatten.length := by
          rw [hbuf.bytes, length_append, hlayout.header_length, reclaimedRecords]
        have hcopy := copyBackCache_eq (P := P)
          (d := { d1 with nonVolatileLastVariableOffset := buffer.bytes.length })
          hnewlen h.cache_length (by
            show storeSize (validBuffer P.storeLength buffer.bytes) = P.storeLength
            rw [hnewlay.size_eq, hnewlen])
        refine ⟨.success, _, rfl, ?_, ?_, ?_⟩
        · rw [hcopy]
          refine ⟨rfl, rfl, rfl, rfl, rfl, rfl, rfl, id, ?_, rfl⟩
          intro hnil
          show d.faults.ftw.tail = []
          rw [hnil]
          rfl
        · rw [hcopy]
        · refine .done _ hroom ?_ ?_ ?_ ?_ <;> rw [hcopy]
          · exact .of_flash hnewlay.shows hwf' rfl hlast hnewlen
          · show Erased (validBuffer P.storeLength buffer.bytes) buffer.bytes.length
            rw [hlast]
            exact erased_of_layout hnewlay
          · exact hbuf.totals
          · rfl

end Reclaim

end Variable
end Udk
