import Udk.Variable.NvRecord

/-!
# What a reclaim keeps

`Reclaim` compacts the log of records: the records it keeps are
`VersionLog.compact` of those that do not belong to the running update.
-/

namespace Udk
namespace Variable

open List

/-- A record in transition is promoted to `VAR_ADDED`. -/
def promoteRecord (r : Bytes) : Bytes :=
  setState r varAdded

/-- Records other than the ones the running update replaces. -/
def remaining (updating updatingInTransition : Option Nat) (rs : List Bytes) : List Bytes :=
  ((located storeHeaderSize rs).filter (fun e =>
    updating != some e.1 && updatingInTransition != some e.1)).map Prod.snd

/-- The records a reclaim keeps. -/
def keptRecords (authFormat : Bool) (updating updatingInTransition : Option Nat)
    (rs : List Bytes) : List Bytes :=
  VersionLog.compact isAdded isInTransition (recordKey authFormat) promoteRecord
    (remaining updating updatingInTransition rs)

section Totals

variable (P : Platform) (d : Driver)

/-- Total size of the hardware error records. -/
def hwErrSize (rs : List Bytes) : Nat :=
  ((rs.filter isHwErrRecord).map List.length).sum

/-- Total size of the other records. -/
def commonSize (rs : List Bytes) : Nat :=
  ((rs.filter (fun r => !isHwErrRecord r)).map List.length).sum

/-- Total size of the user variables among them. -/
def userSize (rs : List Bytes) : Nat :=
  ((rs.filter (fun r => !isHwErrRecord r && isUserVariable P d r)).map List.length).sum

def listTotals (rs : List Bytes) : Totals :=
  ⟨commonSize rs, userSize P d rs, hwErrSize rs⟩

theorem commonSize_add_hwErrSize (rs : List Bytes) :
    commonSize rs + hwErrSize rs = rs.flatten.length := by
  induction rs with
  | nil => rfl
  | cons r rs ih =>
      rw [commonSize, hwErrSize] at *
      cases h : isHwErrRecord r <;>
        simp only [filter_cons, h, Bool.not_false, Bool.not_true, if_true,
          Bool.false_eq_true, if_false, map_cons, sum_cons, flatten_cons,
          length_append] <;> omega

theorem commonSize_append (rs rs' : List Bytes) :
    commonSize (rs ++ rs') = commonSize rs + commonSize rs' := by
  simp [commonSize]

theorem hwErrSize_append (rs rs' : List Bytes) :
    hwErrSize (rs ++ rs') = hwErrSize rs + hwErrSize rs' := by
  simp [hwErrSize]

theorem userSize_append (rs rs' : List Bytes) :
    userSize P d (rs ++ rs') = userSize P d rs + userSize P d rs' := by
  simp [userSize]

theorem listTotals_append_singleton (rs : List Bytes) (r : Bytes) :
    listTotals P d (rs ++ [r]) = (listTotals P d rs).add P d r r.length := by
  rw [listTotals, commonSize_append, userSize_append, hwErrSize_append, Totals.add, listTotals]
  cases h : isHwErrRecord r <;> cases h' : isUserVariable P d r <;>
    simp [commonSize, userSize, hwErrSize, h, h']

theorem isHwErrRecord_append {r : Bytes} (rest : Bytes) (h : 32 ≤ r.length) :
    isHwErrRecord (r ++ rest) = isHwErrRecord r := by
  rw [isHwErrRecord, attributes_append rest h, isHwErrRecord]

theorem isUserVariable_append {r : Bytes} (rest : Bytes)
    (hrec : IsRecord P.authFormat r) (hname : HasName P.authFormat r) :
    isUserVariable P d (r ++ rest) = isUserVariable P d r := by
  obtain ⟨h1, -⟩ := recordName_of_hasName rest hrec hname
  obtain ⟨h2, -⟩ := recordName_of_hasName [] hrec hname
  rw [append_nil] at h2
  obtain ⟨hn, hg⟩ := keyOf_injective (h1.symm.trans h2)
  rw [isUserVariable, hn, hg, isUserVariable]

theorem totals_add_append {r : Bytes} (rest : Bytes) (totals : Totals) (size : Nat)
    (hrec : IsRecord P.authFormat r) (hname : HasName P.authFormat r) :
    totals.add P d (r ++ rest) size = totals.add P d r size := by
  rw [Totals.add, isHwErrRecord_append rest hrec.length_ge,
    isUserVariable_append P d rest hrec hname, Totals.add]

theorem totals_add_setState (totals : Totals) (r : Bytes) (s : UInt8) (size : Nat) :
    totals.add P d (setState r s) size = totals.add P d r size := by
  have hattr : isHwErrRecord (setState r s) = isHwErrRecord r := by
    rw [isHwErrRecord, attributes_setState, isHwErrRecord]
  have huser : isUserVariable P d (setState r s) = isUserVariable P d r := by
    rw [isUserVariable, vendorGuid_setState, getVariableNamePtr, setState,
      drop_set_of_lt (by have := headerSize_le P.authFormat; omega), isUserVariable,
      getVariableNamePtr]
  simp only [Totals.add, hattr, huser]

end Totals

section Promote

variable {authFormat : Bool} {r : Bytes}

theorem promote_facts (h : isInTransition r = true) :
    state r ≠ 0xff ∧ varAdded ≠ 0xff := by
  rw [isInTransition, beq_iff_eq] at h
  rw [h]
  decide

theorem recordKey_promote (hrec : IsRecord authFormat r) (h : isInTransition r = true) :
    recordKey authFormat (promoteRecord r) = recordKey authFormat r :=
  recordKey_setState (promote_facts h).1 (promote_facts h).2 (by have := hrec.length_ge; omega)

theorem recordValue_promote (hrec : IsRecord authFormat r) (h : isInTransition r = true) :
    recordValue authFormat (promoteRecord r) = recordValue authFormat r :=
  recordValue_setState (promote_facts h).1 (promote_facts h).2 (by have := hrec.length_ge; omega)

theorem isRecord_promote (hrec : IsRecord authFormat r) (h : isInTransition r = true) :
    IsRecord authFormat (promoteRecord r) :=
  isRecord_setState _ (promote_facts h).1 (promote_facts h).2
    (by have := hrec.length_ge; omega) hrec

theorem isAdded_promote (hrec : IsRecord authFormat r) :
    isAdded (promoteRecord r) = true := by
  rw [isAdded, promoteRecord, state_setState _ (by have := hrec.length_ge; omega)]
  rfl

theorem liveRecord_promote (hrec : IsRecord authFormat r) (h : isInTransition r = true)
    (hlive : LiveRecord authFormat r) : LiveRecord authFormat (promoteRecord r) := by
  obtain ⟨hff, hs⟩ := promote_facts h
  have h2 : 2 < r.length := by have := hrec.length_ge; omega
  refine ⟨?_, ?_⟩
  · rw [HasName, promoteRecord, variableName_setState _ hff hs h2]
    exact hlive.hasName
  · rw [promoteRecord, dataSizeOfVariable_setState _ hff hs h2]
    exact hlive.data_pos

end Promote

section Buffer

variable {P : Platform} {d : Driver} {store header tail : Bytes} {rs : List Bytes}
  {kept : List Bytes} {buffer : ReclaimBuffer} {authFormat : Bool}

/-- The buffer holds the store header and the records `kept`. -/
structure Holds (P : Platform) (d : Driver) (header : Bytes) (kept : List Bytes)
    (buffer : ReclaimBuffer) : Prop where
  bytes : buffer.bytes = header ++ kept.flatten
  totals : buffer.totals = listTotals P d kept

theorem recordSize_located (h : Layout P.authFormat store header rs tail)
    {off : Nat} {r : Bytes} (hmem : (off, r) ∈ located storeHeaderSize rs) :
    recordSize P.authFormat store off = r.length ∧ slice store off r.length = r := by
  have hrec := h.isRecord_of_located hmem
  obtain ⟨rest, hdrop⟩ := h.drop_located hmem
  constructor
  · rw [recordSize, getNextVariablePtr, hdrop, variableSize_append _ hrec.headerSize_le_length,
      headerAlign_add _ (h.off_mod hmem), hrec.length_eq]
    omega
  · rw [slice, hdrop, take_left' rfl]

theorem Holds.install (h : Layout P.authFormat store header rs tail)
    (hb : Holds P d header kept buffer)
    {off : Nat} {r : Bytes} (hmem : (off, r) ∈ located storeHeaderSize rs)
    (hname : HasName P.authFormat r) (promote : Bool)
    (hp : promote = true → isInTransition r = true) :
    Holds P d header (kept ++ [if promote then promoteRecord r else r])
      (buffer.install P d store off promote) := by
  have hrec := h.isRecord_of_located hmem
  obtain ⟨rest, hdrop⟩ := h.drop_located hmem
  obtain ⟨hsize, hslice⟩ := recordSize_located h hmem
  have htot := totals_add_append P d rest buffer.totals r.length hrec hname
  refine ⟨?_, ?_⟩
  · simp only [ReclaimBuffer.install, hsize, hslice, hb.bytes, flatten_append,
      flatten_singleton, append_assoc]
    rfl
  · rw [hb.totals] at htot
    simp only [ReclaimBuffer.install, hsize, hdrop, hb.totals, htot]
    rw [listTotals_append_singleton]
    cases promote with
    | false => rfl
    | true =>
        simp only [if_true, promoteRecord, totals_add_setState, setState_length]

/-- The first pass. -/
theorem reinstallAdded_holds (h : Layout P.authFormat store header rs tail)
    (hwf : WellFormed P.authFormat rs) (updating : Option Nat)
    (hb : Holds P d header kept buffer) :
    Holds P d header
      (kept ++ ((located storeHeaderSize rs).filter (fun e =>
        updating != some e.1 && isAdded e.2)).map Prod.snd)
      (reinstallAdded P d store updating buffer) := by
  rw [reinstallAdded, h.storeWalk_eq, foldl_map]
  obtain ⟨L, hL, hsub⟩ : ∃ L, located storeHeaderSize rs = L ∧
      ∀ e ∈ L, e ∈ located storeHeaderSize rs := ⟨_, rfl, fun _ he => he⟩
  rw [hL]
  clear hL
  induction L generalizing kept buffer with
  | nil => simpa using hb
  | cons e L ih =>
      obtain ⟨off, r⟩ := e
      have hmem := hsub (off, r) mem_cons_self
      have hrec := h.isRecord_of_located hmem
      obtain ⟨rest, hdrop⟩ := h.drop_located hmem
      have hst : (state (store.drop off) == varAdded) = isAdded r := by
        rw [hdrop, state_append rest hrec.length_ge, isAdded]
      have hsub' := fun e he => hsub e (mem_cons_of_mem _ he)
      rw [foldl_cons, filter_cons]
      simp only [hst]
      cases hc : updating != some off && isAdded r with
      | false => exact ih hb hsub'
      | true =>
          have hlive : isLive r = true := by
            rw [isLive_eq, (Bool.and_eq_true_iff.mp hc).2, Bool.true_or]
          have hname := (hwf r (mem_of_mem_located hmem) hlive).hasName
          have hnext := ih (hb.install h hmem hname false (by simp)) hsub'
          simpa using hnext

theorem layout_validBuffer {size : Nat}
    (hheader : header.length = storeHeaderSize) (hsize : storeSize header = size)
    (hfit : storeHeaderSize + kept.flatten.length ≤ size)
    (hrecs : ∀ x ∈ kept, IsRecord authFormat x) :
    Layout authFormat (validBuffer size (header ++ kept.flatten)) header kept
      (List.replicate (size - (storeHeaderSize + kept.flatten.length)) 0xff) := by
  have hlen : (header ++ kept.flatten).length = storeHeaderSize + kept.flatten.length := by
    rw [length_append, hheader]
  have hvalid : validBuffer size (header ++ kept.flatten) = header ++ (kept.flatten ++
      List.replicate (size - (storeHeaderSize + kept.flatten.length)) 0xff) := by
    have hrep : (header ++ kept.flatten ++ List.replicate
        (size - (storeHeaderSize + kept.flatten.length)) 0xff).length ≤ size := by
      rw [length_append, hlen, length_replicate]
      omega
    rw [validBuffer, hlen, take_of_length_le hrep, append_assoc]
  refine ⟨hvalid, hheader, ?_, hrecs, startId_replicate _⟩
  rw [hvalid, Layout.storeSize_append _ hheader, hsize, ← append_assoc, length_append,
    hlen, length_replicate]
  omega

/-- The search for an added copy in the buffer. -/
theorem foundAdded_eq {size : Nat} {bytes ptr r : Bytes}
    (hheader : header.length = storeHeaderSize) (hsize : storeSize header = size)
    (hbytes : bytes = header ++ kept.flatten)
    (hfit : storeHeaderSize + kept.flatten.length ≤ size)
    (hrecs : ∀ x ∈ kept, IsRecord P.authFormat x) (hr : IsRecord P.authFormat r)
    (hptr : ∃ rest, ptr = r ++ rest) :
    foundAdded P size bytes ptr =
      kept.any (fun x => decide (recordKey P.authFormat x = recordKey P.authFormat r)) := by
  obtain ⟨rest, rfl⟩ := hptr
  have hlay := layout_validBuffer hheader hsize hfit hrecs
  rw [← hbytes] at hlay
  unfold foundAdded
  simp only
  rw [hlay.storeWalk_eq, any_map]
  have hany : ∀ e ∈ located storeHeaderSize kept,
      ((fun added =>
        vendorGuid P.authFormat ((validBuffer size bytes).drop added) ==
            vendorGuid P.authFormat (r ++ rest) &&
          nameSizeOfVariable P.authFormat ((validBuffer size bytes).drop added) ==
            nameSizeOfVariable P.authFormat (r ++ rest) &&
          variableName P.authFormat ((validBuffer size bytes).drop added) ==
            variableName P.authFormat (r ++ rest)) ∘ Prod.fst) e =
        decide (recordKey P.authFormat e.2 = recordKey P.authFormat r) := by
    rintro ⟨off, x⟩ hmem
    have hx := hlay.isRecord_of_located hmem
    obtain ⟨more, hdrop⟩ := hlay.drop_located hmem
    simp only [Function.comp_apply, hdrop, vendorGuid_append _ hx.headerSize_le_length,
      vendorGuid_append _ hr.headerSize_le_length,
      nameSizeOfVariable_append _ hx.headerSize_le_length,
      nameSizeOfVariable_append _ hr.headerSize_le_length, hx.variableName_append,
      hr.variableName_append]
    rw [Bool.eq_iff_iff, decide_eq_true_eq, Bool.and_eq_true, Bool.and_eq_true, beq_iff_eq,
      beq_iff_eq, beq_iff_eq, recordKey, recordKey, Prod.mk.injEq]
    constructor
    · rintro ⟨⟨h1, -⟩, h2⟩
      exact ⟨h1, h2⟩
    · rintro ⟨h1, h2⟩
      exact ⟨⟨h1, by rw [← hx.variableName_length, ← hr.variableName_length, h2]⟩, h2⟩
  have hmap : (located storeHeaderSize kept).any
      ((fun x => decide (recordKey P.authFormat x = recordKey P.authFormat r)) ∘ Prod.snd) =
        kept.any (fun x => decide (recordKey P.authFormat x = recordKey P.authFormat r)) := by
    rw [← any_map, located_map_snd]
  rw [← hmap, Bool.eq_iff_iff, any_eq_true, any_eq_true]
  constructor
  · rintro ⟨e, he, hp⟩
    exact ⟨e, he, (hany e he).symm.trans hp⟩
  · rintro ⟨e, he, hp⟩
    exact ⟨e, he, (hany e he).trans hp⟩

theorem promoteInto_facts {r : Bytes}
    (hkept : ∀ x ∈ kept, IsRecord authFormat x) (hr : IsRecord authFormat r)
    (hin : isInTransition r = true) :
    (∀ x ∈ VersionLog.promoteInto (recordKey authFormat) promoteRecord kept r,
        IsRecord authFormat x) ∧
      (VersionLog.promoteInto (recordKey authFormat) promoteRecord kept r).flatten.length ≤
        kept.flatten.length + r.length := by
  unfold VersionLog.promoteInto
  split_ifs with hany
  · exact ⟨hkept, by omega⟩
  · constructor
    · intro x hx
      rcases mem_append.mp hx with hx | hx
      · exact hkept x hx
      · rw [mem_singleton.mp hx]
        exact isRecord_promote hr hin
    · simp [promoteRecord]

/-- The second pass. -/
theorem reinstallInTransition_holds (h : Layout P.authFormat store header rs tail)
    (hwf : WellFormed P.authFormat rs) (updating updatingInTransition : Option Nat)
    (hb : Holds P d header kept buffer)
    (hkept : ∀ x ∈ kept, IsRecord P.authFormat x)
    (hfit : storeHeaderSize + kept.flatten.length +
      (((located storeHeaderSize rs).filter (fun e => updating != some e.1 &&
        updatingInTransition != some e.1 && isInTransition e.2)).map Prod.snd).flatten.length ≤
      store.length) :
    Holds P d header
      ((((located storeHeaderSize rs).filter (fun e => updating != some e.1 &&
        updatingInTransition != some e.1 && isInTransition e.2)).map Prod.snd).foldl
          (VersionLog.promoteInto (recordKey P.authFormat) promoteRecord) kept)
      (reinstallInTransition P d store updating updatingInTransition buffer) := by
  have hheaderSize : storeSize header = storeSize store := by
    rw [h.eq, Layout.storeSize_append _ h.header_length]
  rw [reinstallInTransition, h.storeWalk_eq, foldl_map (f := Prod.fst)]
  obtain ⟨L, hL, hsub⟩ : ∃ L, located storeHeaderSize rs = L ∧
      ∀ e ∈ L, e ∈ located storeHeaderSize rs := ⟨_, rfl, fun _ he => he⟩
  rw [hL] at hfit ⊢
  clear hL
  induction L generalizing kept buffer with
  | nil => simpa using hb
  | cons e L ih =>
      obtain ⟨off, r⟩ := e
      have hmem := hsub (off, r) mem_cons_self
      have hrec := h.isRecord_of_located hmem
      obtain ⟨rest, hdrop⟩ := h.drop_located hmem
      have hst : (state (store.drop off) == varInTransition) = isInTransition r := by
        rw [hdrop, state_append rest hrec.length_ge, isInTransition]
      have hsub' := fun e he => hsub e (mem_cons_of_mem _ he)
      rw [foldl_cons, filter_cons]
      rw [filter_cons] at hfit
      simp only [hst] at hfit ⊢
      cases hc : updating != some off && updatingInTransition != some off &&
          isInTransition r with
      | false =>
          simp only [hc, Bool.false_eq_true, if_false, Bool.false_and] at hfit ⊢
          exact ih hb hkept hfit hsub'
      | true =>
          have hin : isInTransition r = true := (Bool.and_eq_true_iff.mp hc).2
          have hlive : isLive r = true := by rw [isLive_eq, hin, Bool.or_true]
          have hname := (hwf r (mem_of_mem_located hmem) hlive).hasName
          simp only [hc, if_true, map_cons, flatten_cons, length_append] at hfit
          have hfound := foundAdded_eq h.header_length hheaderSize hb.bytes
            (by rw [h.size_eq]; omega) hkept hrec ⟨rest, hdrop⟩
          have hfacts := promoteInto_facts hkept hrec hin
          simp only [if_true, map_cons, foldl_cons, Bool.true_and, hfound]
          refine ih ?_ hfacts.1 (by omega) hsub'
          rw [VersionLog.promoteInto]
          cases hany : kept.any (fun x =>
              decide (recordKey P.authFormat x = recordKey P.authFormat r)) with
          | true => simpa using hb
          | false => simpa using hb.install h hmem hname true (fun _ => hin)

theorem selected_length {L : List (Nat × Bytes)} {p q : Nat × Bytes → Bool}
    (hpq : ∀ e ∈ L, p e = true → q e = false) :
    ((L.filter p).map Prod.snd).flatten.length + ((L.filter q).map Prod.snd).flatten.length ≤
      (L.map Prod.snd).flatten.length := by
  induction L with
  | nil => simp
  | cons e L ih =>
      have ih' := ih (fun e he => hpq e (mem_cons_of_mem _ he))
      have he := hpq e mem_cons_self
      rw [filter_cons, filter_cons]
      cases hp : p e with
      | true =>
          rw [he hp]
          simp only [if_true, Bool.false_eq_true, if_false, map_cons, flatten_cons,
            length_append]
          omega
      | false =>
          cases hq : q e <;>
            simp only [if_true, Bool.false_eq_true, if_false, map_cons, flatten_cons,
              length_append] <;> omega

variable {updating updatingInTransition : Option Nat}

/-- The record remembered as in transition is not an added one. -/
def TracksInTransition (rs : List Bytes) (updatingInTransition : Option Nat) : Prop :=
  ∀ off r, (off, r) ∈ located storeHeaderSize rs → updatingInTransition = some off →
    isAdded r = false

theorem keptRecords_eq (authFormat : Bool) (ht : TracksInTransition rs updatingInTransition) :
    keptRecords authFormat updating updatingInTransition rs =
      (((located storeHeaderSize rs).filter (fun e => updating != some e.1 &&
        updatingInTransition != some e.1 && isInTransition e.2)).map Prod.snd).foldl
          (VersionLog.promoteInto (recordKey authFormat) promoteRecord)
          (((located storeHeaderSize rs).filter (fun e =>
            updating != some e.1 && isAdded e.2)).map Prod.snd) := by
  have hadded : (remaining updating updatingInTransition rs).filter isAdded =
      ((located storeHeaderSize rs).filter (fun e =>
        updating != some e.1 && isAdded e.2)).map Prod.snd := by
    rw [remaining, filter_map, filter_filter]
    congr 1
    apply filter_congr
    rintro ⟨off, r⟩ hmem
    simp only [Function.comp_apply]
    cases ha : isAdded r with
    | false => simp
    | true =>
        have hne : (updatingInTransition != some off) = true := by
          rw [bne_iff_ne]
          intro heq
          rw [ht off r hmem heq] at ha
          cases ha
        rw [hne]
        simp
  have htrans : (remaining updating updatingInTransition rs).filter isInTransition =
      ((located storeHeaderSize rs).filter (fun e => updating != some e.1 &&
        updatingInTransition != some e.1 && isInTransition e.2)).map Prod.snd := by
    rw [remaining, filter_map, filter_filter]
    congr 1
    apply filter_congr
    rintro ⟨off, r⟩ _
    simp only [Function.comp_apply]
    rw [Bool.and_comm]
  rw [keptRecords, VersionLog.compact, hadded, htrans]

theorem mem_keptRecords {x : Bytes}
    (hx : x ∈ keptRecords authFormat updating updatingInTransition rs) :
    (x ∈ rs ∧ isAdded x = true) ∨ ∃ r ∈ rs, isInTransition r = true ∧ x = promoteRecord r := by
  have hsub : ∀ y ∈ remaining updating updatingInTransition rs, y ∈ rs := by
    intro y hy
    rw [remaining, mem_map] at hy
    obtain ⟨⟨off, r⟩, he, rfl⟩ := hy
    exact mem_of_mem_located (mem_filter.mp he).1
  rcases VersionLog.mem_compact hx with ⟨hm, ha⟩ | ⟨r, hm, ht, rfl⟩
  · exact Or.inl ⟨hsub x hm, ha⟩
  · exact Or.inr ⟨r, hsub r hm, ht, rfl⟩

theorem keptRecords_facts (updating updatingInTransition : Option Nat)
    (hrecs : ∀ r ∈ rs, IsRecord authFormat r)
    (hwf : WellFormed authFormat rs) :
    ∀ x ∈ keptRecords authFormat updating updatingInTransition rs,
      IsRecord authFormat x ∧ isAdded x = true ∧ LiveRecord authFormat x := by
  intro x hx
  rcases mem_keptRecords hx with ⟨hm, ha⟩ | ⟨r, hm, ht, rfl⟩
  · exact ⟨hrecs x hm, ha, hwf x hm (by rw [isLive_eq, ha, Bool.true_or])⟩
  · exact ⟨isRecord_promote (hrecs r hm) ht, isAdded_promote (hrecs r hm),
      liveRecord_promote (hrecs r hm) ht (hwf r hm (by rw [isLive_eq, ht, Bool.or_true]))⟩

theorem foldl_promoteInto_length {es kept : List Bytes} :
    (es.foldl (VersionLog.promoteInto (recordKey authFormat) promoteRecord) kept).flatten.length ≤
      kept.flatten.length + es.flatten.length := by
  induction es generalizing kept with
  | nil => simp
  | cons e es ih =>
      rw [foldl_cons, flatten_cons, length_append]
      refine ih.trans ?_
      have hstep : (VersionLog.promoteInto (recordKey authFormat) promoteRecord
          kept e).flatten.length ≤ kept.flatten.length + e.length := by
        unfold VersionLog.promoteInto
        split_ifs <;> simp [promoteRecord]
      omega

theorem selected_le (updating updatingInTransition : Option Nat) (rs : List Bytes) :
    (((located storeHeaderSize rs).filter (fun e =>
        updating != some e.1 && isAdded e.2)).map Prod.snd).flatten.length +
      (((located storeHeaderSize rs).filter (fun e => updating != some e.1 &&
        updatingInTransition != some e.1 && isInTransition e.2)).map Prod.snd).flatten.length ≤
      rs.flatten.length := by
  have hsel := selected_length (L := located storeHeaderSize rs)
    (p := fun e => updating != some e.1 && isAdded e.2)
    (q := fun e => updating != some e.1 && updatingInTransition != some e.1 &&
      isInTransition e.2) (by
      rintro ⟨off, r⟩ _ hp
      simp only [Bool.and_eq_true] at hp
      cases ht : isInTransition r with
      | false => simp
      | true =>
          have := isInTransition_not_added ht
          rw [hp.2] at this
          cases this)
  rwa [located_map_snd] at hsel

theorem keptRecords_length (authFormat : Bool) (updating : Option Nat)
    (ht : TracksInTransition rs updatingInTransition) :
    (keptRecords authFormat updating updatingInTransition rs).flatten.length ≤
      rs.flatten.length := by
  rw [keptRecords_eq authFormat ht]
  exact foldl_promoteInto_length.trans (selected_le _ _ rs)

theorem reinstall_holds (updating : Option Nat) (h : Layout P.authFormat store header rs tail)
    (hwf : WellFormed P.authFormat rs) (ht : TracksInTransition rs updatingInTransition) :
    Holds P d header (keptRecords P.authFormat updating updatingInTransition rs)
      (reinstall P d store updating updatingInTransition) := by
  have hslice : slice store 0 storeHeaderSize = header := by
    rw [slice, drop_zero, h.eq, take_left' h.header_length]
  have hstart : Holds P d header [] ⟨slice store 0 storeHeaderSize, ⟨0, 0, 0⟩⟩ :=
    ⟨by simp [hslice], rfl⟩
  have hfirst := reinstallAdded_holds h hwf updating hstart
  rw [nil_append] at hfirst
  have hle := selected_le updating updatingInTransition rs
  have hlen := h.length_eq
  rw [keptRecords_eq P.authFormat ht]
  refine reinstallInTransition_holds h hwf updating updatingInTransition hfirst ?_ (by omega)
  intro x hx
  obtain ⟨⟨off, r⟩, he, rfl⟩ := mem_map.mp hx
  exact h.isRecord_of_located (mem_filter.mp he).1

end Buffer

end Variable
end Udk
