import Udk.Variable.ReclaimReadback

/-!
# Space accounting

Two totals and the end of the store are kept up to date write by write, and computed
anew by a reclaim.  When the fault tolerant write of a reclaim fails, the sizes of all
records are added to totals that already have them; everywhere else the counters agree
with a walk of the store.
-/

namespace Udk
namespace Variable

section Sizes

variable {rs : List Bytes} {f : Bytes → Bytes} {base off : Nat} {r : Bytes}

theorem sizes_modifyAt (hne : ∀ x ∈ rs, x ≠ []) (hmem : (off, r) ∈ located base rs)
    (hlen : (f r).length = r.length) (hclass : isHwErrRecord (f r) = isHwErrRecord r) :
    commonSize (modifyAt off f base rs) = commonSize rs ∧
      hwErrSize (modifyAt off f base rs) = hwErrSize rs := by
  obtain ⟨before, after, hrs, hmod⟩ := modifyAt_of_mem (f := f) hne hmem
  have hcommon : ∀ x : Bytes, commonSize (before ++ x :: after) =
      commonSize before + (commonSize [x] + commonSize after) := by
    intro x
    rw [← commonSize_append, ← commonSize_append, List.singleton_append]
  have hhw : ∀ x : Bytes, hwErrSize (before ++ x :: after) =
      hwErrSize before + (hwErrSize [x] + hwErrSize after) := by
    intro x
    rw [← hwErrSize_append, ← hwErrSize_append, List.singleton_append]
  rw [hmod, hrs, hcommon, hcommon, hhw, hhw]
  constructor <;>
    cases hr : isHwErrRecord r <;> simp [commonSize, hwErrSize, hclass, hr, hlen]

theorem sizes_maskAt {off : Nat} (hne : ∀ x ∈ rs, x ≠ [])
    (hmem : (off, r) ∈ located storeHeaderSize rs) (mask : UInt8) :
    commonSize (maskAt off mask rs) = commonSize rs ∧
      hwErrSize (maskAt off mask rs) = hwErrSize rs := by
  refine sizes_modifyAt hne hmem (setState_length _) ?_
  rw [isHwErrRecord, maskState, attributes_setState, isHwErrRecord]

theorem isHwErrRecord_addedRecord (authFormat : Bool) (req : UpdateRequest) (old : Option Bytes)
    (data : Bytes) : isHwErrRecord (addedRecord authFormat req old data) = req.isHwErr := by
  have hmask : ~~~efiVariableAppendWrite &&& efiVariableHardwareErrorRecord =
      efiVariableHardwareErrorRecord := by decide
  rw [isHwErrRecord, addedRecord, attributes_writtenRecord, hasAttribute, UInt32.and_assoc, hmask,
    UpdateRequest.isHwErr, hasAttribute]

end Sizes

section Counts

variable {P : Platform} {d d' : Driver} {rs rs' : List Bytes}

/-- The counters agree with a walk of the store. -/
structure Accounting (P : Platform) (d : Driver) : Prop where
  hwErr : d.hwErrVariableTotalSize = hwErrSize (storeRecords P.authFormat d.flash)
  common : d.commonVariableTotalSize = commonSize (storeRecords P.authFormat d.flash)
  last : d.nonVolatileLastVariableOffset = storeWalkEnd P.authFormat d.flash

/-- A store whose counters are right and whose free area is erased. -/
structure Counted (P : Platform) (d : Driver) (rs : List Bytes) : Prop where
  inv : NvInv P d rs
  accounted : Accounted d rs
  erased : Erased d.flash d.nonVolatileLastVariableOffset

theorem Counted.storeRecords_eq (h : Counted P d rs) : storeRecords P.authFormat d.flash = rs := by
  obtain ⟨header, m, hlayout⟩ := h.inv.flash.erased (h.inv.last ▸ h.erased)
  exact storeRecords_layout hlayout

theorem Counted.accounting (h : Counted P d rs) : Accounting P d := by
  obtain ⟨header, m, hlayout⟩ := h.inv.flash.erased (h.inv.last ▸ h.erased)
  refine ⟨?_, ?_, h.inv.last.trans hlayout.storeWalkEnd_eq.symm⟩
  · rw [h.storeRecords_eq, h.accounted.hwErr]
  · rw [h.storeRecords_eq, h.accounted.common]

theorem SameCounters.accounted (h : SameCounters d d') (hacc : Accounted d rs)
    (hcommon : commonSize rs' = commonSize rs) (hhw : hwErrSize rs' = hwErrSize rs) :
    Accounted d' rs' := by
  have htotals := h.totals
  simp only [Driver.totals, Totals.mk.injEq] at htotals
  exact ⟨by rw [htotals.1, hacc.common, hcommon], by rw [htotals.2.2, hacc.hwErr, hhw]⟩

theorem Counted.congr (h : Counted P d rs) (hinv : NvInv P d' rs) (hcounters : SameCounters d d')
    (hflash : d'.flash = d.flash) : Counted P d' rs :=
  ⟨hinv, hcounters.accounted h.accounted rfl rfl, by rw [hflash, hcounters.last]; exact h.erased⟩

theorem SameNv.counted (hsame : SameNv d d') (h : Counted P d rs) : Counted P d' rs :=
  h.congr (hsame.nvInv h.inv) ⟨hsame.totals, hsame.last⟩ hsame.flash

theorem Counted.maskAt {r : Bytes} {off : Nat} {mask : UInt8} (h : Counted P d rs)
    (hmem : (off, r) ∈ located storeHeaderSize rs) (hinv : NvInv P d' (maskAt off mask rs))
    (hcounters : SameCounters d d')
    (herased : Erased d.flash d.nonVolatileLastVariableOffset →
      Erased d'.flash d.nonVolatileLastVariableOffset) :
    Counted P d' (Variable.maskAt off mask rs) := by
  obtain ⟨hcommon, hhw⟩ := sizes_maskAt h.inv.flash.ne_nil hmem mask
  exact ⟨hinv, hcounters.accounted h.accounted hcommon hhw,
    by rw [hcounters.last]; exact herased h.erased⟩

theorem DeleteResult.counted {track : PointerTrack} {currPtr : Nat} {status : EfiStatus}
    (hres : DeleteResult P d rs track currPtr status d') (h : Counted P d rs)
    (ht : Tracked rs track currPtr) (hcounters : SameCounters d d')
    (herased : Erased d.flash d.nonVolatileLastVariableOffset →
      Erased d'.flash d.nonVolatileLastVariableOffset) : ∃ rs', Counted P d' rs' := by
  obtain ⟨r, hmem, -⟩ := ht.curr
  have hne := h.inv.flash.ne_nil
  cases hres with
  | failed _ _ hstatus hinv hflash himages => exact ⟨rs, h.congr hinv hcounters hflash⟩
  | half ptr _ _ hstatus htrack hinv himages =>
      obtain ⟨-, rt, hmemt, -⟩ := ht.inTransition ptr htrack
      exact ⟨_, h.maskAt hmemt hinv hcounters herased⟩
  | done _ hinv hhalf himages =>
      refine ⟨_, hinv, hcounters.accounted h.accounted ?_ ?_, by
        rw [hcounters.last]; exact herased h.erased⟩
      all_goals
        unfold deletedRecords
        cases hptr : track.inDeletedTransitionPtr with
        | none =>
            have hsizes := sizes_maskAt hne hmem varDeleted
            first | exact hsizes.1 | exact hsizes.2
        | some ptr =>
            obtain ⟨hoff, rt, hmemt, -⟩ := ht.inTransition ptr hptr
            have hsizes := sizes_maskAt hne hmemt varDeleted
            have hmem1 := mem_located_maskAt h.inv.flash varDeleted hmemt hmem hoff.symm
            have hne1 : ∀ x ∈ Variable.maskAt ptr varDeleted rs, x ≠ [] := by
              intro x hx
              rcases mem_modifyAt hne hmemt hx with hx | rfl
              · exact hne x hx
              · intro hnil
                have hlen := congrArg List.length hnil
                rw [maskState, setState_length] at hlen
                exact hne rt (mem_of_mem_located hmemt) (List.eq_nil_of_length_eq_zero hlen)
            have hsizes1 := sizes_maskAt hne1 hmem1 varDeleted
            first
              | exact hsizes1.1.trans hsizes.1
              | exact hsizes1.2.trans hsizes.2

theorem ReplaceResult.counted {track : PointerTrack} {o : Outcome}
    (hres : ReplaceResult P d rs track o) (h : Counted P d rs)
    (hok : track.isVolatile = false → TrackOk rs track) : ∃ rs', Counted P o.driver rs' := by
  cases hres with
  | absent exit hnone => exact ⟨rs, h⟩
  | volatile _ hvol hsame => exact ⟨rs, hsame.counted h⟩
  | deleted currPtr status exit _ hcurr hvol henv hcounters herased hdelete =>
      exact hdelete.counted h ((hok hvol).found currPtr hcurr) hcounters herased

/-- No block write fails from here on, and no fault tolerant write unless the store is empty. -/
structure FlashWorks (P : Platform) (d : Driver) : Prop where
  fvb : d.faults.fvb = []
  ftw : d.faults.ftw = [] ∨ storeRecords P.authFormat d.flash = []

theorem ReclaimResult.counted {updating updatingInTransition : Option Nat} {new : Option Bytes}
    {status : EfiStatus} (hres : ReclaimResult P d rs updating updatingInTransition new status d')
    (h : Counted P d rs)
    (hftw : d.faults.ftw = [] ∨ storeRecords P.authFormat d.flash = []) :
    ∃ rs', Counted P d' rs' := by
  cases hres with
  | refused n _ hnew hroom hinv hcounters hflash hfaults hhistory =>
      exact ⟨rs, h.congr hinv hcounters hflash⟩
  | failed junk _ hfailed hdead hinv hcommon hhwErr hflash hhistory =>
      rcases hftw with hworks | hempty
      · exact absurd hworks hfailed
      · have hrs : rs = [] := h.storeRecords_eq.symm.trans hempty
        obtain ⟨header, junk', tail, hlayout, -⟩ := hinv.flash
        have hall := storeRecords_layout hlayout
        rw [hflash, hempty] at hall
        have hnil : rs ++ junk = [] := (List.append_eq_nil_iff.mp hall.symm).1
        have hlast := hinv.last
        have hlast0 := h.inv.last
        rw [hnil] at hinv hcommon hhwErr hlast
        rw [hrs] at hlast0
        refine ⟨[], hinv, ⟨?_, ?_⟩, ?_⟩
        · rw [hcommon, h.accounted.common, hrs]
          rfl
        · rw [hhwErr, h.accounted.hwErr, hrs]
          rfl
        · rw [hflash, hlast, ← hlast0]
          exact h.erased
  | done _ hroom hinv herased htotals hhistory =>
      simp only [Driver.totals, listTotals, Totals.mk.injEq] at htotals
      exact ⟨_, hinv, ⟨htotals.1, htotals.2.2⟩, herased⟩

variable {req : UpdateRequest} {track : PointerTrack} {old : Option Bytes} {data : Bytes}

theorem InstallResult.counted {o : Outcome} (hres : InstallResult P d rs req track old data o)
    (h : Counted P d rs) (hok : track.isVolatile = false → TrackOk rs track)
    (hworks : FlashWorks P d)
    (hvolume : overQuota P d req (buildVariable P.authFormat req old data) = false →
      P.headerLength + d.nonVolatileLastVariableOffset +
        (buildVariable P.authFormat req old data).length < P.fvLength) :
    ∃ rs', Counted P o.driver rs' := by
  cases hres with
  | full exit hruntime hquota => exact ⟨rs, h⟩
  | reclaimed status exit _ hruntime hquota henv hcache hreclaim =>
      exact hreclaim.counted h hworks.ftw
  | unwritten status _ hstatus hquota henv hinv hcounters himages hrefused =>
      exact ⟨rs, h.congr hinv hcounters (hrefused hworks.fvb (hvolume hquota))⟩
  | written _ hquota henv hinv herased htotals himages _ hreplace =>
      refine hreplace.counted ⟨hinv, ?_, herased⟩ (fun hvol => (hok hvol).append _)
      have hclass := isHwErrRecord_addedRecord P.authFormat req old data
      have hlen : (addedRecord P.authFormat req old data).length =
          headerAlign (buildVariable P.authFormat req old data).length :=
        addedRecord_length ..
      have hacc := h.accounted
      cases hhw : req.isHwErr with
      | true =>
          rw [hhw] at hclass
          simp only [totalsWith, hhw, if_true, Driver.totals, Totals.mk.injEq] at htotals
          constructor
          · rw [htotals.1, commonSize_append, hacc.common]
            simp [commonSize, hclass]
          · rw [htotals.2.2, hwErrSize_append, hacc.hwErr]
            simp [hwErrSize, hclass, hlen]
      | false =>
          rw [hhw] at hclass
          simp only [totalsWith, hhw, Bool.false_eq_true, if_false, Driver.totals,
            Totals.mk.injEq] at htotals
          constructor
          · rw [htotals.1, commonSize_append, hacc.common]
            simp [commonSize, hclass, hlen]
          · rw [htotals.2.2, hwErrSize_append, hacc.hwErr]
            simp [hwErrSize, hclass]

theorem Prepared.counted {mark : Option Nat} (hprep : Prepared P d rs track mark d' rs')
    (h : Counted P d rs) (htracked : ∀ p, mark = some p → track.isVolatile = false →
      ∃ r, (p, r) ∈ located storeHeaderSize rs) (hworks : FlashWorks P d) :
    Counted P d' rs' ∧ FlashWorks P d' := by
  cases hprep with
  | same _ _ hsame _ =>
      refine ⟨hsame.counted h, by rw [hsame.fvb]; exact hworks.fvb, ?_⟩
      rw [hsame.ftw, hsame.flash]
      exact hworks.ftw
  | marked currPtr _ hvol henv hcounters hinv herased himages =>
      obtain ⟨r, hmem⟩ := htracked currPtr rfl hvol
      have hcounted := h.maskAt hmem hinv hcounters herased
      refine ⟨hcounted, henv.fvb hworks.fvb, ?_⟩
      rcases hworks.ftw with hftw | hempty
      · exact Or.inl (henv.ftw hftw)
      · rw [h.storeRecords_eq] at hempty
        rw [hempty] at hmem
        cases hmem

theorem TrackOk.marked (h : TrackOk rs track) {p : Nat} (hcurr : track.currPtr = some p) :
    ∃ r, (p, r) ∈ located storeHeaderSize rs := by
  obtain ⟨r, hmem, -⟩ := (h.found p hcurr).curr
  exact ⟨r, hmem⟩

theorem Prepared.trackOk {authFormat : Bool} {img : Bytes} {mark : Option Nat}
    (hprep : Prepared P d rs track mark d' rs') (hshow : Shows authFormat img rs)
    (h : TrackOk rs track) (hmark : ∀ p, mark = some p → track.currPtr = some p) :
    TrackOk rs' track := by
  cases hprep with
  | same _ _ _ _ => exact h
  | marked currPtr _ _ _ _ _ _ _ => exact h.mask hshow (hmark currPtr rfl)

/-- **An update keeps the counters right.** -/
theorem Counted.update (h : Counted P d rs) {ignoreRtCheck : Bool}
    (hvalid : ValidCall P d req ignoreRtCheck)
    (hplace : InPlaceRoom P d req (trackOf P d req ignoreRtCheck))
    (hvolume : VolumeRoom P d req (trackOf P d req ignoreRtCheck)) (hworks : FlashWorks P d) :
    ∃ rs', Counted P (updateVariableBody P d req (trackOf P d req ignoreRtCheck)).driver rs' := by
  have hbody := h.inv.update hvalid hplace
  unfold trackOf at hvolume ⊢
  generalize updateVariableBody P d req
    (findVariable P d req.variableName req.vendorGuid ignoreRtCheck) = o at hbody ⊢
  cases hbody with
  | stopped status exit hplan => exact ⟨rs, h⟩
  | deletedVolatile track currPtr _ hplan hvol hsame => exact ⟨rs, hsame.counted h⟩
  | deleted track currPtr status exit _ hplan hvol henv hcounters herased hdelete =>
      obtain ⟨hred, hcurr, -⟩ := plan_delete P d req hplan
      have hok := (h.inv.nvTrack_of_redirect hvalid.name_ne hred hvol).trackOk h.inv.flash.ne_nil
      exact hdelete.counted h (hok.found currPtr hcurr) hcounters herased
  | unmarked track currPtr data status _ hplan hstatus hinv hcounters hflash hfvb hftw himages =>
      exact ⟨rs, h.congr hinv hcounters hflash⟩
  | installedVolatile track mark data d1 d2 rs1 _ hplan hattr hprepared hsame ho =>
      obtain ⟨hred, -, _⟩ := plan_install P d req hplan
      have hok : track.isVolatile = false → TrackOk rs track := fun hvol =>
        (h.inv.nvTrack_of_redirect hvalid.name_ne hred hvol).trackOk h.inv.flash.ne_nil
      obtain ⟨hcounted, -⟩ := hprepared.counted h
        (fun p hp hvol => (hok hvol).marked (plan_install_mark P d req hplan p hp)) hworks
      have hcounted2 := hsame.counted hcounted
      rcases ho with ⟨status, rfl⟩ | hreplace
      · exact ⟨rs1, hcounted2⟩
      · exact hreplace.counted hcounted2 (fun hvol =>
          hprepared.trackOk h.inv.flash (hok hvol) (plan_install_mark P d req hplan))
  | installed track mark data d1 rs1 _ hplan hattr hprepared hinstall =>
      obtain ⟨hred, -, _⟩ := plan_install P d req hplan
      have hok : track.isVolatile = false → TrackOk rs track := fun hvol =>
        (h.inv.nvTrack_of_redirect hvalid.name_ne hred hvol).trackOk h.inv.flash.ne_nil
      obtain ⟨hcounted, hworks1⟩ := hprepared.counted h
        (fun p hp hvol => (hok hvol).marked (plan_install_mark P d req hplan p hp)) hworks
      obtain ⟨-, htotals, hdxe, hrt, hlast, -⟩ := hprepared.facts h.inv
      refine hinstall.counted hcounted (fun hvol =>
        hprepared.trackOk h.inv.flash (hok hvol) (plan_install_mark P d req hplan)) hworks1 ?_
      intro hquota
      rw [overQuota_congr req _ htotals hdxe hrt] at hquota
      rw [hlast]
      exact hvolume _ _ _ _ hplan hattr hquota

end Counts

section Run

variable {P : Platform} {d d' : Driver}

/-- A store image with non-volatile records only and an erased free area. -/
structure CleanImage (P : Platform) (img : Bytes) : Prop where
  length_eq : img.length = P.storeLength
  layout : ∃ header rs m, Layout P.authFormat img header rs (List.replicate m 0xff) ∧
    WellFormed P.authFormat rs ∧
    ∀ r ∈ rs, hasAttribute (attributes r) efiVariableNonVolatile = true

theorem Counted.powerOn {img : Bytes} (himg : CleanImage P img) (volatileStore : Bytes)
    (hob : Option Bytes) (faults : Faults) :
    ∃ rs, Counted P (powerOn P img volatileStore hob faults) rs := by
  obtain ⟨header, rs, m, hlayout, hwf, hnv⟩ := himg.layout
  have htotals := initTotals_layout hlayout hnv
  refine ⟨rs, .of_flash hlayout.shows hwf rfl hlayout.storeWalkEnd_eq himg.length_eq,
    ⟨?_, ?_⟩, ?_⟩
  · simp only [Variable.powerOn, Driver.setTotals, htotals]
  · simp only [Variable.powerOn, Driver.setTotals, htotals]
  · have hlast : storeWalkEnd P.authFormat img = _ := hlayout.storeWalkEnd_eq
    simp only [Variable.powerOn, Driver.setTotals, hlast]
    exact erased_of_layout hlayout

/-- A step in which no flash write fails, but a fault tolerant write of an empty store, and in
which a record written in place fits; after a power cut the free area is erased. -/
def StepCounts (P : Platform) (d : Driver) : Op → Prop
  | .update req ignoreRtCheck =>
      ValidCall P d req ignoreRtCheck ∧ InPlaceRoom P d req (trackOf P d req ignoreRtCheck) ∧
        VolumeRoom P d req (trackOf P d req ignoreRtCheck) ∧ FlashWorks P d
  | .reclaim => FlashWorks P d
  | .restart => ∀ img ∈ d.flash :: d.history, img.length = d.flash.length → CleanImage P img
  | .recordVarErrorFlag _ => True
  | .environment => True

theorem Counted.step {rs : List Bytes} {op : Op} (h : Counted P d rs) (hok : StepCounts P d op)
    (hstep : Step P d op d') : ∃ rs', Counted P d' rs' := by
  cases hstep with
  | update req ignoreRtCheck =>
      obtain ⟨hvalid, hplace, hvolume, hworks⟩ := hok
      exact h.update hvalid hplace hvolume hworks
  | recordVarErrorFlag flag =>
      obtain ⟨rs', hinv, hwritten, herased, hcounters, -⟩ := h.inv.recordVarErrorFlag flag
      refine ⟨rs', hinv, ?_, by rw [hcounters.last]; exact herased h.erased⟩
      cases hwritten with
      | same => exact hcounters.accounted h.accounted rfl rfl
      | changed off r f hmem hkey hf =>
          have hrec := h.inv.flash.isRecord r (mem_of_mem_located hmem)
          have hclass : isHwErrRecord (f r) = isHwErrRecord r := by
            rw [isHwErrRecord, (hf.agree hrec).2.1, isHwErrRecord]
          obtain ⟨hcommon, hhw⟩ :=
            sizes_modifyAt h.inv.flash.ne_nil hmem hf.length_eq hclass
          exact hcounters.accounted h.accounted hcommon hhw
  | reclaim =>
      obtain ⟨status, d1, heq, -, -, hres⟩ := h.inv.reclaimAll
      rw [heq]
      exact hres.counted h hok.ftw
  | environment _ hsame =>
      refine ⟨rs, h.inv.congr hsame.flash hsame.cache hsame.last, ⟨?_, ?_⟩, ?_⟩
      · rw [hsame.common, h.accounted.common]
      · rw [hsame.hwErr, h.accounted.hwErr]
      · rw [hsame.flash, hsame.last]
        exact h.erased
  | restart image volatileStore hob faults himage hlen =>
      exact Counted.powerOn (hok image himage hlen) volatileStore hob faults

/-- **The counters agree with a walk of the store**, in every run from a restart whose flash
writes succeed and whose in-place records fit. -/
theorem accounting_run {img volatileStore : Bytes} {hob : Option Bytes} {faults : Faults}
    {trace : List (Driver × Op)} (himg : CleanImage P img)
    (hok : ∀ x ∈ trace, StepCounts P x.1 x.2)
    (hrun : DriverRun P (powerOn P img volatileStore hob faults) trace d) : Accounting P d := by
  have hstep : ∀ s op s', (∃ rs, Counted P s rs) → StepCounts P s op → Step P s op s' →
      ∃ rs, Counted P s' rs := by
    rintro s op s' ⟨rs, h⟩ hcounts hstep
    exact h.step hcounts hstep
  obtain ⟨rs, h⟩ :=
    hrun.invariant hstep hok (Counted.powerOn himg volatileStore hob faults)
  exact h.accounting

end Run

section Sample

/-- The driver at boot with one variable of 37 bytes in flash. -/
def sampleRecord : Bytes :=
  addedRecord false (sampleRequest 65 letterA_ne 7 [1]) none [1]

theorem cleanImage_sample :
    CleanImage samplePlatform (storeImage sampleGuid 400 [sampleRecord]) where
  length_eq := storeImage_length (by decide)
  layout := ⟨_, [sampleRecord], _, layout_storeImage (by decide) (by decide)
    (by simpa using ⟨by decide, by decide⟩),
    by simpa [WellFormed] using fun _ =>
      ⟨⟨(sampleRequest 65 (by decide) 7 [1]).variableName, by decide, by decide⟩, by decide⟩,
    by simpa using by decide⟩

/-- A reclaim whose fault tolerant write succeeds. -/
theorem accounting_run_reclaim :
    Accounting samplePlatform (reclaim samplePlatform (powerOn samplePlatform
      (storeImage sampleGuid 400 [sampleRecord]) (storeImage sampleGuid 100 []) none
      Faults.none) false none none none).2 := by
  refine accounting_run cleanImage_sample ?_ (.single (.reclaim _))
  intro x hx
  rw [List.mem_singleton.mp hx]
  exact ⟨rfl, Or.inl rfl⟩

/-- When the fault tolerant write fails, the record is counted twice. -/
theorem reclaim_failed_counts_twice :
    let start := powerOn samplePlatform (storeImage sampleGuid 400 [sampleRecord])
      (storeImage sampleGuid 100 []) none ⟨[], [true], []⟩
    let d := (reclaim samplePlatform start false none none none).2
    (∃ trace, DriverRun samplePlatform start trace d) ∧
      start.commonVariableTotalSize = 40 ∧ d.commonVariableTotalSize = 80 ∧
      ¬Accounting samplePlatform d := by
  intro start d
  refine ⟨⟨_, .single (.reclaim start)⟩, by decide +kernel, by decide +kernel, ?_⟩
  intro hacc
  have hcommon := hacc.common
  revert hcommon
  decide +kernel

end Sample

end Variable
end Udk
