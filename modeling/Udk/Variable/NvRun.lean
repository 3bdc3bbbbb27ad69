import Udk.Variable.Steps
import Udk.Variable.NvTrack

/-!
# The non-volatile store over whole runs

Flash writes may fail and the power may be cut.  As long as no record is written in
place over what a failed write has left, the store keeps `NvInv`, and so does every
image from which the driver can start again.
-/

/-!
## Recording an error in the error flag variable

`RecordVarErrorFlag` programs one data byte of the error flag variable.  Header and
name stay, so the store keeps its records up to that byte.
-/

namespace Udk
namespace Variable

section Record

variable {authFormat : Bool} {r c : Bytes}

theorem take_overlay (f : UInt8 → UInt8 → UInt8) (mem bs : Bytes) {k : Nat}
    (h : k ≤ mem.length) : (overlay f mem k bs).take k = mem.take k := by
  rw [overlay, List.append_assoc, List.take_append_of_le_length (by
    rw [List.length_take, Nat.min_eq_left h]), List.take_take, Nat.min_self]

theorem mirrors_overlay (f : UInt8 → UInt8 → UInt8) (bs : Bytes)
    (hr : IsRecord authFormat r) (hkey : recordKey authFormat r = varErrorFlagKey) :
    Mirrors authFormat r (overlay f r (getVariableDataOffset authFormat r) bs) where
  length_eq := overlay_length ..
  take_eq := take_overlay f r bs hr.dataOffset_le
  same := fun hne => absurd hkey hne

theorem Mirrors.overlay (h : Mirrors authFormat r c) (f g : UInt8 → UInt8 → UInt8)
    (bs bs' : Bytes) (hr : IsRecord authFormat r)
    (hkey : recordKey authFormat r = varErrorFlagKey) :
    Mirrors authFormat (Udk.overlay f r (getVariableDataOffset authFormat r) bs)
      (Udk.overlay g c (getVariableDataOffset authFormat r) bs') := by
  have hf := mirrors_overlay f bs hr hkey
  obtain ⟨-, -, hkey', hoff, -, -⟩ := hf.agree hr
  refine ⟨by rw [overlay_length, overlay_length, h.length_eq], ?_, ?_⟩
  · rw [hoff, take_overlay g c bs' (by rw [h.length_eq]; exact hr.dataOffset_le),
      take_overlay f r bs hr.dataOffset_le, h.take_eq]
  · intro hne
    rw [hkey'] at hne
    exact absurd hkey hne

end Record

section Step

variable {P : Platform} {d : Driver} {rs : List Bytes}

theorem varErrorFlagName_ne : varErrorFlagName.chars ≠ [] := by
  decide

/-- Where the error flag is found. -/
theorem NvInv.findVarErrorFlag (h : NvInv P d rs) {offset : Nat} {flag : UInt8}
    (hfind : Variable.findVarErrorFlag P d = some (offset, flag)) :
    ∃ off r, (off, r) ∈ located storeHeaderSize rs ∧ isLive r = true ∧
      recordKey P.authFormat r = varErrorFlagKey ∧
      offset = off + getVariableDataOffset P.authFormat r ∧
      flag = d.mNvVariableCache.getD offset 0 := by
  unfold Variable.findVarErrorFlag at hfind
  dsimp only at hfind
  cases hcurr : (findVariable P d varErrorFlagName edkiiVarErrorFlagGuid false).currPtr with
  | none =>
      rw [hcurr] at hfind
      cases hfind
  | some off =>
      rw [hcurr] at hfind
      simp only at hfind
      split_ifs at hfind with htype
      rw [Option.some.injEq, Prod.mk.injEq] at hfind
      obtain ⟨hoff, hflag⟩ := hfind
      have htrack : findVariable P d varErrorFlagName edkiiVarErrorFlagGuid false =
          findVariableIn P d varErrorFlagName edkiiVarErrorFlagGuid false .nv := by
        unfold findVariable at htype ⊢
        dsimp only at htype ⊢
        split_ifs at htype ⊢
        · rw [findVariableIn_type] at htype
          cases htype
        · rw [findVariableIn_type] at htype
          cases htype
        · rfl
      rw [htrack] at hcurr
      obtain ⟨r, hmem, hlive, hkey⟩ :=
        (h.nvTrack edkiiVarErrorFlagGuid false varErrorFlagName_ne).curr off hcurr
      obtain ⟨rsC, hshow, hmirror⟩ := h.cache
      obtain ⟨c, hmemC, hrc⟩ := mem_located_mirror hmirror hmem
      obtain ⟨rest, hdrop⟩ := hshow.drop_located hmemC
      have hr := h.flash.isRecord r (mem_of_mem_located hmem)
      have hcrec := hrc.isRecord hr
      refine ⟨off, r, hmem, hlive, hkey, ?_, ?_⟩
      · rw [← hoff, hdrop, getVariableDataOffset_append rest hcrec.headerSize_le_length,
          (hrc.agree hr).2.2.2.1]
      · rw [← hflag, hoff]

/-- The records after the error flag has been written: at most one data byte differs. -/
inductive FlagWritten (authFormat : Bool) (rs : List Bytes) : List Bytes → Prop
  | same : FlagWritten authFormat rs rs
  | changed (off : Nat) (r : Bytes) (f : Bytes → Bytes)
      (hmem : (off, r) ∈ located storeHeaderSize rs)
      (hkey : recordKey authFormat r = varErrorFlagKey) (hf : Mirrors authFormat r (f r)) :
      FlagWritten authFormat rs (modifyAt off f storeHeaderSize rs)

/-- **Recording an error.** -/
theorem NvInv.recordVarErrorFlag (h : NvInv P d rs) (flag : UInt8) :
    ∃ rs', NvInv P (recordVarErrorFlag P d flag) rs' ∧ FlagWritten P.authFormat rs rs' ∧
      (Erased d.flash d.nonVolatileLastVariableOffset →
        Erased (recordVarErrorFlag P d flag).flash d.nonVolatileLastVariableOffset) ∧
      SameCounters d (recordVarErrorFlag P d flag) ∧
      NewImages d (recordVarErrorFlag P d flag) (fun img =>
        Shows P.authFormat img rs ∨ Shows P.authFormat img rs') := by
  unfold Variable.recordVarErrorFlag
  cases hdxe : d.mEndOfDxe with
  | false =>
      rw [if_pos (by decide)]
      exact ⟨rs, h.congr rfl rfl rfl, .same, id, ⟨rfl, rfl⟩, .of_eq rfl _⟩
  | true =>
      rw [if_neg (by decide)]
      cases hfind : Variable.findVarErrorFlag P d with
      | none => exact ⟨rs, h, .same, id, .refl d, .refl d _⟩
      | some entry =>
          obtain ⟨offset, varErrFlag⟩ := entry
          obtain ⟨off, r, hmem, hlive, hkey, hoff, -⟩ := h.findVarErrorFlag hfind
          simp only
          by_cases hsame : (varErrFlag &&& flag == varErrFlag) = true
          · rw [if_pos hsame]
            exact ⟨rs, h, .same, id, .refl d, .refl d _⟩
          · rw [if_neg hsame]
            have hr := h.flash.isRecord r (mem_of_mem_located hmem)
            have hlv := h.wellFormed r (mem_of_mem_located hmem) hlive
            have hsize := hr.variableSize_le
            have hk : getVariableDataOffset P.authFormat r + 1 ≤ r.length := by
              have hpos := hlv.data_pos
              rw [variableSize] at hsize
              omega
            rcases updateVariableStore_nv P d offset [varErrFlag &&& flag] (by simp) with
              ⟨heq, -⟩ | ⟨status, n, fvb, heq, hres, hfvb⟩
            · rw [heq]
              exact ⟨rs, h, .same, id, .refl d, .refl d _⟩
            · rw [heq]
              rcases hres with ⟨rfl, rfl⟩ | ⟨rfl, hn⟩
              · simp only [EfiStatus.isError, bne_self_eq_false, Bool.false_eq_true, if_false,
                  List.take_length]
                have hf := mirrors_overlay P.flashKind.combine [varErrFlag &&& flag] hr hkey
                have hmod := h.modify hmem
                  { d.wrote (P.program d.flash offset [varErrFlag &&& flag]) fvb with
                    mNvVariableCache := copyMem d.mNvVariableCache offset [flag] }
                  (fun x => overlay P.flashKind.combine x
                    (getVariableDataOffset P.authFormat r) [varErrFlag &&& flag])
                  (fun x => copyMem x (getVariableDataOffset P.authFormat r) [flag])
                  (getVariableDataOffset P.authFormat r) [varErrFlag &&& flag] [flag]
                  hk rfl rfl (fun _ _ => rfl) (hf.isRecord hr)
                  (fun c hc => hc.overlay _ _ _ _ hr hkey)
                  (fun _ => ⟨hf.hasName hr hlv.hasName, by
                    rw [(hf.agree hr).2.2.2.2.1]
                    exact hlv.data_pos⟩)
                  (by rw [hoff]; rfl) (by rw [hoff]) rfl
                exact ⟨_, hmod.1, .changed off r _ hmem hkey hf, hmod.2, ⟨rfl, rfl⟩,
                  newImages_cons rfl (Or.inr hmod.1.flash)⟩
              · have hn0 : n = 0 := by simpa using hn
                subst hn0
                simp only [EfiStatus.isError, bne_iff_ne, ne_eq, reduceCtorEq, not_false_eq_true,
                  if_true, List.take_zero, program_nil]
                exact ⟨rs, h.congr rfl rfl rfl, .same, id, ⟨rfl, rfl⟩,
                  newImages_cons rfl (Or.inl h.flash)⟩

end Step

end Variable
end Udk

namespace Udk
namespace Variable

section Parts

variable {P : Platform} {d d' : Driver} {rs : List Bytes} {track : PointerTrack} {o : Outcome}

/-- An image from which the driver can start. -/
def ImageOk (P : Platform) (img : Bytes) : Prop :=
  ∃ rs, Shows P.authFormat img rs ∧ WellFormed P.authFormat rs

theorem NvInv.imageOk (h : NvInv P d rs) : ImageOk P d.flash :=
  ⟨rs, h.flash, h.wellFormed⟩

theorem SameNv.newImages (h : SameNv d d') (Q : Bytes → Prop) : NewImages d d' Q :=
  .of_eq h.history Q

theorem SameNv.nvInv (h : SameNv d d') (hinv : NvInv P d rs) : NvInv P d' rs :=
  hinv.congr h.flash h.cache h.last

theorem NewImages.imageOk {rs : List Bytes} (hwf : WellFormed P.authFormat rs)
    (h : NewImages d d' (fun img => Shows P.authFormat img rs)) : NewImages d d' (ImageOk P) :=
  h.mono (fun _ hs => ⟨rs, hs, hwf⟩)

/-- The invariant afterwards, and images that can be started from on the way. -/
def KeepsStore (P : Platform) (d d' : Driver) : Prop :=
  (∃ rs, NvInv P d' rs) ∧ NewImages d d' (ImageOk P)

theorem KeepsStore.trans {d'' : Driver} (h : NewImages d d' (ImageOk P))
    (h' : KeepsStore P d' d'') : KeepsStore P d d'' :=
  ⟨h'.1, h.trans h'.2⟩

theorem SameNv.keepsStore (h : SameNv d d') (hinv : NvInv P d rs) : KeepsStore P d d' :=
  ⟨⟨rs, h.nvInv hinv⟩, h.newImages _⟩

theorem DeleteResult.keepsStore {currPtr : Nat} {status : EfiStatus}
    (h : DeleteResult P d rs track currPtr status d') : KeepsStore P d d' := by
  cases h with
  | failed _ _ hstatus hinv hflash himages => exact ⟨⟨rs, hinv⟩, himages.imageOk hinv.wellFormed⟩
  | half ptr _ _ hstatus htrack hinv himages => exact ⟨⟨_, hinv⟩, himages.imageOk hinv.wellFormed⟩
  | done _ hinv hhalf himages =>
      refine ⟨⟨_, hinv⟩, himages.mono ?_⟩
      rintro img (hs | ⟨ptr, hptr, hs⟩)
      · exact ⟨_, hs, hinv.wellFormed⟩
      · exact ⟨_, hs, hhalf ptr hptr⟩

theorem ReplaceResult.keepsStore (hinv : NvInv P d rs)
    (h : ReplaceResult P d rs track o) : KeepsStore P d o.driver := by
  cases h with
  | absent exit hnone => exact (SameNv.refl d).keepsStore hinv
  | volatile _ hvol hsame => exact hsame.keepsStore hinv
  | deleted currPtr status exit _ hcurr hvol henv hcounters herased hdelete =>
      exact hdelete.keepsStore

theorem ReclaimResult.keepsStore {updating updatingInTransition : Option Nat}
    {new : Option Bytes} {status : EfiStatus}
    (h : ReclaimResult P d rs updating updatingInTransition new status d') :
    KeepsStore P d d' := by
  cases h with
  | refused n _ hnew hroom hinv hcounters hflash hfaults hhistory =>
      exact ⟨⟨rs, hinv⟩, .of_eq hhistory _⟩
  | failed junk _ hftw hdead hinv hcommon hhwErr hflash hhistory =>
      exact ⟨⟨_, hinv⟩, .of_eq hhistory _⟩
  | done _ hroom hinv herased htotals hhistory =>
      exact ⟨⟨_, hinv⟩, newImages_cons hhistory hinv.imageOk⟩

theorem InstallResult.keepsStore {req : UpdateRequest}
    {old : Option Bytes} {data : Bytes} (hinv : NvInv P d rs)
    (h : InstallResult P d rs req track old data o) : KeepsStore P d o.driver := by
  cases h with
  | full exit hruntime hquota => exact (SameNv.refl d).keepsStore hinv
  | reclaimed status exit _ hruntime hquota henv hcache hreclaim => exact hreclaim.keepsStore
  | unwritten status _ hstatus hquota henv hinv' hcounters himages _ =>
      exact ⟨⟨rs, hinv'⟩, himages.imageOk hinv.wellFormed⟩
  | written _ hquota henv hinv' herased htotals himages _ hreplace =>
      refine .trans (himages.mono ?_) (hreplace.keepsStore hinv')
      rintro img (hs | hs)
      · exact ⟨rs, hs, hinv.wellFormed⟩
      · exact ⟨_, hs, hinv'.wellFormed⟩

theorem Prepared.newImages {mark : Option Nat} {rs1 : List Bytes}
    (h : Prepared P d rs track mark d' rs1) : NewImages d d' (ImageOk P) := by
  cases h with
  | same _ _ hsame _ => exact hsame.newImages _
  | marked currPtr _ hvol henv hcounters hinv herased himages =>
      exact himages.imageOk hinv.wellFormed

theorem BodyResult.keepsStore {req : UpdateRequest} {cacheVariable : PointerTrack}
    (hinv : NvInv P d rs) (h : BodyResult P d rs req cacheVariable o) :
    KeepsStore P d o.driver := by
  cases h with
  | stopped status exit hplan => exact (SameNv.refl d).keepsStore hinv
  | deletedVolatile track currPtr _ hplan hvol hsame => exact hsame.keepsStore hinv
  | deleted track currPtr status exit _ hplan hvol henv hcounters herased hdelete =>
      exact hdelete.keepsStore
  | unmarked track currPtr data status _ hplan hstatus hinv' hcounters hflash hfvb hftw himages =>
      exact ⟨⟨rs, hinv'⟩, himages.imageOk hinv.wellFormed⟩
  | installedVolatile track mark data d1 d2 rs1 _ hplan hattr hprepared hsame ho =>
      have hinv1 := (hprepared.facts hinv).1
      refine .trans (hprepared.newImages.trans (hsame.newImages _)) ?_
      rcases ho with ⟨status, rfl⟩ | hreplace
      · exact (SameNv.refl d2).keepsStore (hsame.nvInv hinv1)
      · exact hreplace.keepsStore (hsame.nvInv hinv1)
  | installed track mark data d1 rs1 _ hplan hattr hprepared hinstall =>
      exact .trans hprepared.newImages (hinstall.keepsStore (hprepared.facts hinv).1)

end Parts

section Run

variable {P : Platform} {d d' : Driver}

/-- The store of a driver at rest, and the images it may start from again. -/
structure RunInv (P : Platform) (d : Driver) : Prop where
  store : ∃ rs, NvInv P d rs
  images : ∀ img ∈ d.history, ImageOk P img

/-- A step that writes no record over bytes that are not erased. -/
def StepFits (P : Platform) (d : Driver) : Op → Prop
  | .update req ignoreRtCheck =>
      ValidCall P d req ignoreRtCheck ∧ InPlaceRoom P d req (trackOf P d req ignoreRtCheck)
  | _ => True

theorem RunInv.of_keepsStore (h : RunInv P d) (hstep : KeepsStore P d d') : RunInv P d' :=
  ⟨hstep.1, hstep.2.forall h.images⟩

theorem NvInv.powerOn {img : Bytes} (himg : ImageOk P img) (hlen : img.length = P.storeLength)
    (volatileStore : Bytes) (hob : Option Bytes) (faults : Faults) :
    ∃ rs, NvInv P (powerOn P img volatileStore hob faults) rs := by
  obtain ⟨rs, ⟨header, junk, tail, hlayout, hdead⟩, hwf⟩ := himg
  exact ⟨rs ++ junk, .of_flash hlayout.shows (hwf.append_dead hdead) rfl
    hlayout.storeWalkEnd_eq hlen⟩

theorem NvInv.reclaimAll {rs : List Bytes} (h : NvInv P d rs) :
    ∃ status d', Variable.reclaim P d false none none none = (status, d') ∧ SameEnv d d' ∧
      d'.mNvVariableCache = d'.flash ∧ ReclaimResult P d rs none none none status d' :=
  h.reclaim none (fun _ _ _ hnone => by cases hnone) (fun _ hn => by cases hn)

theorem RunInv.step {op : Op} (h : RunInv P d) (hok : StepFits P d op) (hstep : Step P d op d') :
    RunInv P d' := by
  obtain ⟨rs, hinv⟩ := h.store
  cases hstep with
  | update req ignoreRtCheck =>
      exact h.of_keepsStore ((hinv.update hok.1 hok.2).keepsStore hinv)
  | recordVarErrorFlag flag =>
      obtain ⟨rs', hinv', -, -, -, himages⟩ := hinv.recordVarErrorFlag flag
      refine h.of_keepsStore ⟨⟨rs', hinv'⟩, himages.mono ?_⟩
      rintro img (hs | hs)
      · exact ⟨rs, hs, hinv.wellFormed⟩
      · exact ⟨rs', hs, hinv'.wellFormed⟩
  | reclaim =>
      obtain ⟨status, d1, heq, -, -, hres⟩ := hinv.reclaimAll
      rw [heq]
      exact h.of_keepsStore hres.keepsStore
  | environment _ hsame =>
      refine ⟨⟨rs, hinv.congr hsame.flash hsame.cache hsame.last⟩, ?_⟩
      rw [hsame.history]
      exact h.images
  | restart image volatileStore hob faults himage hlen =>
      refine ⟨NvInv.powerOn ?_ (hlen.trans hinv.flash_length) volatileStore hob faults, ?_⟩
      · rcases List.mem_cons.mp himage with rfl | hmem
        · exact hinv.imageOk
        · exact h.images image hmem
      · intro img himg
        cases himg

theorem RunInv.run {trace : List (Driver × Op)} (h : RunInv P d)
    (hok : ∀ x ∈ trace, StepFits P x.1 x.2) (hrun : DriverRun P d trace d') : RunInv P d' :=
  hrun.invariant (fun _ _ _ hs hfits hstep => RunInv.step hs hfits hstep) hok h

end Run

end Variable
end Udk
