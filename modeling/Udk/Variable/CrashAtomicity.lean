import Udk.Variable.AtRest

/-!
# An update is atomic under power loss

On a store at rest an update first sets the old record in transition, then programs
the new one, and deletes the old one last.  Each image in between shows the old value
or the new one under the name of the update, and nothing else changes.
-/

namespace Udk
namespace Variable

open List

/-- The value of a variable once the request has been carried out. -/
def updatedValue (req : UpdateRequest) (old : Option (UInt32 × Bytes)) :
    Option (UInt32 × Bytes) :=
  if req.isDelete then none
  else
    some (req.attributes &&& ~~~efiVariableAppendWrite,
      if req.isAppend then (old.elim [] Prod.snd) ++ req.data else req.data)

section Images

variable {authFormat : Bool} {rs before after : List Bytes} {r w : Bytes}
variable {key : Guid × Bytes} {new : Option (UInt32 × Bytes)}

theorem AtomicImage.refl (rs : List Bytes) : AtomicImage authFormat rs key new rs :=
  ⟨fun _ _ => rfl, Or.inl rfl⟩

theorem AtomicImage.of_ofKey (h : Settled authFormat rs) {xs : List Bytes}
    (hadded : ∀ k, k ≠ key → ofKey authFormat isAdded xs k = ofKey authFormat isAdded rs k)
    (htrans : ∀ k, k ≠ key → ofKey authFormat isInTransition xs k = [])
    (hupdated : lookupRecords authFormat xs key = lookupRecords authFormat rs key ∨
      lookupRecords authFormat xs key = new) :
    AtomicImage authFormat rs key new xs where
  other := by
    intro k hk
    rw [lookupRecords_eq, lookupRecords_eq, hadded k hk, htrans k hk,
      ofKey_eq_nil h.noTransition]
  updated := hupdated

/-- A new record behind the others is the update, or an older one is found first. -/
theorem AtomicImage.appended (hs : Settled authFormat rs) {xs : List Bytes}
    (hxs : ∀ k, k ≠ key → ofKey authFormat isAdded xs k = ofKey authFormat isAdded rs k)
    (hxt : ∀ k, k ≠ key → ofKey authFormat isInTransition xs k = []) (hw : isAdded w = true)
    (hkey : recordKey authFormat w = key)
    (hold : ofKey authFormat isAdded xs key = ofKey authFormat isAdded rs key ∨
      ofKey authFormat isAdded xs key = [])
    (hnew : ofKey authFormat isAdded xs key = [] → some (recordValue authFormat w) = new) :
    AtomicImage authFormat rs key new (xs ++ [w]) := by
  refine .of_ofKey hs ?_ ?_ ?_
  · intro k hk
    rw [ofKey_append, hxs k hk, ofKey_singleton, hkey, if_neg (fun h => hk h.2.symm), append_nil]
  · intro k hk
    rw [ofKey_append, hxt k hk, ofKey_singleton, isAdded_not_inTransition hw]
    rfl
  · have hadded : ofKey authFormat isAdded (xs ++ [w]) key =
        ofKey authFormat isAdded xs key ++ [w] := by
      rw [ofKey_append, ofKey_singleton, if_pos ⟨hw, hkey⟩]
    rw [lookupRecords_of hadded rfl, hs.lookup]
    cases hcase : ofKey authFormat isAdded xs key with
    | nil =>
        rw [← hnew hcase]
        exact Or.inr rfl
    | cons x more =>
        rw [hcase] at hold
        rw [← hold.resolve_right (cons_ne_nil x more)]
        exact Or.inl rfl

section Masked

variable {r' : Bytes}

theorem ofKey_exchange (hkey : recordKey authFormat r' = recordKey authFormat r)
    (p : Bytes → Bool) {k : Guid × Bytes} (hk : k ≠ recordKey authFormat r) :
    ofKey authFormat p (before ++ r' :: after) k =
      ofKey authFormat p (before ++ r :: after) k := by
  rw [ofKey_append, ofKey_append, ofKey_cons, ofKey_cons, hkey, if_neg (fun h => hk h.2.symm),
    if_neg (fun h => hk h.2.symm)]

variable (hs : Settled authFormat (before ++ r :: after))
include hs

theorem ofKey_added_exchange (hlive : isLive r = true) (hdead : isAdded r' = false) :
    ofKey authFormat isAdded (before ++ r' :: after) (recordKey authFormat r) = [] := by
  obtain ⟨-, hb, ha⟩ := hs.ofKey_split hlive
  rw [ofKey_append, ofKey_cons, hb, ha, hdead]
  rfl

theorem ofKey_inTransition_nil (xs : List Bytes) (hxs : ∀ x ∈ xs, x ∈ before ++ r :: after)
    (k : Guid × Bytes) : ofKey authFormat isInTransition xs k = [] :=
  ofKey_eq_nil (fun x hx => hs.noTransition x (hxs x hx)) k

variable (hrec : IsRecord authFormat r) (hlive : isLive r = true)
include hlive

include hrec in
theorem atomicImage_marked :
    AtomicImage authFormat (before ++ r :: after) (recordKey authFormat r) new
      (before ++ maskState varInDeletedTransition r :: after) := by
  obtain ⟨hadded, hb, ha⟩ := hs.ofKey_split hlive
  obtain ⟨-, hkey, hvalue⟩ := maskState_record hrec hlive (Or.inl rfl)
  refine .of_ofKey hs (fun k hk => ofKey_exchange hkey _ hk) ?_ (Or.inl ?_)
  · intro k hk
    rw [ofKey_exchange hkey _ hk, ofKey_eq_nil hs.noTransition]
  · have htrans : ofKey authFormat isInTransition
        (before ++ maskState varInDeletedTransition r :: after) (recordKey authFormat r) =
          [maskState varInDeletedTransition r] := by
      rw [ofKey_append, ofKey_cons, hkey,
        if_pos ⟨(maskState_inTransition hrec hlive).1, rfl⟩,
        ofKey_inTransition_nil hs before (by simp +contextual),
        ofKey_inTransition_nil hs after (by simp +contextual)]
      rfl
    have hold : ofKey authFormat isAdded (before ++ r :: after) (recordKey authFormat r) = [r] := by
      rw [ofKey_append, ofKey_cons, hb, ha, if_pos ⟨hadded, rfl⟩]
      rfl
    rw [lookupRecords_of (ofKey_added_exchange hs hlive (maskState_inTransition hrec hlive).2)
      htrans, hs.lookup, hold]
    simp [hvalue]

include hrec in
theorem atomicImage_deleted :
    AtomicImage authFormat (before ++ r :: after) (recordKey authFormat r) none
      (before ++ maskState varDeleted r :: after) := by
  obtain ⟨-, hkey, -⟩ := maskState_record hrec hlive (Or.inr rfl)
  refine .of_ofKey hs (fun k hk => ofKey_exchange hkey _ hk) ?_ (Or.inr ?_)
  · intro k hk
    rw [ofKey_exchange hkey _ hk, ofKey_eq_nil hs.noTransition]
  · have htrans : ofKey authFormat isInTransition
        (before ++ maskState varDeleted r :: after) (recordKey authFormat r) = [] := by
      rw [ofKey_append, ofKey_cons, (maskState_deleted hrec hlive).1,
        ofKey_inTransition_nil hs before (by simp +contextual),
        ofKey_inTransition_nil hs after (by simp +contextual)]
      rfl
    rw [lookupRecords_of (ofKey_added_exchange hs hlive (maskState_deleted hrec hlive).2) htrans]
    rfl

theorem atomicImage_replaced (hkey' : recordKey authFormat r' = recordKey authFormat r)
    (hdead : isAdded r' = false) (hw : isAdded w = true)
    (hkey : recordKey authFormat w = recordKey authFormat r)
    (hnew : some (recordValue authFormat w) = new) :
    AtomicImage authFormat (before ++ r :: after) (recordKey authFormat r) new
      (before ++ r' :: after ++ [w]) := by
  refine .appended hs (fun k hk => ofKey_exchange hkey' _ hk) (fun k hk => ?_) hw hkey
    (Or.inr (ofKey_added_exchange hs hlive hdead)) (fun _ => hnew)
  rw [ofKey_exchange hkey' _ hk, ofKey_eq_nil hs.noTransition]

theorem atomicImage_reclaimed (hw : isAdded w = true)
    (hkey : recordKey authFormat w = recordKey authFormat r)
    (hnew : some (recordValue authFormat w) = new) :
    AtomicImage authFormat (before ++ r :: after) (recordKey authFormat r) new
      ((before ++ after).filter isAdded ++ [w]) := by
  obtain ⟨-, hb, ha⟩ := hs.ofKey_split hlive
  refine .appended hs (fun k hk => ?_) (fun k _ => ofKey_filter_inTransition k) hw hkey
    (Or.inr ?_) (fun _ => hnew)
  · rw [ofKey_filter_added, ofKey_append, ofKey_append, ofKey_cons,
      if_neg (fun h => hk h.2.symm), nil_append]
  · rw [ofKey_filter_added, ofKey_append, hb, ha]
    rfl

end Masked

theorem atomicImage_created (hs : Settled authFormat rs) {xs : List Bytes}
    (hxs : ∀ k, ofKey authFormat isAdded xs k = ofKey authFormat isAdded rs k)
    (hxt : ∀ k, ofKey authFormat isInTransition xs k = []) (hw : isAdded w = true)
    (hkey : recordKey authFormat w = key)
    (hnew : lookupRecords authFormat rs key = none → some (recordValue authFormat w) = new) :
    AtomicImage authFormat rs key new (xs ++ [w]) := by
  refine .appended hs (fun k _ => hxs k) (fun k _ => hxt k) hw hkey (Or.inl (hxs key)) fun h => ?_
  refine hnew ?_
  rw [hs.lookup, ← hxs, h]
  rfl

end Images

section AtRest

variable {P : Platform} {d d' : Driver} {rs : List Bytes}

theorem AtRest.inPlaceRoom (h : AtRest P d rs) (req : UpdateRequest)
    (cacheVariable : PointerTrack) : InPlaceRoom P d req cacheVariable :=
  fun _ _ _ _ _ _ hquota => ⟨h.erased, h.inv.fits h.accounted h.within hquota⟩

/-- An image that shows the update as a whole or not at all. -/
def IsAtomic (P : Platform) (rs : List Bytes) (key : Guid × Bytes)
    (new : Option (UInt32 × Bytes)) (img : Bytes) : Prop :=
  ∃ xs, Shows P.authFormat img xs ∧ WellFormed P.authFormat xs ∧
    AtomicImage P.authFormat rs key new xs

variable {req : UpdateRequest} {track : PointerTrack} {key : Guid × Bytes}
variable {new : Option (UInt32 × Bytes)} {xs : List Bytes}

theorem NewImages.isAtomic (hwf : WellFormed P.authFormat xs)
    (hxs : AtomicImage P.authFormat rs key new xs)
    (h : NewImages d d' (fun img => Shows P.authFormat img xs)) :
    NewImages d d' (IsAtomic P rs key new) :=
  h.mono (fun _ hs => ⟨xs, hs, hwf, hxs⟩)

theorem DeleteResult.isAtomic {currPtr : Nat} {status : EfiStatus}
    (h : DeleteResult P d xs track currPtr status d')
    (hnone : track.inDeletedTransitionPtr = none)
    (hxs : AtomicImage P.authFormat rs key new xs)
    (hdel : AtomicImage P.authFormat rs key new (maskAt currPtr varDeleted xs)) :
    NewImages d d' (IsAtomic P rs key new) := by
  cases h with
  | failed _ _ hstatus hinv hflash himages => exact himages.isAtomic hinv.wellFormed hxs
  | half ptr _ _ hstatus htrack hinv himages =>
      rw [hnone] at htrack
      cases htrack
  | done _ hinv hhalf himages =>
      have hrecords : deletedRecords track currPtr xs = maskAt currPtr varDeleted xs := by
        rw [deletedRecords, hnone]
      rw [hrecords] at hinv himages
      refine himages.mono ?_
      rintro img (hs | ⟨ptr, hptr, -⟩)
      · exact ⟨_, hs, hinv.wellFormed, hdel⟩
      · rw [hnone] at hptr
        cases hptr

theorem ReplaceResult.isAtomic {o : Outcome}
    (h : ReplaceResult P d xs track o)
    (hnone : track.isVolatile = false → track.inDeletedTransitionPtr = none)
    (hxs : AtomicImage P.authFormat rs key new xs)
    (hdel : ∀ currPtr, track.currPtr = some currPtr → track.isVolatile = false →
      AtomicImage P.authFormat rs key new (maskAt currPtr varDeleted xs)) :
    NewImages d o.driver (IsAtomic P rs key new) := by
  cases h with
  | absent exit hcurr => exact .refl d _
  | volatile _ hvol hsame => exact hsame.newImages _
  | deleted currPtr status exit _ hcurr hvol henv hcounters herased hdelete =>
      exact hdelete.isAtomic (hnone hvol) hxs (hdel currPtr hcurr hvol)

/-- Installing a record on a store whose images are known. -/
theorem InstallResult.isAtomic {old : Option Bytes} {data : Bytes}
    {o : Outcome} (h : InstallResult P d xs req track old data o)
    (hinv : NvInv P d xs)
    (hnone : track.isVolatile = false → track.inDeletedTransitionPtr = none)
    (hsize : (buildVariable P.authFormat req old data).length ≤ P.storeLength →
      recordKey P.authFormat (addedRecord P.authFormat req old data) = key →
      some (recordValue P.authFormat (addedRecord P.authFormat req old data)) =
        some (req.attributes &&& ~~~efiVariableAppendWrite, data) →
      isAdded (addedRecord P.authFormat req old data) = true →
      AtomicImage P.authFormat rs key new (xs ++ [addedRecord P.authFormat req old data]) ∧
      AtomicImage P.authFormat rs key new
        (keptRecords P.authFormat (trackedIn false track track.currPtr) none xs ++
          [addedRecord P.authFormat req old data]) ∧
      ∀ currPtr, track.currPtr = some currPtr → track.isVolatile = false →
        AtomicImage P.authFormat rs key new
          (maskAt currPtr varDeleted (xs ++ [addedRecord P.authFormat req old data])))
    (hfit : overQuota P d req (buildVariable P.authFormat req old data) = false →
      (buildVariable P.authFormat req old data).length ≤ P.storeLength)
    (hkey : key = keyOf req.variableName req.vendorGuid)
    (hxs : AtomicImage P.authFormat rs key new xs) :
    NewImages d o.driver (IsAtomic P rs key new) := by
  have hlt := hinv.storeLength_lt
  have hfacts : (buildVariable P.authFormat req old data).length ≤ P.storeLength →
      recordKey P.authFormat (addedRecord P.authFormat req old data) = key ∧
      some (recordValue P.authFormat (addedRecord P.authFormat req old data)) =
        some (req.attributes &&& ~~~efiVariableAppendWrite, data) ∧
      isAdded (addedRecord P.authFormat req old data) = true := by
    intro hle
    have h32 : (buildVariable P.authFormat req old data).length < 2 ^ 32 := by omega
    exact ⟨by rw [recordKey_addedRecord h32, hkey], by rw [recordValue_addedRecord h32],
      by rw [isAdded, state_addedRecord]; rfl⟩
  cases h with
  | full exit hruntime hquota => exact .refl d _
  | reclaimed status exit _ hruntime hquota henv hcache hreclaim =>
      cases hreclaim with
      | refused n _ hnew hroom hinv' hcounters hflash hfaults hhistory
      | failed junk _ hftw hdead hinv' hcommon hhwErr hflash hhistory =>
          exact .of_eq hhistory _
      | done _ hroom hinv' herased htotals hhistory =>
          have hin : trackedIn false track track.inDeletedTransitionPtr = none := by
            rw [trackedIn]
            cases hvol : track.isVolatile with
            | true => rfl
            | false => rw [hnone hvol]; rfl
          rw [reclaimedRecords, hin, Option.map_some, Option.toList_some, setState_padRecord]
            at hinv'
          have hle : (buildVariable P.authFormat req old data).length ≤ P.storeLength := by
            have hno := hroom _ rfl
            simp only [NoRoom, not_or, padRecord_length] at hno
            have := le_headerAlign (buildVariable P.authFormat req old data).length
            omega
          obtain ⟨hk, hv, ha⟩ := hfacts hle
          exact newImages_cons hhistory ⟨_, hinv'.flash, hinv'.wellFormed,
            (hsize hle hk hv ha).2.1⟩
  | unwritten status _ hstatus hquota henv hinv' hcounters himages _ =>
      exact himages.isAtomic hinv'.wellFormed hxs
  | written _ hquota henv hinv' herased htotals himages _ hreplace =>
      obtain ⟨hk, hv, ha⟩ := hfacts (hfit hquota)
      obtain ⟨happ, -, hdel⟩ := hsize (hfit hquota) hk hv ha
      refine .trans (himages.mono ?_) (hreplace.isAtomic hnone happ hdel)
      rintro img (hs | hs)
      · exact ⟨xs, hs, hinv.wellFormed, hxs⟩
      · exact ⟨_, hs, hinv'.wellFormed, happ⟩

theorem NvTrack.settled (h : NvTrack P.authFormat rs key track)
    (hs : Settled P.authFormat rs) : track.inDeletedTransitionPtr = none := by
  cases hptr : track.inDeletedTransitionPtr with
  | none => rfl
  | some ptr =>
      obtain ⟨⟨r, hmem, htrans, -⟩, -⟩ := h.inTransition ptr hptr
      rw [hs.noTransition r (mem_of_mem_located hmem)] at htrans
      cases htrans

theorem Settled.created (hs : Settled P.authFormat rs) {w : Bytes} (hw : isAdded w = true)
    (hkey : recordKey P.authFormat w = key)
    (hnew : lookupRecords P.authFormat rs key = none →
      some (recordValue P.authFormat w) = new) :
    AtomicImage P.authFormat rs key new (rs ++ [w]) ∧
      AtomicImage P.authFormat rs key new
        (keptRecords P.authFormat none none rs ++ [w]) := by
  have hkept : keptRecords P.authFormat none none rs = rs.filter isAdded := by
    rw [keptRecords_settled (by rw [remaining_none]; exact hs.noTransition), remaining_none]
  refine ⟨?_, ?_⟩
  · exact atomicImage_created hs (fun _ => rfl) (fun k => ofKey_eq_nil hs.noTransition k) hw hkey
      hnew
  · rw [hkept]
    exact atomicImage_created hs (fun k => ofKey_filter_added k)
      (fun k => ofKey_filter_inTransition k) hw hkey hnew

/-- The new record behind a store in which the old one has been set in transition. -/
theorem NvInv.replaced (h : NvInv P d rs) (hs : Settled P.authFormat rs) {r w : Bytes}
    {currPtr : Nat} (hmem : (currPtr, r) ∈ located storeHeaderSize rs) (hlive : isLive r = true)
    (hw : isAdded w = true) (hkey : recordKey P.authFormat w = recordKey P.authFormat r)
    (hnew : some (recordValue P.authFormat w) = new) :
    AtomicImage P.authFormat rs (recordKey P.authFormat r) new
        (maskAt currPtr varInDeletedTransition rs) ∧
      AtomicImage P.authFormat rs (recordKey P.authFormat r) new
        (maskAt currPtr varInDeletedTransition rs ++ [w]) ∧
      AtomicImage P.authFormat rs (recordKey P.authFormat r) new
        (keptRecords P.authFormat (some currPtr) none
          (maskAt currPtr varInDeletedTransition rs) ++ [w]) ∧
      AtomicImage P.authFormat rs (recordKey P.authFormat r) new
        (maskAt currPtr varDeleted (maskAt currPtr varInDeletedTransition rs ++ [w])) := by
  have hrec := h.flash.isRecord r (mem_of_mem_located hmem)
  have hne := h.flash.ne_nil
  obtain ⟨before, after, rfl, hoff⟩ := mem_located hmem
  have hbefore : ∀ x ∈ before, x ≠ [] := fun x hx => hne x (by simp [hx])
  have hmask : maskAt currPtr varInDeletedTransition (before ++ r :: after) = _ :=
    maskAt_split hbefore hoff varInDeletedTransition
  obtain ⟨hrec', hkey', -⟩ := maskState_record hrec hlive (Or.inl rfl)
  obtain ⟨htrans', hadded'⟩ := maskState_inTransition hrec hlive
  have hlive' := isLive_of_inTransition htrans'
  obtain ⟨-, hkey2, -⟩ := maskState_record hrec' hlive' (Or.inr rfl)
  rw [hmask]
  refine ⟨atomicImage_marked hs hrec hlive, ?_, ?_, ?_⟩
  · exact atomicImage_replaced hs hlive hkey' hadded' hw hkey hnew
  · have hne' : ∀ x ∈ before ++ maskState varInDeletedTransition r :: after, x ≠ [] := by
      intro x hx
      rcases mem_append.mp hx with hx | hx
      · exact hbefore x hx
      · rcases mem_cons.mp hx with rfl | hx
        · rintro hnil
          have := hrec'.length_ge
          rw [hnil] at this
          simp at this
        · exact hne x (by simp [hx])
    have hrem := remaining_split hne' hoff
    have hrest : ∀ x ∈ remaining (some currPtr) none
        (before ++ maskState varInDeletedTransition r :: after), isInTransition x = false := by
      rw [hrem]
      intro x hx
      exact hs.noTransition x (by rcases mem_append.mp hx with hx | hx <;> simp [hx])
    rw [keptRecords_settled hrest, hrem]
    exact atomicImage_reclaimed hs hlive hw hkey hnew
  · have hsplit : maskAt currPtr varDeleted
        (before ++ maskState varInDeletedTransition r :: (after ++ [w])) = _ :=
      maskAt_split hbefore hoff varDeleted
    rw [append_assoc, cons_append, hsplit, ← cons_append, ← append_assoc]
    exact atomicImage_replaced hs hlive (hkey2.trans hkey') (maskState_deleted hrec' hlive').2 hw
      hkey hnew

/-- **Every image of an update is atomic.** -/
theorem AtRest.update_isAtomic (h : AtRest P d rs) {ignoreRtCheck : Bool}
    (hvalid : ValidCall P d req ignoreRtCheck)
    (hnv : hasAttribute req.attributes efiVariableNonVolatile = true ∨ req.isDelete = true) :
    NewImages d (updateVariableBody P d req (trackOf P d req ignoreRtCheck)).driver
      (IsAtomic P rs (keyOf req.variableName req.vendorGuid)
        (updatedValue req (lookupRecords P.authFormat rs
          (keyOf req.variableName req.vendorGuid)))) := by
  have hinv := h.inv
  have hs := h.settled
  have hne := hinv.flash.ne_nil
  have hbody := hinv.update hvalid (h.inPlaceRoom req _)
  unfold trackOf
  generalize updateVariableBody P d req
    (findVariable P d req.variableName req.vendorGuid ignoreRtCheck) = o at hbody ⊢
  cases hbody with
  | stopped status exit hplan => exact .refl d _
  | deletedVolatile track currPtr _ hplan hvol hsame => exact hsame.newImages _
  | deleted track currPtr status exit _ hplan hvol henv hcounters herased hdelete =>
      obtain ⟨hred, hcurr, hdel⟩ := plan_delete P d req hplan
      have htrack := hinv.nvTrack_of_redirect hvalid.name_ne hred hvol
      obtain ⟨r, hmem, hlive, hkey⟩ := htrack.curr currPtr hcurr
      have hrec := hinv.flash.isRecord r (mem_of_mem_located hmem)
      refine hdelete.isAtomic (htrack.settled hs) (.refl rs) ?_
      rw [updatedValue, hdel, if_pos rfl, ← hkey]
      obtain ⟨before, after, rfl, hoff⟩ := mem_located hmem
      rw [maskAt_split (fun x hx => hne x (by simp [hx])) hoff]
      exact atomicImage_deleted hs hrec hlive
  | unmarked track currPtr data status _ hplan hstatus hinv' hcounters hflash hfvb hftw himages =>
      exact himages.isAtomic hinv.wellFormed (.refl rs)
  | installedVolatile track mark data d1 d2 rs1 _ hplan hattr hprepared hsame ho =>
      rcases hnv with hnv | hnv
      · rw [hattr] at hnv
        cases hnv
      · rw [plan_install_not_delete hplan] at hnv
        cases hnv
  | installed track mark data d1 rs1 _ hplan hattr hprepared hinstall =>
      obtain ⟨hinv1, htotals, hdxe, hrt, hlast, -⟩ := hprepared.facts hinv
      obtain ⟨hred, -, -⟩ := plan_install P d req hplan
      have hdel := plan_install_not_delete hplan
      have hnone : track.isVolatile = false → track.inDeletedTransitionPtr = none :=
        fun hvol => (hinv.nvTrack_of_redirect hvalid.name_ne hred hvol).settled hs
      have hfit : overQuota P d1 req (buildVariable P.authFormat req
          (track.currPtr.map (trackedRecord d1 track)) data) = false →
          (buildVariable P.authFormat req
            (track.currPtr.map (trackedRecord d1 track)) data).length ≤ P.storeLength := by
        intro hquota
        rw [overQuota_congr req _ htotals hdxe hrt] at hquota
        have hle := hinv.fits h.accounted h.within hquota
        have hal := le_headerAlign (buildVariable P.authFormat req
          (track.currPtr.map (trackedRecord d1 track)) data).length
        omega
      cases hprepared with
      | same _ _ hsame hmark =>
          obtain ⟨hdata, htrack⟩ := hinv.install_unmarked hvalid hplan hattr hmark
          refine (hsame.newImages _).trans (hinstall.isAtomic hinv1 hnone ?_ hfit rfl (.refl rs))
          intro _ hk hv ha
          have hin : trackedIn false track track.currPtr = none := by
            rw [trackedIn]
            rcases htrack with hvol | hcurr
            · rw [hvol]
              rfl
            · rw [hcurr]
              split_ifs <;> rfl
          have hnew : lookupRecords P.authFormat rs (keyOf req.variableName req.vendorGuid) =
              none → some (recordValue P.authFormat (addedRecord P.authFormat req
                (track.currPtr.map (trackedRecord d1 track)) data)) =
              updatedValue req (lookupRecords P.authFormat rs
                (keyOf req.variableName req.vendorGuid)) := by
            intro habsent
            rw [hv, habsent, updatedValue, hdel, if_neg (by decide), hdata]
            cases req.isAppend <;> rfl
          obtain ⟨happ, hkept⟩ := hs.created ha hk hnew
          rw [hin]
          refine ⟨happ, hkept, ?_⟩
          intro p hp hvol
          rcases htrack with hv | hcurr
          · rw [hv] at hvol
            cases hvol
          · rw [hcurr] at hp
            cases hp
      | marked currPtr _ hvol henv hcounters hinvm herased himages =>
          obtain ⟨hcurr, r, hmem, hlive, hkey, hdata⟩ := hinv.install_marked hvalid hplan hvol
          have hadded := isAdded_of_live hlive (hs.noTransition r (mem_of_mem_located hmem))
          have hold : lookupRecords P.authFormat rs (keyOf req.variableName req.vendorGuid) =
              some (recordValue P.authFormat r) := by
            obtain ⟨before, after, rfl, -⟩ := mem_located hmem
            obtain ⟨-, hb, ha⟩ := hs.ofKey_split hlive
            rw [hs.lookup, ← hkey, ofKey_append, ofKey_cons, hb, ha, if_pos ⟨hadded, rfl⟩]
            rfl
          have hmarkedImage : AtomicImage P.authFormat rs
              (keyOf req.variableName req.vendorGuid) (updatedValue req (lookupRecords P.authFormat
                rs (keyOf req.variableName req.vendorGuid)))
              (maskAt currPtr varInDeletedTransition rs) := by
            have hrec := hinv.flash.isRecord r (mem_of_mem_located hmem)
            rw [← hkey]
            obtain ⟨before, after, rfl, hoff⟩ := mem_located hmem
            rw [maskAt_split (fun x hx => hne x (by simp [hx])) hoff]
            exact atomicImage_marked hs hrec hlive
          refine (himages.isAtomic hinvm.wellFormed hmarkedImage).trans
            (hinstall.isAtomic hinv1 hnone ?_ hfit rfl hmarkedImage)
          intro _ hk hv ha
          have hin : trackedIn false track track.currPtr = some currPtr := by
            rw [trackedIn, hvol, hcurr]
            rfl
          have hnew : some (recordValue P.authFormat (addedRecord P.authFormat req
                (track.currPtr.map (trackedRecord d1 track)) data)) =
              updatedValue req (lookupRecords P.authFormat rs
                (keyOf req.variableName req.vendorGuid)) := by
            rw [hv, hold, updatedValue, hdel, if_neg (by decide), hdata]
            rfl
          obtain ⟨-, happ, hkept, hdeleted⟩ :=
            hinv.replaced hs hmem hlive ha (hk.trans hkey.symm) hnew
          rw [hkey] at happ hkept hdeleted
          rw [hin]
          refine ⟨happ, hkept, ?_⟩
          intro p hp _
          cases hcurr.symm.trans hp
          exact hdeleted

/-- Flash images noted since `d`, the latest first. -/
def imagesSince (d d' : Driver) : List Bytes :=
  d'.history.take (d'.history.length - d.history.length)

end AtRest

end Variable
end Udk
