import Udk.Variable.NvInvariant

/-!
# Programming the non-volatile store in place

Two kinds of writes happen in place: the state of a live record is cleared bit by
bit, and a new record is programmed behind the last one in four steps.  Both keep
`NvInv`, whether they succeed or not, and every flash image in between shows the
records of before or of after.
-/

namespace Udk
namespace Variable

open List

variable {Q : Bytes → Prop}

/-- Everything but flash, the cache, the totals and the end of the non-volatile store. -/
structure SameEnv (d d' : Driver) : Prop where
  hob : d'.hob = d.hob
  volatileStore : d'.volatileStore = d.volatileStore
  fvbInstance : d'.fvbInstance = d.fvbInstance
  volatileLast : d'.volatileLastVariableOffset = d.volatileLastVariableOffset
  mEndOfDxe : d'.mEndOfDxe = d.mEndOfDxe
  atRuntime : d'.atRuntime = d.atRuntime
  varErrFlag : d'.mCurrentBootVarErrFlag = d.mCurrentBootVarErrFlag
  fvb : d.faults.fvb = [] → d'.faults.fvb = []
  ftw : d.faults.ftw = [] → d'.faults.ftw = []
  pool : d'.faults.pool = d.faults.pool

/-- The counters of the non-volatile store are not touched. -/
structure SameCounters (d d' : Driver) : Prop where
  totals : d'.totals = d.totals
  last : d'.nonVolatileLastVariableOffset = d.nonVolatileLastVariableOffset

/-- Flash images noted since `d` satisfy `Q`. -/
def NewImages (d d' : Driver) (Q : Bytes → Prop) : Prop :=
  ∃ new, d'.history = new ++ d.history ∧ ∀ img ∈ new, Q img

namespace SameEnv

variable {d d' d'' : Driver}

theorem refl (d : Driver) : SameEnv d d :=
  ⟨rfl, rfl, rfl, rfl, rfl, rfl, rfl, id, id, rfl⟩

theorem trans (h : SameEnv d d') (h' : SameEnv d' d'') : SameEnv d d'' :=
  ⟨h'.hob.trans h.hob, h'.volatileStore.trans h.volatileStore,
    h'.fvbInstance.trans h.fvbInstance, h'.volatileLast.trans h.volatileLast,
    h'.mEndOfDxe.trans h.mEndOfDxe, h'.atRuntime.trans h.atRuntime,
    h'.varErrFlag.trans h.varErrFlag, fun hd => h'.fvb (h.fvb hd),
    fun hd => h'.ftw (h.ftw hd), h'.pool.trans h.pool⟩

end SameEnv

theorem SameCounters.refl (d : Driver) : SameCounters d d := ⟨rfl, rfl⟩

theorem SameCounters.trans {d d' d'' : Driver}
    (h : SameCounters d d') (h' : SameCounters d' d'') : SameCounters d d'' :=
  ⟨h'.totals.trans h.totals, h'.last.trans h.last⟩

theorem NewImages.of_eq {d d' : Driver} (h : d'.history = d.history) (Q : Bytes → Prop) :
    NewImages d d' Q :=
  ⟨[], by rw [h, nil_append], by simp⟩

theorem NewImages.refl (d : Driver) (Q : Bytes → Prop) : NewImages d d Q :=
  .of_eq rfl Q

theorem NewImages.trans {d d' d'' : Driver}
    (h : NewImages d d' Q) (h' : NewImages d' d'' Q) : NewImages d d'' Q := by
  obtain ⟨new, hnew, hQ⟩ := h
  obtain ⟨new', hnew', hQ'⟩ := h'
  refine ⟨new' ++ new, by rw [hnew', hnew, append_assoc], ?_⟩
  intro img himg
  rcases mem_append.mp himg with himg | himg
  · exact hQ' img himg
  · exact hQ img himg

theorem NewImages.mono {d d' : Driver} {Q Q' : Bytes → Prop}
    (h : NewImages d d' Q) (hQ : ∀ img, Q img → Q' img) : NewImages d d' Q' := by
  obtain ⟨new, hnew, himgs⟩ := h
  exact ⟨new, hnew, fun img himg => hQ img (himgs img himg)⟩

theorem NewImages.forall {d d' : Driver} (h : NewImages d d' Q)
    (hd : ∀ img ∈ d.history, Q img) : ∀ img ∈ d'.history, Q img := by
  obtain ⟨new, hnew, hQ⟩ := h
  intro img himg
  rw [hnew, mem_append] at himg
  exact himg.elim (hQ img) (hd img)

theorem sameEnv_wrote {d : Driver} {img : Bytes} {fvb : List Bool}
    (h : d.faults.fvb = [] → fvb = []) : SameEnv d (d.wrote img fvb) :=
  ⟨rfl, rfl, rfl, rfl, rfl, rfl, rfl, h, id, rfl⟩

theorem newImages_cons {d d' : Driver} {img : Bytes}
    (hist : d'.history = img :: d.history) (h : Q img) : NewImages d d' Q :=
  ⟨[img], hist, fun _ hx => by rwa [mem_singleton.mp hx]⟩

section Modify

variable {P : Platform} {d : Driver} {rs : List Bytes} {off : Nat} {r : Bytes}
  {authFormat : Bool} {mask : UInt8}

theorem modifyAt_congr {f g : Bytes → Bytes} {base : Nat}
    (hne : ∀ x ∈ rs, x ≠ []) (hmem : (off, r) ∈ located base rs) (hfg : f r = g r) :
    modifyAt off f base rs = modifyAt off g base rs := by
  obtain ⟨before, after, rfl, rfl⟩ := mem_located hmem
  have hb : ∀ x ∈ before, x ≠ [] := fun x hx => hne x (by simp [hx])
  rw [modifyAt_split hb, modifyAt_split hb, hfg]

theorem Shows.modify {img : Bytes}
    (h : Shows authFormat img rs) (hmem : (off, r) ∈ located storeHeaderSize rs)
    (combine : UInt8 → UInt8 → UInt8) {f : Bytes → Bytes} {k : Nat} {bs : Bytes}
    (hk : k + bs.length ≤ r.length) (hf : f r = overlay combine r k bs)
    (hrec : IsRecord authFormat (f r)) :
    Shows authFormat (overlay combine img (off + k) bs) (modifyAt off f storeHeaderSize rs) := by
  have hne := h.ne_nil
  have hflen : (f r).length = r.length := by rw [hf, overlay_length]
  obtain ⟨header, junk, tail, hlayout, hdead⟩ := h
  have hmem' : (off, r) ∈ located storeHeaderSize (rs ++ junk) := by
    rw [located_append]
    exact mem_append_left _ hmem
  have hover := hlayout.overlay_located combine hmem' hk
  have hmod := modifyAt_congr (fun x hx => ne_of_apply_ne List.length (by
    have := (hlayout.records x hx).length_ge
    simp only [length_nil]
    omega)) hmem' (f := fun x => overlay combine x k bs) (g := f) hf.symm
  rw [hmod] at hover
  have hnew := hlayout.modify hmem' hflen hrec
  rw [← hover] at hnew
  obtain ⟨before, after, hrs, hoff⟩ := mem_located hmem
  have hbefore : ∀ x ∈ before, x ≠ [] := fun x hx => hne x (by simp [hrs, hx])
  refine ⟨header, junk, tail, ?_, hdead⟩
  rw [hrs, hoff, modifyAt_split hbefore]
  rw [hrs, hoff, append_assoc, cons_append, modifyAt_split hbefore] at hnew
  rwa [append_assoc, cons_append]

/-- A write inside one record of flash and of the cache. -/
theorem NvInv.modify (h : NvInv P d rs) (hmem : (off, r) ∈ located storeHeaderSize rs)
    (d' : Driver) (f g : Bytes → Bytes) (k : Nat) (bs bs' : Bytes)
    (hk : k + bs.length ≤ r.length) (hlen : bs'.length = bs.length)
    (hf : f r = overlay P.flashKind.combine r k bs)
    (hg : ∀ c, Mirrors P.authFormat r c → g c = copyMem c k bs')
    (hrec : IsRecord P.authFormat (f r))
    (hmirror : ∀ c, Mirrors P.authFormat r c → Mirrors P.authFormat (f r) (g c))
    (hlive : isLive (f r) = true → LiveRecord P.authFormat (f r))
    (hflash : d'.flash = P.program d.flash (off + k) bs)
    (hcache : d'.mNvVariableCache = copyMem d.mNvVariableCache (off + k) bs')
    (hlast : d'.nonVolatileLastVariableOffset = d.nonVolatileLastVariableOffset) :
    NvInv P d' (modifyAt off f storeHeaderSize rs) ∧
      (Erased d.flash d.nonVolatileLastVariableOffset →
        Erased d'.flash d.nonVolatileLastVariableOffset) := by
  have hne := h.flash.ne_nil
  have hflen : (f r).length = r.length := by rw [hf, overlay_length]
  have hrange := le_of_mem_located hmem
  have hdropF : d'.flash.drop d.nonVolatileLastVariableOffset =
      d.flash.drop d.nonVolatileLastVariableOffset := by
    rw [hflash, Platform.program, overlay_drop _ _ (by rw [h.last]; omega)]
  have hdropC : d'.mNvVariableCache.drop d.nonVolatileLastVariableOffset =
      d.mNvVariableCache.drop d.nonVolatileLastVariableOffset := by
    rw [hcache, copyMem, overlay_drop _ _ (by rw [h.last]; omega)]
  have hmodlen := flatten_length_modifyAt (f := f) hne hmem hflen
  refine ⟨⟨?_, ?_, ?_, ?_, ?_, ?_, ?_⟩, ?_⟩
  · rw [hflash]
    exact h.flash.modify hmem _ hk hf hrec
  · obtain ⟨rsC, hshow, hforall⟩ := h.cache
    obtain ⟨c, hmemC, hrc⟩ := mem_located_mirror hforall hmem
    refine ⟨modifyAt off g storeHeaderSize rsC, ?_, forall₂_modifyAt hforall ?_⟩
    · rw [hcache]
      exact hshow.modify hmemC _ (by rw [hrc.length_eq, hlen]; exact hk) (hg c hrc)
        ((hmirror c hrc).isRecord hrec)
    · intro r' c' hr' hrc'
      have hsame := located_unique hne hr' hmem
      subst hsame
      exact hmirror c' hrc'
  · intro x hx hxlive
    rcases mem_modifyAt hne hmem hx with hx | rfl
    · exact h.wellFormed x hx hxlive
    · exact hlive hxlive
  · rw [hlast, hmodlen, h.last]
  · rw [hlast, Erased, Erased, hdropF, hdropC]
    exact h.erased
  · rw [hflash, program_length, h.flash_length]
  · rw [hcache, copyMem_length, h.cache_length]
  · rw [Erased, Erased, hdropF]
    exact id

/-- Clear state bits of a record. -/
def maskState (mask : UInt8) (r : Bytes) : Bytes :=
  setState r (state r &&& mask)

/-- The records after state bits of the one at an offset have been cleared. -/
def maskAt (off : Nat) (mask : UInt8) (rs : List Bytes) : List Bytes :=
  modifyAt off (maskState mask) storeHeaderSize rs

theorem isLive_state {r : Bytes} (h : isLive r = true) :
    state r = varAdded ∨ state r = varInTransition := by
  simpa [isLive] using h

theorem masked_state {r : Bytes} (hlive : isLive r = true)
    (hmask : mask = varInDeletedTransition ∨ mask = varDeleted) :
    state r ≠ 0xff ∧ state r &&& mask ≠ 0xff := by
  rcases isLive_state hlive with h | h <;> rcases hmask with rfl | rfl <;> rw [h] <;> decide

theorem masked_live {r : Bytes} (hlive : isLive r = true)
    (hmask : mask = varInDeletedTransition ∨ mask = varDeleted) (h : 2 < r.length) :
    isLive (maskState mask r) = decide (mask = varInDeletedTransition) := by
  rw [isLive, maskState, state_setState _ h]
  rcases isLive_state hlive with h | h <;> rcases hmask with rfl | rfl <;> rw [h] <;> rfl

theorem recordKey_setState {r : Bytes} {s : UInt8}
    (hr : state r ≠ 0xff) (hs : s ≠ 0xff) (h : 2 < r.length) :
    recordKey authFormat (setState r s) = recordKey authFormat r := by
  rw [recordKey, vendorGuid_setState, variableName_setState s hr hs h, recordKey]

theorem recordValue_setState {r : Bytes} {s : UInt8}
    (hr : state r ≠ 0xff) (hs : s ≠ 0xff) (h : 2 < r.length) :
    recordValue authFormat (setState r s) = recordValue authFormat r := by
  rw [recordValue, attributes_setState, variableContents_setState s hr hs h, recordValue]

theorem Mirrors.setState {r c : Bytes} {s : UInt8}
    (h : Mirrors authFormat r c) (hrec : IsRecord authFormat r)
    (hr : state r ≠ 0xff) (hs : s ≠ 0xff) :
    Mirrors authFormat (setState r s) (setState c s) := by
  have h2 : 2 < r.length := by have := hrec.length_ge; omega
  refine ⟨by simp [h.length_eq], ?_, ?_⟩
  · rw [getVariableDataOffset_setState s hr hs h2, Variable.setState, Variable.setState,
      take_set, take_set, h.take_eq]
  · intro hkey
    rw [recordKey_setState hr hs h2] at hkey
    rw [h.same hkey]

/-- Clearing bits in the state of a live record. -/
theorem NvInv.mark (h : NvInv P d rs) (hmem : (off, r) ∈ located storeHeaderSize rs)
    (hlive : isLive r = true)
    (hmask : mask = varInDeletedTransition ∨ mask = varDeleted) :
    ∃ status d', writeState P d false off mask = (status, d') ∧ SameEnv d d' ∧
      SameCounters d d' ∧
      ((status ≠ .success ∧ NvInv P d' rs ∧ d'.flash = d.flash ∧
          d'.mNvVariableCache = d.mNvVariableCache ∧
          NewImages d d' (fun img => Shows P.authFormat img rs)) ∨
        (status = .success ∧ NvInv P d' (maskAt off mask rs) ∧
          (Erased d.flash d.nonVolatileLastVariableOffset →
            Erased d'.flash d.nonVolatileLastVariableOffset) ∧
          NewImages d d' (fun img =>
            Shows P.authFormat img (maskAt off mask rs)))) := by
  have hrec := h.flash.isRecord r (mem_of_mem_located hmem)
  have h2 : 2 < r.length := by have := hrec.length_ge; omega
  obtain ⟨hff, hsff⟩ := masked_state hlive hmask
  obtain ⟨header, junk, tail, hlayout, -⟩ := id h.flash
  have hread : state (d.flash.drop off) = state r := by
    have hmem' : (off, r) ∈ located storeHeaderSize (rs ++ junk) := by
      rw [located_append]
      exact mem_append_left _ hmem
    obtain ⟨rest, hdrop⟩ := hlayout.drop_located hmem'
    rw [hdrop, state_append rest hrec.length_ge]
  obtain ⟨status, hstatus, hcase⟩ := writeState_nv P d off mask
  rw [hread] at hcase
  refine ⟨status, (writeState P d false off mask).2, Prod.ext hstatus rfl, ?_⟩
  rcases hcase with ⟨herr, hd | ⟨fvb, hfvb, hd⟩⟩ | ⟨hok, fvb, hfvb, hd⟩
  · rw [hd]
    exact ⟨.refl d, .refl d, Or.inl ⟨herr, h, rfl, rfl, .refl d _⟩⟩
  · rw [hd]
    exact ⟨sameEnv_wrote hfvb, ⟨rfl, rfl⟩, Or.inl ⟨herr,
      ⟨h.flash, h.cache, h.wellFormed, h.last, h.erased, h.flash_length, h.cache_length⟩,
      rfl, rfl, newImages_cons rfl h.flash⟩⟩
  · rw [hd]
    have hmod := h.modify hmem
      { d.wrote (P.program d.flash (off + 2) [state r &&& mask]) fvb with
        mNvVariableCache := copyMem d.mNvVariableCache (off + 2) [state r &&& mask] }
      (maskState mask) (fun x => setState x (state r &&& mask))
      2 [state r &&& mask] [state r &&& mask]
      (by simp; omega) rfl
      (by rw [overlay_state _ _ h2, combine_and, maskState])
      (fun c hc => by rw [copyMem, overlay_state _ _ (by rw [hc.length_eq]; exact h2)])
      (isRecord_setState _ hff hsff h2 hrec)
      (fun c hc => hc.setState hrec hff hsff)
      (fun _ => by
        obtain ⟨hname, hdata⟩ := h.wellFormed r (mem_of_mem_located hmem) hlive
        refine ⟨?_, ?_⟩
        · rw [HasName, maskState, variableName_setState _ hff hsff h2]
          exact hname
        · rw [maskState, dataSizeOfVariable_setState _ hff hsff h2]
          exact hdata)
      rfl rfl rfl
    exact ⟨⟨rfl, rfl, rfl, rfl, rfl, rfl, rfl, hfvb, id, rfl⟩, ⟨rfl, rfl⟩,
      Or.inr ⟨hok, hmod.1, hmod.2, newImages_cons rfl hmod.1.flash⟩⟩

end Modify

end Variable
end Udk
