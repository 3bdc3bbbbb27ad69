import Udk.Variable.NvLookup

/-!
# A store at rest

The store that a finished fault-free operation leaves: no transition pending, the
area behind the records erased, the totals right and within the quotas.  A driver
that starts from the image of such a store is at rest.
-/

namespace Udk
namespace Variable

section Image

/-- The header of a formatted and healthy store. -/
def storeHeader (signature : Guid) (size : Nat) : Bytes :=
  signature.bytes ++ toLE 4 size ++ [0x5a, 0xfe, 0, 0] ++ toLE 4 0

/-- A store with the records `rs` and nothing behind them. -/
def storeImage (signature : Guid) (size : Nat) (rs : List Bytes) : Bytes :=
  storeHeader signature size ++
    (rs.flatten ++ List.replicate (size - storeHeaderSize - rs.flatten.length) 0xff)

variable {authFormat : Bool} {signature : Guid} {size : Nat} {rs : List Bytes}

theorem storeHeader_length : (storeHeader signature size).length = storeHeaderSize := by
  simp [storeHeader, signature.length_eq, storeHeaderSize]

theorem storeSize_storeHeader (hsize : size < 2 ^ 32) :
    storeSize (storeHeader signature size) = size := by
  rw [storeHeader, List.append_assoc, List.append_assoc, storeSize,
    field_at _ _ signature.length_eq (by omega)]

theorem storeImage_length (hfit : storeHeaderSize + rs.flatten.length ≤ size) :
    (storeImage signature size rs).length = size := by
  rw [storeImage, List.length_append, List.length_append, storeHeader_length,
    List.length_replicate]
  omega

theorem layout_storeImage (hsize : size < 2 ^ 32)
    (hfit : storeHeaderSize + rs.flatten.length ≤ size)
    (hrec : ∀ r ∈ rs, IsRecord authFormat r) :
    Layout authFormat (storeImage signature size rs) (storeHeader signature size) rs
      (List.replicate (size - storeHeaderSize - rs.flatten.length) 0xff) where
  eq := rfl
  header_length := storeHeader_length
  size_eq := by
    rw [storeImage_length hfit, storeImage, Layout.storeSize_append _ storeHeader_length,
      storeSize_storeHeader hsize]
  records := hrec
  stops := startId_replicate _

end Image

section Totals

variable {P : Platform} {img header tail : Bytes} {rs : List Bytes}

/-- The totals of a restart are the sizes of the records. -/
theorem initTotals_layout (h : Layout P.authFormat img header rs tail)
    (hnv : ∀ r ∈ rs, hasAttribute (attributes r) efiVariableNonVolatile = true) :
    initTotals P img = ⟨commonSize rs, 0, hwErrSize rs⟩ := by
  have hgen : ∀ L : List (Nat × Bytes), (∀ e ∈ L, e ∈ located storeHeaderSize rs) →
      ∀ totals : Totals,
      L.foldl (fun totals e =>
        let size := recordSize P.authFormat img e.1
        if hasAttribute (attributes (img.drop e.1)) efiVariableNonVolatile &&
            isHwErrRecord (img.drop e.1) then
          { totals with hwErr := totals.hwErr + size }
        else { totals with common := totals.common + size }) totals =
      ⟨totals.common + commonSize (L.map Prod.snd), totals.user,
        totals.hwErr + hwErrSize (L.map Prod.snd)⟩ := by
    intro L
    induction L with
    | nil => simp [commonSize, hwErrSize]
    | cons e L ih =>
        intro hsub totals
        obtain ⟨off, r⟩ := e
        have hmem := hsub (off, r) List.mem_cons_self
        have hrec := h.isRecord_of_located hmem
        obtain ⟨rest, hdrop⟩ := h.drop_located hmem
        have hattr : hasAttribute (attributes (img.drop off)) efiVariableNonVolatile = true := by
          rw [hdrop, attributes_append rest hrec.length_ge]
          exact hnv r (mem_of_mem_located hmem)
        have hhw : isHwErrRecord (img.drop off) = isHwErrRecord r := by
          rw [hdrop, isHwErrRecord_append rest hrec.length_ge]
        rw [List.foldl_cons, ih (fun e he => hsub e (List.mem_cons_of_mem _ he))]
        simp only [hattr, hhw, Bool.true_and, (recordSize_located h hmem).1]
        cases hr : isHwErrRecord r <;>
          simp [commonSize, hwErrSize, hr, Nat.add_assoc]
  have hall := hgen _ (fun _ he => he) ⟨0, 0, 0⟩
  rw [located_map_snd] at hall
  rw [initTotals, h.storeWalk_eq, List.foldl_map]
  simpa using hall

end Totals

section AtRest

variable {P : Platform} {d : Driver} {rs : List Bytes}

/-- The totals count the records of the store. -/
structure Accounted (d : Driver) (rs : List Bytes) : Prop where
  common : d.commonVariableTotalSize = commonSize rs
  hwErr : d.hwErrVariableTotalSize = hwErrSize rs

/-- The totals of the two classes are within their quotas. -/
structure WithinQuotas (P : Platform) (d : Driver) : Prop where
  common : d.commonVariableTotalSize ≤ P.commonVariableSpace
  hwErr : d.hwErrVariableTotalSize ≤ P.pcdHwErrStorageSize

/-- A well-formed store with no transition pending. -/
structure AtRest (P : Platform) (d : Driver) (rs : List Bytes) : Prop where
  inv : NvInv P d rs
  settled : Settled P.authFormat rs
  erased : Erased d.flash d.nonVolatileLastVariableOffset
  accounted : Accounted d rs
  within : WithinQuotas P d

theorem NvInv.fits (h : NvInv P d rs) (hacc : Accounted d rs) (hwithin : WithinQuotas P d)
    {req : UpdateRequest} {next : Bytes} (hquota : overQuota P d req next = false) :
    d.nonVolatileLastVariableOffset + headerAlign next.length ≤ P.storeLength := by
  obtain ⟨header, junk, tail, hlayout, -⟩ := h.flash
  have hlen := hlayout.length_eq
  rw [h.flash_length] at hlen
  have hmod := flatten_mod rs (fun r hr => hlayout.records r (List.mem_append_left _ hr))
  have hsum := commonSize_add_hwErrSize rs
  have hlast := h.last
  have hc := hwithin.common
  have hh := hwithin.hwErr
  have hlt := P.hwErr_lt
  have hsmod := P.storeLength_mod
  rw [hacc.common] at hc
  rw [hacc.hwErr] at hh
  simp only [Platform.commonVariableSpace] at hc
  simp only [overQuota, Bool.or_eq_false_iff, overHwErr, overCommon, exceeds,
    Platform.commonVariableSpace, hacc.common, hacc.hwErr] at hquota
  obtain ⟨⟨⟨h1, h2⟩, -⟩, -⟩ := hquota
  have h28 : storeHeaderSize = 28 := rfl
  have hfit : d.nonVolatileLastVariableOffset + next.length ≤ P.storeLength := by
    cases hhw : req.isHwErr with
    | true =>
        simp only [hhw, Bool.true_and, decide_eq_false_iff_not, not_lt] at h1
        omega
    | false =>
        simp only [hhw, Bool.not_false, Bool.true_and, decide_eq_false_iff_not, not_lt] at h2
        omega
  unfold headerAlign
  omega


theorem AtRest.powerOn {signature : Guid} (hs : Settled P.authFormat rs)
    (hrec : ∀ r ∈ rs, IsRecord P.authFormat r) (hwf : WellFormed P.authFormat rs)
    (hnv : ∀ r ∈ rs, hasAttribute (attributes r) efiVariableNonVolatile = true)
    (hsize : P.storeLength < 2 ^ 32)
    (hcommon : commonSize rs ≤ P.commonVariableSpace)
    (hhw : hwErrSize rs ≤ P.pcdHwErrStorageSize)
    (volatileStore : Bytes) (hob : Option Bytes) (faults : Faults) :
    AtRest P { Variable.powerOn P (storeImage signature P.storeLength rs) volatileStore hob faults
      with fvbInstance := true } rs := by
  have hsum := commonSize_add_hwErrSize rs
  have hlt := P.hwErr_lt
  have hfit : storeHeaderSize + rs.flatten.length ≤ P.storeLength := by
    rw [Platform.commonVariableSpace] at hcommon
    omega
  have hlayout : Layout P.authFormat (storeImage signature P.storeLength rs) _ rs _ :=
    layout_storeImage hsize hfit hrec
  have htotals := initTotals_layout hlayout hnv
  refine ⟨.of_flash hlayout.shows hwf rfl hlayout.storeWalkEnd_eq (storeImage_length hfit), hs, ?_,
    ⟨?_, ?_⟩, ⟨?_, ?_⟩⟩
  · have hlast : storeWalkEnd P.authFormat (storeImage signature P.storeLength rs) = _ :=
      hlayout.storeWalkEnd_eq
    simp only [Variable.powerOn, Driver.setTotals, hlast]
    exact erased_of_layout hlayout
  all_goals simp only [Variable.powerOn, Driver.setTotals, htotals]
  · exact hcommon
  · exact hhw

end AtRest

section Sample

/-- A platform with one flash block and room for a few short variables. -/
def samplePlatform : Platform where
  flashKind := .nor
  authFormat := false
  blockLengths := [512]
  headerLength := 72
  storeLength := 400
  pcdHwErrStorageSize := 100
  pcdMaxUserNvVariableSpaceSize := 0
  pcdBoottimeReservedNvVariableSpaceSize := 0
  pcdMaxVariableSize := 200
  pcdMaxAuthVariableSize := 0
  pcdMaxHardwareErrorVariableSize := 100
  hasProperty := fun _ _ => false
  storeLength_mod := by decide
  hwErr_lt := by decide
  maxUser_lt := by decide
  reserved_lt := by decide

def sampleGuid : Guid :=
  ⟨List.replicate 16 0, length_zeroGuid⟩

theorem letterA_ne : (65 : UInt16) ≠ 0 := by
  decide

/-- A request for the variable with a name of one character. -/
def sampleRequest (c : UInt16) (hc : c ≠ 0) (attributes : UInt32) (data : Bytes) : UpdateRequest :=
  ⟨⟨[c], by simpa using hc⟩, sampleGuid, data, attributes, 0, 0, none⟩

/-- The driver at boot, with the given records in flash. -/
def sampleDriver (rs : List Bytes) : Driver :=
  { powerOn samplePlatform (storeImage sampleGuid 400 rs) (storeImage sampleGuid 100 []) none
      Faults.none with
    fvbInstance := true }

end Sample

end Variable
end Udk
