import Udk.Gcd.Canonical
import Mathlib.Order.Bounds.Basic

/-!
# The search of `CoreAllocateSpace`

From the top the search meets, entry by entry, the highest aligned base whose range ends in
the entry, and goes on at the lowest entry of that range which is not free; from the bottom
it does the same the other way round.  A base of the claimed range is never behind the
cursor, so what the search returns is the best place there is, but for two tests on sums:
from the top an entry is passed over when `BaseAddress + Length` is above `MaxAddress`, one
too early; from the bottom the end of the range may wrap at 64 bits.
-/

namespace Udk
namespace Gcd

open Tiling Cell List

section Alignment

variable {request : AllocateRequest} {entry : GcdMapEntry}

variable (halign : request.alignment < 64)
include halign

theorem alignmentMask_toNat :
    (alignmentMask request).toNat = 2 ^ request.alignment.toNat - 1 := by
  rw [UInt64.lt_iff_toNat_lt, show (64 : UInt64).toNat = 64 from rfl] at halign
  have hone : (1 : UInt64).toNat = 1 := rfl
  have hpow : 2 ^ request.alignment.toNat < 2 ^ 64 := Nat.pow_lt_pow_right (by decide) halign
  have hpos := Nat.two_pow_pos request.alignment.toNat
  rw [alignmentMask, UInt64.toNat_sub, UInt64.toNat_shiftLeft, hone, Nat.one_shiftLeft,
    Nat.mod_eq_of_lt halign, Nat.mod_eq_of_lt hpow]
  omega

theorem and_not_alignmentMask
    (x : UInt64) :
    (x &&& ~~~alignmentMask request).toNat =
      x.toNat / 2 ^ request.alignment.toNat * 2 ^ request.alignment.toNat := by
  have hmask := alignmentMask_toNat halign
  rw [UInt64.lt_iff_toNat_lt, show (64 : UInt64).toNat = 64 from rfl] at halign
  have hpow : 2 ^ request.alignment.toNat < 2 ^ 64 := Nat.pow_lt_pow_right (by decide) halign
  have hpos := Nat.two_pow_pos request.alignment.toNat
  have hsub : UInt64.size - 1 - (2 ^ request.alignment.toNat - 1) =
      2 ^ 64 - (2 ^ request.alignment.toNat - 1 + 1) := by
    rw [show UInt64.size = 2 ^ 64 from rfl]
    omega
  rw [UInt64.toNat_and, UInt64.toNat_not, hmask, hsub]
  refine Nat.eq_of_testBit_eq fun i => ?_
  rw [Nat.testBit_and, Nat.testBit_two_pow_sub_succ (by omega), Nat.testBit_two_pow_sub_one,
    Nat.testBit_mul_two_pow, Nat.testBit_div_two_pow]
  by_cases hi : i < request.alignment.toNat
  · simp [hi]
  · have hback : i - request.alignment.toNat + request.alignment.toNat = i := by omega
    by_cases hwide : i < 64
    · simp [hi, hwide, hback, Nat.le_of_not_lt hi]
    · have hhigh : x.toNat.testBit i = false :=
        Nat.testBit_lt_two_pow (x.toNat_lt.trans_le (Nat.pow_le_pow_right (by decide) (by omega)))
      simp [hhigh, hback]

theorem bottomUpBase_toNat
    (hentry : first entry < 2 ^ 63) :
    (bottomUpBase request entry).toNat =
      (first entry + (2 ^ request.alignment.toNat - 1)) / 2 ^ request.alignment.toNat *
        2 ^ request.alignment.toNat := by
  have hmask := alignmentMask_toNat halign
  rw [bottomUpBase, and_not_alignmentMask halign, UInt64.toNat_add, hmask, first_eq,
    Nat.mod_eq_of_lt]
  rw [UInt64.lt_iff_toNat_lt, show (64 : UInt64).toNat = 64 from rfl] at halign
  have hpow : 2 ^ request.alignment.toNat ≤ 2 ^ 63 := Nat.pow_le_pow_right (by decide) (by omega)
  rw [first_eq] at hentry
  omega

theorem bottomUpBase_isLeast
    (hentry : first entry < 2 ^ 63) :
    IsLeast {b | 2 ^ request.alignment.toNat ∣ b ∧ first entry ≤ b}
      (bottomUpBase request entry).toNat := by
  have hpos := Nat.two_pow_pos request.alignment.toNat
  have hbase := bottomUpBase_toNat halign hentry
  generalize 2 ^ request.alignment.toNat = unit at hpos hbase ⊢
  have hmod := Nat.div_add_mod (first entry + (unit - 1)) unit
  have hlt := Nat.mod_lt (first entry + (unit - 1)) hpos
  rw [Nat.mul_comm unit] at hmod
  constructor
  case left =>
    refine ⟨⟨_, hbase.trans (Nat.mul_comm _ _)⟩, ?_⟩
    omega
  case right =>
    rintro _ ⟨⟨k, rfl⟩, hle⟩
    rw [hbase, Nat.mul_comm unit]
    refine Nat.mul_le_mul_right unit (Nat.lt_succ_iff.mp ((Nat.div_lt_iff_lt_mul hpos).mpr ?_))
    rw [Nat.succ_mul, Nat.mul_comm k]
    omega

theorem bottomUpBase_le
    (hentry : first entry < 2 ^ 63) :
    (bottomUpBase request entry).toNat ≤ 2 ^ 63 := by
  refine (bottomUpBase_isLeast halign hentry).2 ⟨?_, hentry.le⟩
  rw [UInt64.lt_iff_toNat_lt, show (64 : UInt64).toNat = 64 from rfl] at halign
  exact pow_dvd_pow 2 (by omega)

end Alignment

section Place

variable {request : AllocateRequest} {map : GcdMap} {baseAddress : UInt64} {split : GcdSplit}
  {b hi : Nat} {entry : GcdMapEntry} {length : UInt64}

/-- `MaxAddress` of `CoreAllocateSpace`. -/
def searchLimit (request : AllocateRequest) (map : GcdMap) : UInt64 :=
  if request.gcdAllocateType.hasMaxAddress then request.baseAddress.getD 0
  else (map.getLast?.map GcdMapEntry.endAddress).getD 0

/-- A place for the range of a request: an aligned base from which on the range ends at or
below the limit and lies in free entries of the requested type. -/
structure IsPlace (request : AllocateRequest) (map : GcdMap) (b : Nat) : Prop where
  aligned : 2 ^ request.alignment.toNat ∣ b
  below : b + request.length.toNat ≤ (searchLimit request map).toNat + 1
  free : ∀ x, b ≤ x → x < b + request.length.toNat → ∃ region, labelAt map x = some region ∧
    coreAllocateSpaceCheckEntry request region = .success

theorem IsPlace.passes
    (h : IsPlace request map b)
    (hpart : Partition 0 map hi)
    (hlength : request.length ≠ 0)
    (hentry : entry ∈ map)
    (hfirst : first entry < b + request.length.toNat)
    (hlast : b ≤ last entry) :
    coreAllocateSpaceCheckEntry request entry.toGcdRegion = .success := by
  have hpos := length_pos hlength
  have hbounds := hpart.tiles.mem_bounds hentry
  obtain ⟨region, hregion, hfree⟩ := h.free (max b (first entry)) (by omega) (by omega)
  rw [hpart.tiles.mem_value hentry (by omega) (by omega)] at hregion
  obtain rfl := Option.some.inj hregion
  exact hfree

theorem IsPlace.le_size
    (h : IsPlace request map b)
    (hpart : Partition 0 map hi)
    (hlength : request.length ≠ 0) :
    b + request.length.toNat ≤ hi := by
  have hpos := length_pos hlength
  by_contra hout
  obtain ⟨region, hregion, -⟩ := h.free (b + request.length.toNat - 1) (by omega) (by omega)
  rw [hpart.labelAt_outside (by omega)] at hregion
  exact absurd hregion (by simp)

theorem IsWindow.mem_bounds
    (h : IsWindow baseAddress length map split)
    (hpart : Partition 0 map hi)
    (hentry : entry ∈ split.window) :
    baseAddress.toNat ≤ last entry ∧ first entry ≤ (baseAddress + length - 1).toNat := by
  have htiles := hpart.tiles
  rw [h.map_eq] at htiles
  obtain ⟨t, htiles, -⟩ := tiles_append.mp htiles
  obtain ⟨s, -, hmiddle⟩ := tiles_append.mp htiles
  have hpairwise := hmiddle.partition.pairwise
  constructor
  case left =>
    obtain ⟨head, rest, hcons, hbase⟩ := h.first_contains
    have hbase' := ((head.contains_iff _).mp hbase).2
    have hbounds := hmiddle.mem_bounds hentry
    rw [hcons] at hentry hpairwise
    rcases mem_cons.mp hentry with rfl | hrest
    · exact hbase'
    · have := (pairwise_cons.mp hpairwise).1 entry hrest
      omega
  case right =>
    obtain ⟨front, final, hsnoc, hend⟩ := h.last_contains
    have hend' := ((final.contains_iff _).mp hend).1
    have hbounds := hmiddle.mem_bounds hentry
    rw [hsnoc] at hentry hpairwise
    rcases mem_append.mp hentry with hfront | hfinal
    · have := (pairwise_append.mp hpairwise).2.2 entry hfront final
        (mem_singleton_self final)
      omega
    · rw [mem_singleton.mp hfinal]
      exact hend'

theorem IsWindow.isPlace
    (h : IsWindow baseAddress request.length map split)
    (hpart : Partition 0 map hi)
    (hlength : request.length ≠ 0)
    (hwrap : baseAddress.toNat + request.length.toNat ≤ 2 ^ 64)
    (haligned : 2 ^ request.alignment.toNat ∣ baseAddress.toNat)
    (hbelow : baseAddress.toNat + request.length.toNat ≤ (searchLimit request map).toNat + 1)
    (hfree : ∀ entry ∈ split.window,
      coreAllocateSpaceCheckEntry request entry.toGcdRegion = .success) :
    IsPlace request map baseAddress.toNat where
  aligned := haligned
  below := hbelow
  free x hx hx' := by
    have hsize := h.range_le hpart hlength hwrap
    obtain ⟨entry, hentry, hfirst, hlast⟩ := hpart.tiles.exists_mem (Nat.zero_le x) (by omega)
    have hlabel := hpart.tiles.mem_value hentry hfirst hlast
    exact ⟨_, hlabel, @IsWindow.block_check _ _ _ _ _
      (fun region => coreAllocateSpaceCheckEntry request region = .success) h hpart hlength
      hwrap hfree _ _ ⟨hx, hx'⟩ hlabel⟩

/-- The search finds the window of a range within the map. -/
theorem searchGcdMapLoop_exists
    {before rest : GcdMap} {start : Option (GcdMap × GcdMap)} {lo : Nat}
    (hpart : Partition lo rest hi)
    (hle : baseAddress.toNat ≤ (baseAddress + length - 1).toNat)
    (hend : (baseAddress + length - 1).toNat < hi)
    (hstart : lo ≤ baseAddress.toNat ∨
      start.isSome = true ∧ lo ≤ (baseAddress + length - 1).toNat) :
    ∃ split, searchGcdMapLoop baseAddress length before start rest = some split := by
  induction rest generalizing before start lo with
  | nil =>
      have hlo : lo = hi := hpart
      omega
  | cons entry rest ih =>
      obtain ⟨hfirst, -, hrest⟩ := hpart
      rw [searchGcdMapLoop]
      by_cases hbase : entry.contains baseAddress = true
      · simp only [hbase, if_true]
        split
        case isTrue => exact ⟨_, rfl⟩
        case isFalse hout =>
          rw [entry.contains_iff] at hbase hout
          exact ih hrest (Or.inr ⟨rfl, by omega⟩)
      · simp only [hbase, Bool.false_eq_true, if_false]
        rw [entry.contains_iff] at hbase
        cases start with
        | none =>
            rcases hstart with hlo | ⟨hsome, -⟩
            · exact ih hrest (Or.inl (by omega))
            · simp at hsome
        | some pair =>
            dsimp only
            split
            case isTrue => exact ⟨_, rfl⟩
            case isFalse hout =>
              rw [entry.contains_iff] at hout
              exact ih hrest (Or.inr ⟨rfl, by omega⟩)

theorem coreSearchGcdMapEntry_exists
    (hpart : Partition 0 map hi)
    (hsize : hi ≤ 2 ^ 64)
    (hlength : length ≠ 0)
    (hend : baseAddress.toNat + length.toNat ≤ hi) :
    ∃ split, coreSearchGcdMapEntry baseAddress length map = some split := by
  have hpos := length_pos hlength
  have hendNat := rangeEnd_toNat hlength (hend.trans hsize)
  exact searchGcdMapLoop_exists hpart (by omega) (by omega) (Or.inl (Nat.zero_le _))

end Place

section Search

variable {request : AllocateRequest} {map : GcdMap} {limit baseAddress : UInt64}
  {entry : GcdMapEntry} {split : GcdSplit} {turns link hi : Nat}

section

variable (hentry : map[link]? = some entry)
include hentry

theorem allocateSearch_next
    (hpass : coreAllocateSpaceCheckEntry request entry.toGcdRegion = .success →
      candidate request limit entry = .skip) :
    allocateSearch request map limit (turns + 1) (some link) =
      allocateSearch request map limit turns (nextLink request map link) := by
  rw [allocateSearch, hentry]
  dsimp only
  split
  case h_1 hcheck => rw [hpass hcheck]
  case h_2 => rfl

theorem allocateSearch_stop
    (hcheck : coreAllocateSpaceCheckEntry request entry.toGcdRegion = .success)
    (hstop : candidate request limit entry = .stop) :
    allocateSearch request map limit (turns + 1) (some link) = some (.failed .notFound) := by
  simp only [allocateSearch, hentry, hcheck, hstop]

theorem allocateSearch_outside
    (hcheck : coreAllocateSpaceCheckEntry request entry.toGcdRegion = .success)
    (hbase : candidate request limit entry = .base baseAddress)
    (hsearch : coreSearchGcdMapEntry baseAddress request.length map = none) :
    allocateSearch request map limit (turns + 1) (some link) = some (.failed .notFound) := by
  simp only [allocateSearch, hentry, hcheck, hbase, hsearch]

theorem allocateSearch_window
    (hcheck : coreAllocateSpaceCheckEntry request entry.toGcdRegion = .success)
    (hbase : candidate request limit entry = .base baseAddress)
    (hsearch : coreSearchGcdMapEntry baseAddress request.length map = some split) :
    (∀ e ∈ split.window, coreAllocateSpaceCheckEntry request e.toGcdRegion = .success) ∧
      allocateSearch request map limit (turns + 1) (some link) =
        some (.found baseAddress split) ∨
    ∃ blocked ∈ split.window, ∃ index, map[index]? = some blocked ∧
      coreAllocateSpaceCheckEntry request blocked.toGcdRegion ≠ .success ∧
      allocateSearch request map limit (turns + 1) (some link) =
        allocateSearch request map limit turns (some index) := by
  simp only [allocateSearch, hentry, hcheck, hbase, hsearch]
  split
  case h_1 hfree =>
    left
    rw [findIdx?_eq_none_iff] at hfree
    exact ⟨fun e he => by simpa using hfree e he, rfl⟩
  case h_2 index hfirst =>
    right
    obtain ⟨hindex, hblocked, -⟩ := findIdx?_eq_some_iff_getElem.mp hfirst
    refine ⟨split.window[index], getElem_mem hindex, split.before.length + index, ?_,
      by simpa using hblocked, rfl⟩
    rw [(coreSearchGcdMapEntry_isWindow hsearch).map_eq, append_assoc,
      getElem?_append_right (by omega), Nat.add_sub_cancel_left,
      getElem?_append_left hindex]
    exact getElem?_eq_getElem hindex

end

/-- What a search among candidates returns: the best of them, or nothing if there is none. -/
def Answers (best : Set Nat → Nat → Prop) (candidates : Set Nat) : Placement → Prop
  | .found baseAddress _ => best candidates baseAddress.toNat
  | .failed status => status = .notFound ∧ candidates = ∅

/-- The entry in which the range of a place ends is not passed over by a search from the
top. -/
def Kept (request : AllocateRequest) (map : GcdMap) (b : Nat) : Prop :=
  ∀ entry ∈ map, first entry < b + request.length.toNat →
    b + request.length.toNat ≤ last entry + 1 →
    first entry + request.length.toNat ≤ (searchLimit request map).toNat

/-- The places a search from the top can return. -/
def keptPlaces (request : AllocateRequest) (map : GcdMap) : Set Nat :=
  {b | IsPlace request map b ∧ Kept request map b}

/-- No range that a search from the top can return ends above the entry at a position. -/
def EndsUpTo (request : AllocateRequest) (map : GcdMap) (link : Nat) : Prop :=
  ∀ entry, map[link]? = some entry → ∀ b ∈ keptPlaces request map,
    b + request.length.toNat ≤ last entry + 1

theorem IsPlace.avoids
    {b : Nat}
    (h : IsPlace request map b)
    (hpart : Partition 0 map hi)
    (hlength : request.length ≠ 0)
    (hentry : entry ∈ map)
    (hblocked : coreAllocateSpaceCheckEntry request entry.toGcdRegion ≠ .success) :
    b + request.length.toNat ≤ first entry ∨ last entry < b := by
  by_contra hmeets
  exact hblocked (h.passes hpart hlength hentry (by omega) (by omega))

theorem topDownBase_toNat
    (halign : request.alignment < 64)
    (hentry : last entry < 2 ^ 63)
    (hend : request.length.toNat ≤ last entry + 1)
    (hlimit : first entry + request.length.toNat ≤ limit.toNat) :
    (topDownBase request limit entry).toNat =
      (min limit.toNat (last entry) + 1 - request.length.toNat) /
        2 ^ request.alignment.toNat * 2 ^ request.alignment.toNat := by
  have hone : (1 : UInt64).toNat = 1 := rfl
  rw [topDownBase, and_not_alignmentMask halign]
  rw [last_eq] at hentry hend ⊢
  have hmin : (if entry.endAddress > limit then limit else entry.endAddress).toNat =
      min limit.toNat entry.endAddress.toNat := by
    split
    case isTrue habove =>
      have := UInt64.lt_iff_toNat_lt.mp habove
      omega
    case isFalse hbelow =>
      have := UInt64.le_iff_toNat_le.mp (UInt64.not_lt.mp hbelow)
      omega
  have hlen := request.length.toNat_lt
  rw [UInt64.toNat_sub, UInt64.toNat_add, hone, hmin,
    Nat.mod_eq_of_lt (by omega : min limit.toNat entry.endAddress.toNat + 1 < 2 ^ 64)]
  congr 2
  omega

/-- What the two tests of a search from the top say of an entry. -/
theorem candidate_topDown
    (htop : request.gcdAllocateType.isTopDown = true)
    (halign : request.alignment < 64)
    (hle : first entry ≤ last entry)
    (hentry : last entry < 2 ^ 63) :
    candidate request limit entry = .skip ∧
        limit.toNat < first entry + request.length.toNat ∨
      candidate request limit entry = .stop ∧ last entry + 1 < request.length.toNat ∨
      ∃ baseAddress, candidate request limit entry = .base baseAddress ∧
        first entry + request.length.toNat ≤ limit.toNat ∧
        IsGreatest {b | 2 ^ request.alignment.toNat ∣ b ∧
            b + request.length.toNat ≤ limit.toNat + 1 ∧
            b + request.length.toNat ≤ last entry + 1} baseAddress.toNat := by
  have hone : (1 : UInt64).toNat = 1 := rfl
  have hlen := request.length.toNat_lt
  simp only [candidate, htop, if_true]
  split
  case isTrue hskip =>
    left
    rw [gt_iff_lt, UInt64.lt_iff_toNat_lt, UInt64.toNat_add] at hskip
    have := Nat.mod_le (entry.baseAddress.toNat + request.length.toNat) (2 ^ 64)
    exact ⟨rfl, by rw [first_eq]; omega⟩
  case isFalse hkept =>
    right
    rw [gt_iff_lt, UInt64.lt_iff_toNat_lt, UInt64.toNat_add] at hkept
    rw [last_eq] at hentry
    split
    case isTrue hstop =>
      left
      rw [gt_iff_lt, UInt64.lt_iff_toNat_lt, UInt64.toNat_add, hone] at hstop
      exact ⟨rfl, by rw [last_eq]; omega⟩
    case isFalse hroom =>
      right
      rw [gt_iff_lt, UInt64.lt_iff_toNat_lt, UInt64.toNat_add, hone] at hroom
      rw [first_eq, last_eq] at hle
      have hlimit : first entry + request.length.toNat ≤ limit.toNat := by
        rw [first_eq]
        omega
      refine ⟨_, rfl, hlimit, ?_⟩
      rw [topDownBase_toNat halign hentry (by rw [last_eq]; omega) hlimit]
      have hpos := Nat.two_pow_pos request.alignment.toNat
      generalize 2 ^ request.alignment.toNat = unit at hpos ⊢
      rw [last_eq]
      have hdiv := Nat.div_mul_le_self
        (min limit.toNat entry.endAddress.toNat + 1 - request.length.toNat) unit
      constructor
      case left =>
        rw [first_eq] at hlimit
        exact ⟨⟨_, Nat.mul_comm _ _⟩, by omega, by omega⟩
      case right =>
        rintro _ ⟨⟨k, rfl⟩, hbelow, hend⟩
        rw [Nat.mul_comm unit]
        refine Nat.mul_le_mul_right unit ((Nat.le_div_iff_mul_le hpos).mpr ?_)
        rw [Nat.mul_comm]
        omega

theorem topDown_next
    (htop : request.gcdAllocateType.isTopDown = true)
    (ih : ∀ index < link, EndsUpTo request map index →
      ∃ place, allocateSearch request map limit turns (some index) = some place ∧
        Answers IsGreatest (keptPlaces request map) place)
    (hpart : Partition 0 map hi)
    (hlength : request.length ≠ 0)
    (hturns : 1 ≤ turns)
    (hentry : map[link]? = some entry)
    (hends : ∀ b ∈ keptPlaces request map, b + request.length.toNat ≤ first entry) :
    ∃ place, allocateSearch request map limit turns (nextLink request map link) = some place ∧
      Answers IsGreatest (keptPlaces request map) place := by
  simp only [nextLink, htop, if_true]
  split
  case isTrue hzero =>
    obtain ⟨turns, rfl⟩ := Nat.exists_eq_add_of_le' hturns
    refine ⟨.failed .notFound, rfl, rfl, Set.eq_empty_of_forall_notMem fun b hb => ?_⟩
    have hfirst : first entry = 0 := by
      cases map with
      | nil => simp at hentry
      | cons e rest =>
          rw [hzero, getElem?_cons_zero, Option.some_inj] at hentry
          exact hentry ▸ hpart.1
    have hpos := length_pos hlength
    have := hends b hb
    omega
  case isFalse hnonzero =>
    obtain ⟨index, rfl⟩ := Nat.exists_eq_succ_of_ne_zero hnonzero
    refine ih index (by omega) fun e he b hb => ?_
    have hnext := hpart.next he hentry
    have := hends b hb
    omega

theorem topDown_found
    {base : UInt64}
    (hpart : Partition 0 map hi)
    (hsize : hi ≤ 2 ^ 63)
    (hlength : request.length ≠ 0)
    (hmem : entry ∈ map)
    (hkept : first entry + request.length.toNat ≤ (searchLimit request map).toNat)
    (hgreatest : IsGreatest {b | 2 ^ request.alignment.toNat ∣ b ∧
      b + request.length.toNat ≤ (searchLimit request map).toNat + 1 ∧
      b + request.length.toNat ≤ last entry + 1} base.toNat)
    (hwindow : IsWindow base request.length map split)
    (hfree : ∀ e ∈ split.window, coreAllocateSpaceCheckEntry request e.toGcdRegion = .success)
    (hends : ∀ b ∈ keptPlaces request map, b + request.length.toNat ≤ last entry + 1) :
    IsGreatest (keptPlaces request map) base.toNat := by
  obtain ⟨haligned, hbelow, hend⟩ := hgreatest.1
  have hbounds := hpart.tiles.mem_bounds hmem
  constructor
  case left =>
    refine ⟨hwindow.isPlace hpart hlength (by omega) haligned hbelow hfree, ?_⟩
    intro e he hfirst _
    have := hpart.first_le he hmem (by omega)
    omega
  case right =>
    exact fun b hb => hgreatest.2 ⟨hb.1.aligned, hb.1.below, hends b hb⟩

/-- The search from the top returns the highest place it can return. -/
theorem topDown_search
    (htop : request.gcdAllocateType.isTopDown = true)
    (halign : request.alignment < 64)
    (hlength : request.length ≠ 0)
    (hpart : Partition 0 map hi)
    (hsize : hi ≤ 2 ^ 63)
    (hlink : link < map.length)
    (hturns : link + 2 ≤ turns)
    (hends : EndsUpTo request map link) :
    ∃ place, allocateSearch request map (searchLimit request map) turns (some link) =
        some place ∧
      Answers IsGreatest (keptPlaces request map) place := by
  induction turns generalizing link with
  | zero => omega
  | succ turns ih =>
      have ih' : ∀ index < link, EndsUpTo request map index → _ :=
        fun index hindex h => ih (hindex.trans hlink) (by omega) h
      obtain ⟨entry, hentry⟩ : ∃ entry, map[link]? = some entry :=
        ⟨_, getElem?_eq_getElem hlink⟩
      have hmem := mem_of_getElem? hentry
      have hbounds := hpart.tiles.mem_bounds hmem
      have hpos := length_pos hlength
      by_cases hcheck : coreAllocateSpaceCheckEntry request entry.toGcdRegion = .success
      case neg =>
        rw [allocateSearch_next hentry fun h => absurd h hcheck]
        refine topDown_next htop ih' hpart hlength (by omega) hentry fun b hb => ?_
        have hend := hends entry hentry b hb
        exact (hb.1.avoids hpart hlength hmem hcheck).resolve_right (by omega)
      case pos =>
        rcases @candidate_topDown _ (searchLimit request map) _ htop halign hbounds.2.1
          (by omega) with ⟨hskip, habove⟩ | ⟨hstop, hshort⟩ | ⟨base, hbase, hkept, hgreatest⟩
        · rw [allocateSearch_next hentry fun _ => hskip]
          refine topDown_next htop ih' hpart hlength (by omega) hentry fun b hb => ?_
          have hend := hends entry hentry b hb
          by_contra hmeets
          have := hb.2 entry hmem (by omega) hend
          omega
        · rw [allocateSearch_stop hentry hcheck hstop]
          refine ⟨_, rfl, rfl, Set.eq_empty_of_forall_notMem fun b hb => ?_⟩
          have hend := hends entry hentry b hb
          omega
        · obtain ⟨-, -, hend⟩ := hgreatest.1
          obtain ⟨split, hsearch⟩ : ∃ split,
              coreSearchGcdMapEntry base request.length map = some split :=
            coreSearchGcdMapEntry_exists hpart (by omega) hlength (by omega)
          have hwindow := coreSearchGcdMapEntry_isWindow hsearch
          rcases allocateSearch_window hentry hcheck hbase hsearch with
            ⟨hfree, hfound⟩ | ⟨blocked, hblocked, index, hindex, hfails, hnext⟩
          · exact ⟨_, hfound, topDown_found hpart hsize hlength hmem hkept hgreatest hwindow
              hfree (hends entry hentry)⟩
          · -- the range of a better place would meet the blocked entry
            have hmeets := hwindow.mem_bounds hpart hblocked
            have hendNat := @rangeEnd_toNat base _ hlength (by omega)
            have hle := hpart.index_le hindex hentry (by omega)
            have hne : index ≠ link := by
              rintro rfl
              rw [hentry, Option.some_inj] at hindex
              exact hfails (hindex ▸ hcheck)
            rw [hnext]
            refine ih' index (by omega) fun e he b hb => ?_
            rw [hindex, Option.some_inj] at he
            subst he
            have hble := hgreatest.2 ⟨hb.1.aligned, hb.1.below, hends entry hentry b hb⟩
            have hbounds' := hpart.tiles.mem_bounds (mem_of_getElem? hindex)
            have := (hb.1.avoids hpart hlength (mem_of_getElem? hindex)
              hfails).resolve_right (by omega)
            omega

/-- The places of a request. -/
def places (request : AllocateRequest) (map : GcdMap) : Set Nat :=
  {b | IsPlace request map b}

/-- No place begins below the entry at a position. -/
def StartsFrom (request : AllocateRequest) (map : GcdMap) (link : Nat) : Prop :=
  ∀ entry, map[link]? = some entry → ∀ b ∈ places request map, first entry ≤ b

section

variable (htop : request.gcdAllocateType.isTopDown = false)
include htop

theorem candidate_bottomUp :
    candidate request limit entry = .stop ∧
        limit < bottomUpBase request entry + request.length - 1 ∨
      candidate request limit entry = .base (bottomUpBase request entry) ∧
        bottomUpBase request entry + request.length - 1 ≤ limit := by
  simp only [candidate, htop, Bool.false_eq_true, if_false]
  split
  case isTrue hstop => exact Or.inl ⟨rfl, hstop⟩
  case isFalse hgo => exact Or.inr ⟨rfl, UInt64.not_lt.mp hgo⟩

theorem bottomUp_next
    (ih : ∀ index, link < index → index < map.length → StartsFrom request map index →
      ∃ place, allocateSearch request map limit turns (some index) = some place ∧
        Answers IsLeast (places request map) place)
    (hpart : Partition 0 map hi)
    (hlength : request.length ≠ 0)
    (hturns : 1 ≤ turns)
    (hentry : map[link]? = some entry)
    (hstarts : ∀ b ∈ places request map, last entry < b) :
    ∃ place, allocateSearch request map limit turns (nextLink request map link) = some place ∧
      Answers IsLeast (places request map) place := by
  simp only [nextLink, htop, Bool.false_eq_true, if_false]
  split
  case isTrue hlink =>
    refine ih (link + 1) (by omega) hlink fun e he b hb => ?_
    have hnext := hpart.next hentry he
    have := hstarts b hb
    omega
  case isFalse hend =>
    obtain ⟨turns, rfl⟩ := Nat.exists_eq_add_of_le' hturns
    refine ⟨.failed .notFound, rfl, rfl, Set.eq_empty_of_forall_notMem fun b hb => ?_⟩
    have hbehind := hpart.behind hentry
    rw [drop_eq_nil_of_le (by omega)] at hbehind
    have hsize : last entry + 1 = hi := hbehind
    have hpos := length_pos hlength
    have := hstarts b hb
    have := IsPlace.le_size hb hpart hlength
    omega

/-- The search from the bottom returns the lowest place, for a range that fits the space. -/
theorem bottomUp_search
    (halign : request.alignment < 64)
    (hlength : request.length ≠ 0)
    (hpart : Partition 0 map hi)
    (hsize : hi ≤ 2 ^ 63)
    (hfits : request.length.toNat ≤ hi)
    (hlink : link < map.length)
    (hturns : map.length + 1 ≤ turns + link)
    (hstarts : StartsFrom request map link) :
    ∃ place, allocateSearch request map (searchLimit request map) turns (some link) =
        some place ∧
      Answers IsLeast (places request map) place := by
  induction turns generalizing link with
  | zero => omega
  | succ turns ih =>
      have ih' : ∀ index, link < index → index < map.length → StartsFrom request map index → _ :=
        fun index habove hindex h => ih hindex (by omega) h
      obtain ⟨entry, hentry⟩ : ∃ entry, map[link]? = some entry :=
        ⟨_, getElem?_eq_getElem hlink⟩
      have hmem := mem_of_getElem? hentry
      have hbounds := hpart.tiles.mem_bounds hmem
      have hpos := length_pos hlength
      have hstart := hstarts entry hentry
      by_cases hcheck : coreAllocateSpaceCheckEntry request entry.toGcdRegion = .success
      case neg =>
        rw [allocateSearch_next hentry fun h => absurd h hcheck]
        refine bottomUp_next htop ih' hpart hlength (by omega) hentry fun b hb => ?_
        have := hstart b hb
        exact (IsPlace.avoids hb hpart hlength hmem hcheck).resolve_left (by omega)
      case pos =>
        have hleast := bottomUpBase_isLeast halign (by omega : first entry < 2 ^ 63)
        have hbase63 := bottomUpBase_le halign (by omega : first entry < 2 ^ 63)
        have hendNat := @rangeEnd_toNat (bottomUpBase request entry) _ hlength (by omega)
        have hlower : ∀ b ∈ places request map, (bottomUpBase request entry).toNat ≤ b :=
          fun b hb => hleast.2 ⟨hb.aligned, hstart b hb⟩
        rcases @candidate_bottomUp request (searchLimit request map) entry htop with
          ⟨hstop, habove⟩ | ⟨hbase, hbelow⟩
        · rw [allocateSearch_stop hentry hcheck hstop]
          refine ⟨_, rfl, rfl, Set.eq_empty_of_forall_notMem fun b hb => ?_⟩
          rw [UInt64.lt_iff_toNat_lt] at habove
          have := hlower b hb
          have := IsPlace.below hb
          omega
        · rw [UInt64.le_iff_toNat_le] at hbelow
          cases hsearch : coreSearchGcdMapEntry (bottomUpBase request entry) request.length map with
          | none =>
              rw [allocateSearch_outside hentry hcheck hbase hsearch]
              refine ⟨_, rfl, rfl, Set.eq_empty_of_forall_notMem fun b hb => ?_⟩
              have := hlower b hb
              have := IsPlace.le_size hb hpart hlength
              obtain ⟨split, hfound⟩ : ∃ split, coreSearchGcdMapEntry
                  (bottomUpBase request entry) request.length map = some split :=
                coreSearchGcdMapEntry_exists hpart (by omega) hlength (by omega)
              simp [hsearch] at hfound
          | some split =>
              have hwindow := coreSearchGcdMapEntry_isWindow hsearch
              rcases allocateSearch_window hentry hcheck hbase hsearch with
                ⟨hfree, hfound⟩ | ⟨blocked, hblocked, index, hindex, hfails, hnext⟩
              · refine ⟨_, hfound, ?_, hlower⟩
                exact hwindow.isPlace hpart hlength (by omega) hleast.1.1 (by omega) hfree
              · -- the range of a lower place would meet the blocked entry
                have hmeets := hwindow.mem_bounds hpart hblocked
                have hle := hpart.index_le hentry hindex (hleast.1.2.trans hmeets.1)
                have hne : link ≠ index := by
                  rintro rfl
                  rw [hentry, Option.some_inj] at hindex
                  exact hfails (hindex ▸ hcheck)
                rw [hnext]
                refine ih' index (by omega) (List.getElem?_eq_some_iff.mp hindex).1
                  fun e he b hb => ?_
                rw [hindex, Option.some_inj] at he
                subst he
                have := hlower b hb
                have hbounds' := hpart.tiles.mem_bounds (mem_of_getElem? hindex)
                have := (IsPlace.avoids hb hpart hlength (mem_of_getElem? hindex)
                  hfails).resolve_left (by omega)
                omega

end

/-- The range at an entry wraps at 64 bits and ends, at or below the limit, in the entry that
holds its base. -/
structure WrapsInto (request : AllocateRequest) (map : GcdMap) (entry held : GcdMapEntry) :
    Prop where
  mem : held ∈ map
  wraps : 2 ^ 64 < (bottomUpBase request entry).toNat + request.length.toNat
  below : bottomUpBase request entry + request.length - 1 ≤ searchLimit request map
  base : held.contains (bottomUpBase request entry) = true
  final : held.contains (bottomUpBase request entry + request.length - 1) = true

/-- The range at each free entry before a position wraps into an entry which is not free. -/
def WrapsBelow (request : AllocateRequest) (map : GcdMap) (link : Nat) : Prop :=
  ∀ index < link, ∀ entry, map[index]? = some entry →
    coreAllocateSpaceCheckEntry request entry.toGcdRegion = .success →
    ∃ held, WrapsInto request map entry held ∧
      coreAllocateSpaceCheckEntry request held.toGcdRegion ≠ .success

/-- The search from the bottom comes to a free entry whose range wraps into a free entry. -/
def WrappedPlace (request : AllocateRequest) (map : GcdMap) : Prop :=
  ∃ (index : Nat) (entry held : GcdMapEntry), map[index]? = some entry ∧
    coreAllocateSpaceCheckEntry request entry.toGcdRegion = .success ∧
    WrapsInto request map entry held ∧
    coreAllocateSpaceCheckEntry request held.toGcdRegion = .success ∧
    WrapsBelow request map index

theorem WrapsInto.same_check
    {held held' : GcdMapEntry}
    (hpart : Partition 0 map hi)
    (h : WrapsInto request map entry held)
    (h' : WrapsInto request map entry held') :
    coreAllocateSpaceCheckEntry request held.toGcdRegion =
      coreAllocateSpaceCheckEntry request held'.toGcdRegion := by
  have hbase := (held.contains_iff _).mp h.base
  have hbase' := (held'.contains_iff _).mp h'.base
  have hlabel := hpart.tiles.mem_value h.mem hbase.1 hbase.2
  rw [hpart.tiles.mem_value h'.mem hbase'.1 hbase'.2, Option.some_inj] at hlabel
  exact congrArg (coreAllocateSpaceCheckEntry request) hlabel.symm

theorem WrapsBelow.not_before
    (h : WrapsBelow request map link)
    (hpart : Partition 0 map hi)
    {held : GcdMapEntry} {index : Nat}
    (hentry : map[index]? = some entry)
    (hcheck : coreAllocateSpaceCheckEntry request entry.toGcdRegion = .success)
    (hwraps : WrapsInto request map entry held)
    (hfree : coreAllocateSpaceCheckEntry request held.toGcdRegion = .success) :
    link ≤ index := by
  by_contra hlt
  obtain ⟨held', hwraps', hfails⟩ := h index (by omega) entry hentry hcheck
  exact hfails ((hwraps'.same_check hpart hwraps).trans hfree)

theorem WrapsBelow.not_wrappedPlace
    (h : WrapsBelow request map link)
    (hpart : Partition 0 map hi)
    (hentry : map[link]? = some entry)
    (hcheck : coreAllocateSpaceCheckEntry request entry.toGcdRegion = .success)
    (hnone : ∀ held, ¬WrapsInto request map entry held) :
    ¬WrappedPlace request map := by
  rintro ⟨index, e, held, he, hpass, hwraps, hfree, hbelow⟩
  rcases (h.not_before hpart he hpass hwraps hfree).lt_or_eq with hlt | rfl
  · obtain ⟨held', hwraps', -⟩ := hbelow link hlt entry hentry hcheck
    exact hnone held' hwraps'
  · rw [hentry, Option.some_inj] at he
    exact hnone held (he ▸ hwraps)

theorem WrapsInto.between
    {held e : GcdMapEntry}
    (h : WrapsInto request map entry held)
    (hpart : Partition 0 map hi)
    (hsize : hi ≤ 2 ^ 63)
    (halign : request.alignment < 64)
    (hentry : entry ∈ map)
    (he : e ∈ map)
    (hlow : first entry ≤ first e)
    (hhigh : first e ≤ first held) :
    WrapsInto request map e held := by
  have hbounds' := hpart.tiles.mem_bounds he
  have hleast := bottomUpBase_isLeast halign (by omega : first entry < 2 ^ 63)
  have hleast' := bottomUpBase_isLeast halign (by omega : first e < 2 ^ 63)
  have hbase := ((held.contains_iff _).mp h.base).1
  have hsame : bottomUpBase request e = bottomUpBase request entry := by
    refine UInt64.toNat_inj.mp (le_antisymm ?_ ?_)
    · exact hleast'.2 ⟨hleast.1.1, hhigh.trans hbase⟩
    · exact hleast.2 ⟨hleast'.1.1, hlow.trans hleast'.1.2⟩
  exact ⟨h.mem, hsame ▸ h.wraps, hsame ▸ h.below, hsame ▸ h.base, hsame ▸ h.final⟩

theorem searchGcdMapLoop_of_contains
    {length : UInt64} {before rest : GcdMap} {start : Option (GcdMap × GcdMap)}
    (hmem : entry ∈ rest)
    (hbase : entry.contains baseAddress = true)
    (hend : entry.contains (baseAddress + length - 1) = true) :
    ∃ split, searchGcdMapLoop baseAddress length before start rest = some split := by
  induction rest generalizing before start with
  | nil => exact absurd hmem not_mem_nil
  | cons e rest ih =>
      rw [searchGcdMapLoop]
      rcases mem_cons.mp hmem with rfl | hrest
      · exact ⟨_, by simp only [hbase, if_true, hend]; rfl⟩
      · split
        case h_1 => exact ih hrest
        case h_2 =>
          split
          case isTrue => exact ⟨_, rfl⟩
          case isFalse => exact ih hrest

/-- A window of a range that wraps is the entry that holds its base. -/
theorem IsWindow.wrapsInto
    (hpart : Partition 0 map hi)
    (hlength : request.length ≠ 0)
    (h : IsWindow (bottomUpBase request entry) request.length map split)
    (hwraps : 2 ^ 64 < (bottomUpBase request entry).toNat + request.length.toNat)
    (hbelow : bottomUpBase request entry + request.length - 1 ≤ searchLimit request map) :
    ∃ held, split.window = [held] ∧ WrapsInto request map entry held := by
  obtain ⟨head, rest, hcons, hbase⟩ := h.first_contains
  obtain ⟨front, final, hsnoc, hend⟩ := h.last_contains
  have hlength' := request.length.toNat_lt
  have hbase' := (bottomUpBase request entry).toNat_lt
  have hone : (1 : UInt64).toNat = 1 := rfl
  have hpos := length_pos hlength
  have hendNat : (bottomUpBase request entry + request.length - 1).toNat <
      (bottomUpBase request entry).toNat := by
    rw [UInt64.toNat_sub, UInt64.toNat_add, hone]
    omega
  have hfinal : final ∈ split.window := by rw [hsnoc]; simp
  have hmem : final ∈ map := by rw [h.map_eq]; simp [hfinal]
  have hlast := (h.mem_bounds hpart hfinal).1
  have hfirst := ((final.contains_iff _).mp hend).1
  refine ⟨final, ?_, ⟨hmem, hwraps, hbelow, ?_, hend⟩⟩
  · cases front with
    | nil => exact hsnoc
    | cons c front =>
        -- the first entry would hold the end of the range as well
        obtain ⟨rfl, -⟩ := List.cons.inj (hcons.symm.trans hsnoc)
        have hbounds := (head.contains_iff _).mp hbase
        have htiles := hpart.tiles
        rw [h.map_eq] at htiles
        obtain ⟨t, htiles, -⟩ := tiles_append.mp htiles
        obtain ⟨s, -, hmiddle⟩ := tiles_append.mp htiles
        have hpairwise := hmiddle.partition.pairwise
        rw [hsnoc, cons_append] at hpairwise
        have := (pairwise_cons.mp hpairwise).1 final (by simp)
        omega
  · exact (final.contains_iff _).mpr ⟨by omega, hlast⟩

/-- A range longer than the space is found when its end wraps into a free entry, and only
then. -/
theorem bottomUp_wrapped
    (htop : request.gcdAllocateType.isTopDown = false)
    (halign : request.alignment < 64)
    (hlength : request.length ≠ 0)
    (hpart : Partition 0 map hi)
    (hsize : hi ≤ 2 ^ 63)
    (hlong : hi < request.length.toNat)
    (hlink : link < map.length)
    (hturns : map.length + 1 ≤ turns + link)
    (hbelow : WrapsBelow request map link) :
    ∃ place, allocateSearch request map (searchLimit request map) turns (some link) =
        some place ∧
      (place = .failed .notFound ∧ ¬WrappedPlace request map ∨
        (∃ base split, place = .found base split) ∧ WrappedPlace request map) := by
  induction turns generalizing link with
  | zero => omega
  | succ turns ih =>
      obtain ⟨entry, hentry⟩ : ∃ entry, map[link]? = some entry :=
        ⟨_, getElem?_eq_getElem hlink⟩
      have hmem := mem_of_getElem? hentry
      have hbounds := hpart.tiles.mem_bounds hmem
      by_cases hcheck : coreAllocateSpaceCheckEntry request entry.toGcdRegion = .success
      case neg =>
        have hbelow' : WrapsBelow request map (link + 1) := by
          intro index hindex e he hpass
          rcases Nat.lt_succ_iff_lt_or_eq.mp hindex with hlt | rfl
          · exact hbelow index hlt e he hpass
          · rw [hentry, Option.some_inj] at he
            exact absurd (he ▸ hpass) hcheck
        rw [allocateSearch_next hentry fun h => absurd h hcheck]
        simp only [nextLink, htop, Bool.false_eq_true, if_false]
        split
        case isTrue hnext => exact ih hnext (by omega) hbelow'
        case isFalse hlast =>
          obtain ⟨turns, rfl⟩ := Nat.exists_eq_add_of_le' (by omega : 1 ≤ turns)
          refine ⟨_, rfl, Or.inl ⟨rfl, ?_⟩⟩
          rintro ⟨index, e, held, he, hpass, hwraps, hfree, -⟩
          have := hbelow'.not_before hpart he hpass hwraps hfree
          have := (List.getElem?_eq_some_iff.mp he).1
          omega
      case pos =>
        rcases @candidate_bottomUp request (searchLimit request map) entry htop with
          ⟨hstop, habove⟩ | ⟨hbase, hunder⟩
        · rw [allocateSearch_stop hentry hcheck hstop]
          refine ⟨_, rfl, Or.inl ⟨rfl, hbelow.not_wrappedPlace hpart hentry hcheck ?_⟩⟩
          exact fun held hwraps => absurd hwraps.below (UInt64.not_le.mpr habove)
        · cases hsearch : coreSearchGcdMapEntry (bottomUpBase request entry) request.length map with
          | none =>
              rw [allocateSearch_outside hentry hcheck hbase hsearch]
              refine ⟨_, rfl, Or.inl ⟨rfl, hbelow.not_wrappedPlace hpart hentry hcheck ?_⟩⟩
              intro held hwraps
              obtain ⟨split, hfound⟩ : ∃ split, coreSearchGcdMapEntry
                  (bottomUpBase request entry) request.length map = some split :=
                searchGcdMapLoop_of_contains hwraps.mem hwraps.base hwraps.final
              simp [hsearch] at hfound
          | some split =>
              have hwindow := coreSearchGcdMapEntry_isWindow hsearch
              have hwraps : 2 ^ 64 <
                  (bottomUpBase request entry).toNat + request.length.toNat := by
                by_contra hfits
                have := hwindow.range_le hpart hlength (by omega)
                omega
              obtain ⟨held, hheld, hinto⟩ :=
                IsWindow.wrapsInto hpart hlength hwindow hwraps hunder
              rcases allocateSearch_window hentry hcheck hbase hsearch with
                ⟨hfree, hfound⟩ | ⟨blocked, hblocked, index, hindex, hfails, hnext⟩
              · exact ⟨_, hfound, Or.inr ⟨⟨_, _, rfl⟩, link, entry, held, hentry, hcheck, hinto,
                  hfree held (by rw [hheld]; simp), hbelow⟩⟩
              · rw [hheld, mem_singleton] at hblocked
                subst hblocked
                have hleast := bottomUpBase_isLeast halign (by omega : first entry < 2 ^ 63)
                have hmeets := (blocked.contains_iff _).mp hinto.base
                have hle := hpart.index_le hentry hindex (hleast.1.2.trans hmeets.2)
                have hne : link ≠ index := by
                  rintro rfl
                  rw [hentry, Option.some_inj] at hindex
                  exact hfails (hindex ▸ hcheck)
                rw [hnext]
                refine ih (List.getElem?_eq_some_iff.mp hindex).1 (by omega)
                  fun j hj e he hpass => ?_
                rcases Nat.lt_or_ge j link with hlt | hge
                · exact hbelow j hlt e he hpass
                · have he' := mem_of_getElem? he
                  have hlow := hpart.first_le hmem he' ?_
                  · have hhigh := hpart.last_lt he hindex hj
                    have hbounds' := hpart.tiles.mem_bounds he'
                    exact ⟨blocked, hinto.between hpart hsize halign hmem he' hlow (by omega),
                      hfails⟩
                  · rcases hge.lt_or_eq with hgt | rfl
                    · have := hpart.last_lt hentry he hgt
                      have hbounds' := hpart.tiles.mem_bounds he'
                      omega
                    · rw [hentry, Option.some_inj] at he
                      exact he ▸ hbounds.2.1

theorem not_wrappedPlace_of_fits
    (halign : request.alignment < 64)
    (hpart : Partition 0 map hi)
    (hsize : hi ≤ 2 ^ 63)
    (hfits : request.length.toNat ≤ hi) :
    ¬WrappedPlace request map := by
  rintro ⟨index, entry, held, hentry, -, hwraps, -⟩
  have hbounds := hpart.tiles.mem_bounds (mem_of_getElem? hentry)
  have := bottomUpBase_le halign (by omega : first entry < 2 ^ 63)
  have := hwraps.wraps
  omega

theorem places_eq_empty
    (hpart : Partition 0 map hi)
    (hlength : request.length ≠ 0)
    (hlong : hi < request.length.toNat) :
    places request map = ∅ := by
  refine Set.eq_empty_of_forall_notMem fun b hb => ?_
  have := IsPlace.le_size hb hpart hlength
  omega

/-- What `CoreAllocateSpace` chooses in a search. -/
structure Chosen (request : AllocateRequest) (map : GcdMap) (place : Placement) : Prop where
  topDown : request.gcdAllocateType.isTopDown = true →
    Answers IsGreatest (keptPlaces request map) place
  bottomUp : request.gcdAllocateType.isTopDown = false →
    Answers IsLeast (places request map) place ∧ ¬WrappedPlace request map ∨
      (∃ base split, place = .found base split) ∧ WrappedPlace request map ∧
        places request map = ∅

/-- A search looks at each entry at most once. -/
theorem allocatePlace_chosen
    {base : UInt64}
    (hparameters : allocateParameters request = .success)
    (hsearch : request.gcdAllocateType ≠ .address)
    (hpart : Partition 0 map hi)
    (hsize : hi ≤ 2 ^ 63)
    (hbase : request.baseAddress = some base) :
    ∃ place, allocatePlace request (map.length + 1) map base = some place ∧
      Chosen request map place := by
  have hlength := (allocateParameters_success hparameters).2.1
  have halign : request.alignment < 64 := by
    by_contra habove
    have := UInt64.not_lt.mp habove
    simp only [allocateParameters] at hparameters
    split_ifs at hparameters
  have hpos := length_pos hlength
  simp only [allocatePlace, hsearch, if_false]
  cases hlast : map.getLast? with
  | none =>
      obtain rfl := getLast?_eq_none_iff.mp hlast
      have hempty : 0 = hi := hpart
      have hnone := places_eq_empty hpart hlength (by omega)
      refine ⟨_, rfl, fun _ => ⟨rfl, ?_⟩, fun _ => Or.inl ⟨⟨rfl, hnone⟩, ?_⟩⟩
      · refine Set.eq_empty_of_forall_notMem fun b hb => ?_
        exact (Set.mem_empty_iff_false b).mp (hnone ▸ hb.1)
      · rintro ⟨index, entry, held, hentry, -⟩
        simp at hentry
  | some final =>
      have hlimit : (if request.gcdAllocateType.hasMaxAddress = true then base
          else final.endAddress) = searchLimit request map := by
        rw [searchLimit, hbase, hlast]
        rfl
      have hne : 0 < map.length := by
        cases map with
        | nil => simp at hlast
        | cons _ _ => exact Nat.succ_pos _
      dsimp only
      rw [hlimit]
      cases htop : request.gcdAllocateType.isTopDown with
      | true =>
          rw [if_pos rfl]
          obtain ⟨place, hplace, hanswer⟩ := @topDown_search request map (map.length + 1)
            (map.length - 1) hi htop halign hlength hpart hsize (by omega) (by omega)
            fun entry hentry b hb => by
              have hbehind := hpart.behind hentry
              rw [drop_eq_nil_of_le (by omega)] at hbehind
              have hend : last entry + 1 = hi := hbehind
              have := hb.1.le_size hpart hlength
              omega
          exact ⟨place, hplace, fun _ => hanswer, fun h => absurd (htop.symm.trans h) (by simp)⟩
      | false =>
          rw [if_neg Bool.false_ne_true]
          have hzero : WrapsBelow request map 0 := fun index hindex => absurd hindex (by omega)
          rcases Nat.lt_or_ge hi request.length.toNat with hlong | hfits
          · obtain ⟨place, hplace, ⟨hfailed, hnot⟩ | hwrapped⟩ := @bottomUp_wrapped request map
              (map.length + 1) 0 hi htop halign hlength hpart hsize hlong hne (by omega) hzero
            · exact ⟨place, hplace, fun h => absurd (htop.symm.trans h) (by simp), fun _ =>
                Or.inl ⟨hfailed ▸ ⟨rfl, places_eq_empty hpart hlength hlong⟩, hnot⟩⟩
            · exact ⟨place, hplace, fun h => absurd (htop.symm.trans h) (by simp), fun _ =>
                Or.inr ⟨hwrapped.1, hwrapped.2, places_eq_empty hpart hlength hlong⟩⟩
          · have hfirst : StartsFrom request map 0 := by
              intro entry hentry b _
              cases map with
              | nil => simp at hentry
              | cons e rest =>
                  rw [getElem?_cons_zero, Option.some_inj] at hentry
                  have hstart : first e = 0 := hpart.1
                  rw [← hentry, hstart]
                  exact Nat.zero_le b
            obtain ⟨place, hplace, hanswer⟩ := @bottomUp_search request map
              (map.length + 1) 0 hi htop halign hlength hpart hsize hfits hne (by omega) hfirst
            exact ⟨place, hplace, fun h => absurd (htop.symm.trans h) (by simp), fun _ =>
              Or.inl ⟨hanswer, not_wrappedPlace_of_fits halign hpart hsize hfits⟩⟩

/-- A call of a search returns, after at most one look at each entry: with the best place if
there is one, else with `EFI_NOT_FOUND`. -/
def SearchExact (request : AllocateRequest) (env : GcdEnvironment) (s : GcdState) : Prop :=
  ∃ status answer s',
    coreAllocateSpace request ((s.map request.operation).length + 1) env s =
      some (status, answer, s') ∧
    ((places request (s.map request.operation)).Nonempty → status = .success ∧
      ∃ base, answer = some base ∧
        (if request.gcdAllocateType.isTopDown then IsGreatest else IsLeast)
          (places request (s.map request.operation)) base.toNat) ∧
    (places request (s.map request.operation) = ∅ → status = .notFound)

/-- The pool grants the two entries when there is a place; from the top, the entry in which
the range of the highest place ends is not passed over; from the bottom, the range does not
wrap into a free entry. -/
structure SearchSafe (request : AllocateRequest) (env : GcdEnvironment) (s : GcdState) :
    Prop where
  pool : (places request (s.map request.operation)).Nonempty → env.allocateEntries = true
  topDown : request.gcdAllocateType.isTopDown = true →
    ∀ b, IsGreatest (places request (s.map request.operation)) b →
      Kept request (s.map request.operation) b
  bottomUp : request.gcdAllocateType.isTopDown = false →
    ¬WrappedPlace request (s.map request.operation)

theorem coreAllocateSpace_chosen
    {env : GcdEnvironment} {s : GcdState}
    (hparameters : allocateParameters request = .success)
    (hsearch : request.gcdAllocateType ≠ .address)
    (hpart : Partition 0 (s.map request.operation) hi)
    (hsize : hi ≤ 2 ^ 63) :
    ∃ place, Chosen request (s.map request.operation) place ∧
      coreAllocateSpace request ((s.map request.operation).length + 1) env s =
        match place with
        | .failed status => some (status, none, s)
        | .found base split =>
          if !env.allocateEntries then some (.outOfResources, none, s)
          else some (.success, some base, s.setMap request.operation
            (convertSplit (allocateEdit request) base request.length split)) := by
  obtain ⟨-, -, base, hbase⟩ := allocateParameters_success hparameters
  obtain ⟨place, hplace, hchosen⟩ := allocatePlace_chosen hparameters hsearch hpart hsize hbase
  refine ⟨place, hchosen, ?_⟩
  rw [coreAllocateSpace, hparameters, hbase]
  simp only [hplace, Option.map_some]
  cases place with
  | failed status => rfl
  | found base split =>
      dsimp only
      split <;> rfl

theorem exists_highest
    (hpart : Partition 0 map hi)
    (hlength : request.length ≠ 0)
    (hplaces : (places request map).Nonempty) :
    ∃ b, IsGreatest (places request map) b := by
  refine BddAbove.exists_isGreatest_of_nonempty ⟨hi, fun b hb => ?_⟩ hplaces
  have := IsPlace.le_size hb hpart hlength
  omega

theorem isGreatest_of_kept
    {b : Nat}
    (hpart : Partition 0 map hi)
    (hlength : request.length ≠ 0)
    (hkept : ∀ b, IsGreatest (places request map) b → Kept request map b)
    (h : IsGreatest (keptPlaces request map) b) :
    IsGreatest (places request map) b := by
  obtain ⟨highest, hhighest⟩ := exists_highest hpart hlength ⟨b, h.1.1⟩
  have hle := h.2 ⟨hhighest.1, hkept highest hhighest⟩
  exact ⟨h.1.1, fun c hc => (hhighest.2 hc).trans hle⟩

/-- The search of `CoreAllocateSpace` is complete and optimal exactly where the condition
holds. -/
theorem searchExact_iff
    {env : GcdEnvironment} {s : GcdState} {memorySize ioSize : Nat}
    (hpart : Partitions memorySize ioSize s)
    (hmemory : memorySize ≤ 2 ^ 63)
    (hio : ioSize ≤ 2 ^ 63)
    (hparameters : allocateParameters request = .success)
    (hsearch : request.gcdAllocateType ≠ .address) :
    SearchExact request env s ↔ SearchSafe request env s := by
  have hmap := hpart.map request.operation
  have hsize := GcdState.size_le hmemory hio request.operation
  have hlength := (allocateParameters_success hparameters).2.1
  obtain ⟨place, hchosen, hcall⟩ :=
    @coreAllocateSpace_chosen request _ env s hparameters hsearch hmap hsize
  constructor
  case mp =>
    rintro ⟨status, answer, s', hreturns, hsome, hnone⟩
    rw [hcall] at hreturns
    cases place with
    | failed reason =>
        simp only [Option.some.injEq, Prod.mk.injEq] at hreturns
        obtain ⟨rfl, rfl, rfl⟩ := hreturns
        have hempty : ¬(places request (s.map request.operation)).Nonempty := fun h => by
          obtain ⟨-, base, hbase, -⟩ := hsome h
          simp at hbase
        refine ⟨fun h => absurd h hempty, fun _ b hb => absurd ⟨b, hb.1⟩ hempty, fun hbottom => ?_⟩
        rcases hchosen.bottomUp hbottom with ⟨-, hnot⟩ | ⟨⟨base, split, hfound⟩, -⟩
        · exact hnot
        · simp at hfound
    | found base split =>
        cases hpool : env.allocateEntries with
        | false =>
            simp only [hpool, Bool.not_false, if_true, Option.some.injEq, Prod.mk.injEq]
              at hreturns
            obtain ⟨rfl, -, -⟩ := hreturns
            rcases Set.eq_empty_or_nonempty (places request (s.map request.operation)) with h | h
            · exact Status.noConfusion (hnone h)
            · exact Status.noConfusion (hsome h).1
        | true =>
            simp only [hpool, Bool.not_true, Bool.false_eq_true, if_false, Option.some.injEq,
              Prod.mk.injEq] at hreturns
            obtain ⟨rfl, rfl, rfl⟩ := hreturns
            have hplaces : (places request (s.map request.operation)).Nonempty :=
              Set.nonempty_iff_ne_empty.mpr fun h => Status.noConfusion (hnone h)
            obtain ⟨-, base', hbase, hbest⟩ := hsome hplaces
            obtain rfl := Option.some.inj hbase
            refine ⟨fun _ => hpool, fun htop b hb => ?_, fun hbottom => ?_⟩
            · rw [if_pos htop] at hbest
              rw [hb.unique hbest]
              exact (hchosen.topDown htop).1.2
            · rcases hchosen.bottomUp hbottom with ⟨-, hnot⟩ | ⟨-, -, hempty⟩
              · exact hnot
              · exact absurd hempty hplaces.ne_empty
  case mpr =>
    intro hsafe
    cases place with
    | failed reason =>
        have hempty : reason = .notFound ∧ places request (s.map request.operation) = ∅ := by
          cases htop : request.gcdAllocateType.isTopDown with
          | true =>
              obtain ⟨hreason, hkept⟩ := hchosen.topDown htop
              refine ⟨hreason, Set.not_nonempty_iff_eq_empty.mp fun hplaces => ?_⟩
              obtain ⟨b, hb⟩ := exists_highest hmap hlength hplaces
              exact (Set.mem_empty_iff_false b).mp (hkept ▸ ⟨hb.1, hsafe.topDown htop b hb⟩)
          | false =>
              rcases hchosen.bottomUp htop with ⟨hanswer, -⟩ | ⟨⟨base, split, hfound⟩, -⟩
              · exact hanswer
              · simp at hfound
        refine ⟨_, _, _, hcall, fun hplaces => absurd hempty.2 hplaces.ne_empty, fun _ => hempty.1⟩
    | found base split =>
        have hbest : (if request.gcdAllocateType.isTopDown then IsGreatest else IsLeast)
            (places request (s.map request.operation)) base.toNat := by
          cases htop : request.gcdAllocateType.isTopDown with
          | true =>
              rw [if_pos rfl]
              exact isGreatest_of_kept hmap hlength (hsafe.topDown htop) (hchosen.topDown htop)
          | false =>
              rw [if_neg Bool.false_ne_true]
              rcases hchosen.bottomUp htop with ⟨hanswer, -⟩ | ⟨-, hwrapped, -⟩
              · exact hanswer
              · exact absurd hwrapped (hsafe.bottomUp htop)
        have hplaces : (places request (s.map request.operation)).Nonempty := by
          split at hbest <;> exact ⟨_, hbest.1⟩
        simp only [hsafe.pool hplaces, Bool.not_true, Bool.false_eq_true, if_false] at hcall
        exact ⟨_, _, _, hcall, fun _ => ⟨rfl, base, rfl, hbest⟩,
          fun hempty => absurd hempty hplaces.ne_empty⟩

end Search

section Sample

/-- The maps with one page of system memory at `0x1000`. -/
def onePage : GcdState :=
  (coreConvertSpace (sampleAdd 0x1000 0x1000) sampleEnvironment (initialGcdState 36 16)).2

theorem onePage_partitions :
    Partitions (2 ^ 36) (2 ^ 16) onePage :=
  (Partitions.convert ⟨partition_initial (by decide), partition_initial (by decide)⟩
    (Or.inl (by decide))).1

/-- A request for a page of system memory up to `0x1fff`. -/
def pageRequest (gcdAllocateType : GcdAllocateType) : AllocateRequest where
  operation := .allocateMemory
  gcdAllocateType := gcdAllocateType
  gcdMemoryType := 2
  gcdIoType := 0
  alignment := 12
  length := 0x1000
  baseAddress := some 0x1fff
  imageHandle := some 1
  deviceHandle := none

theorem searchExact_iff_page :
    SearchExact (pageRequest .maxAddressSearchBottomUp) sampleEnvironment onePage ↔
      SearchSafe (pageRequest .maxAddressSearchBottomUp) sampleEnvironment onePage :=
  searchExact_iff onePage_partitions (by decide) (by decide) (by decide) (by decide)

/-- The only page below the limit ends at the limit: from the bottom it is found, from the
top it is passed over. -/
theorem lastPage_passedOver :
    ¬∀ request env s memorySize ioSize, Partitions memorySize ioSize s → memorySize ≤ 2 ^ 63 →
      ioSize ≤ 2 ^ 63 → allocateParameters request = .success →
      request.gcdAllocateType ≠ .address → env.allocateEntries = true →
      SearchExact request env s := by
  intro h
  obtain ⟨status, answer, s', hcall, hsome, -⟩ := h (pageRequest .maxAddressSearchTopDown)
    sampleEnvironment onePage _ _ onePage_partitions (by decide) (by decide) (by decide)
    (by decide) rfl
  have hmap : onePage.map (pageRequest .maxAddressSearchTopDown).operation =
      [⟨gcdTemplate, 0, 0xfff⟩,
        ⟨{ gcdTemplate with gcdMemoryType := 2, capabilities := efiMemoryRuntime },
          0x1000, 0x1fff⟩,
        ⟨gcdTemplate, 0x2000, 0xfffffffff⟩] := by
    decide
  have hplace : IsPlace (pageRequest .maxAddressSearchTopDown)
      (onePage.map (pageRequest .maxAddressSearchTopDown).operation) 0x1000 := by
    refine ⟨by decide, by rw [hmap]; decide, fun x hx hx' => ?_⟩
    refine ⟨_, (onePage_partitions.map _).tiles.mem_value
      (c := ⟨{ gcdTemplate with gcdMemoryType := 2, capabilities := efiMemoryRuntime },
          0x1000, 0x1fff⟩) ?_ hx ?_, by decide⟩
    · rw [hmap]
      simp
    · have hlength : (pageRequest .maxAddressSearchTopDown).length.toNat = 0x1000 := rfl
      rw [hlength] at hx'
      exact Nat.lt_succ_iff.mp hx'
  have hnone : coreAllocateSpace (pageRequest .maxAddressSearchTopDown)
      ((onePage.map (pageRequest .maxAddressSearchTopDown).operation).length + 1)
      sampleEnvironment onePage = some (.notFound, none, onePage) := by
    decide
  rw [hnone, Option.some_inj, Prod.mk.injEq] at hcall
  exact absurd (hcall.1.trans (hsome ⟨_, hplace⟩).1) (by decide)

end Sample

end Gcd
end Udk
