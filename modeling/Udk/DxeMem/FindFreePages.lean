import Udk.DxeMem.Page

/-!
# The search for free pages

`CoreFindFreePagesI` looks for the highest end at which the pages fit into an entry.  The end of an
entry is rounded down in `UINTN` arithmetic and has one added and subtracted, so that an end that
becomes zero stands for the top of the 64-bit address space.
-/

namespace Udk
namespace DxeMem

open PropertiesTable (add64 sub64)

/-- The width of `UINTN`. -/
inductive Processor
  | bits32
  | bits64

def Processor.width : Processor → Nat
  | .bits32 => 32
  | .bits64 => 64

/-- Entries with whole pages up to `MAX_ADDRESS` that do not overlap. -/
structure PageMap (p : Processor) where
  entries : List MapEntry
  start_page : ∀ e ∈ entries, e.start % pageSize = 0
  end_page : ∀ e ∈ entries, (e.endAddress + 1) % pageSize = 0
  ordered : ∀ e ∈ entries, e.start ≤ e.endAddress
  below : ∀ e ∈ entries, e.endAddress < 2 ^ p.width
  disjoint : entries.Pairwise fun d e => d.endAddress < e.start ∨ e.endAddress < d.start

/-- The arguments of a search. -/
structure Search (p : Processor) where
  maxAddress : Nat
  minAddress : Nat
  numberOfPages : Nat
  shift : Nat
  max_lt : maxAddress < 2 ^ 64
  min_lt : minAddress < 2 ^ 64
  bytes_lt : numberOfPages * pageSize < 2 ^ 64
  page_le : 12 ≤ shift
  shift_lt : shift < p.width

section Search

variable {p : Processor} (q : Search p)

/-- `Alignment` -/
def Search.alignment : Nat := 2 ^ q.shift

/-- The number of bytes of the pages. -/
def Search.bytes : Nat := q.numberOfPages * pageSize

/-- The result of the search. -/
def Search.run (map : PageMap p) : Nat :=
  coreFindFreePagesI p.width map.entries q.maxAddress q.minAddress q.numberOfPages q.alignment

/-- The base of enough free pages inside one entry, with an aligned end, between the limits. -/
structure FreeRun (map : PageMap p) (base : Nat) : Prop where
  pages : 0 < q.numberOfPages
  inside : ∃ e ∈ map.entries, e.memoryType = efiConventionalMemory ∧ e.start ≤ base ∧
    base + q.bytes ≤ e.endAddress + 1
  aligned : (base + q.bytes) % q.alignment = 0
  above : q.minAddress ≤ base
  limit : base + q.bytes - 1 ≤ q.maxAddress

/-- The result is the highest base, and zero only if there is no other one. -/
def HighestBase (map : PageMap p) (result : Nat) : Prop :=
  (result ≠ 0 → FreeRun q map result ∧ ∀ base, FreeRun q map base → base ≤ result) ∧
    (result = 0 → ∀ base, FreeRun q map base → base = 0)

/-- Where an entry ends below the limit. -/
def Search.top (e : MapEntry) : Nat := min e.endAddress (pageEnd q.maxAddress) + 1

/-- A free entry with the whole address space, in which the pages have a base. -/
structure CoversAll (e : MapEntry) : Prop where
  free : e.memoryType = efiConventionalMemory
  start : e.start = 0
  top : q.top e = 2 ^ p.width
  bytes : q.bytes < 2 ^ p.width
  above : q.minAddress ≤ 2 ^ p.width - q.bytes

/-- A free entry above address zero whose end is rounded down to zero, and that seems to have the
pages at the top of the 64-bit address space. -/
structure Overshoots (e : MapEntry) : Prop where
  free : e.memoryType = efiConventionalMemory
  start : 0 < e.start
  limit : e.start ≤ pageEnd q.maxAddress
  low : q.minAddress ≤ e.endAddress
  rounded : q.top e % 2 ^ p.width < q.alignment
  below : q.top e < 2 ^ 64
  bytes : e.start + q.bytes ≤ 2 ^ 64
  above : q.minAddress + q.bytes ≤ 2 ^ 64

/-- A free entry that has the pages at the top of the 64-bit address space. -/
structure ReachesTop (e : MapEntry) : Prop where
  free : e.memoryType = efiConventionalMemory
  top : q.top e = 2 ^ 64
  bytes : e.start + q.bytes ≤ 2 ^ 64

/-- No entry spoils the search. -/
def Unspoiled (map : PageMap p) : Prop :=
  0 < q.numberOfPages → pageSize - 1 ≤ q.maxAddress →
    (∀ e ∈ map.entries, ¬ CoversAll q e) ∧
      ((∃ e ∈ map.entries, Overshoots q e) → ∃ e ∈ map.entries, ReachesTop q e)

end Search

section Arithmetic

theorem and_mask
    {w k x : Nat} (hk : k < w) :
    x &&& (2 ^ w - 1 - (2 ^ k - 1)) = x % 2 ^ w / 2 ^ k * 2 ^ k := by
  have hpos : 0 < 2 ^ k := Nat.two_pow_pos k
  have hlt : 2 ^ k < 2 ^ w := Nat.pow_lt_pow_right (by decide) hk
  have hmask : 2 ^ w - 1 - (2 ^ k - 1) = 2 ^ w - (2 ^ k - 1 + 1) := by omega
  apply Nat.eq_of_testBit_eq
  intro i
  rw [hmask, Nat.testBit_and, Nat.testBit_two_pow_sub_succ (by omega), Nat.testBit_two_pow_sub_one,
    Nat.testBit_mul_two_pow, Nat.testBit_div_two_pow, Nat.testBit_mod_two_pow]
  by_cases hlow : k ≤ i
  · have hsum : i - k + k = i := Nat.sub_add_cancel hlow
    simp only [hsum, hlow, decide_true, Bool.true_and, Nat.not_lt.mpr hlow, decide_false,
      Bool.not_false, Bool.and_true, Bool.and_comm]
  · simp only [hlow, decide_false, Bool.false_and, Nat.not_le.mp hlow, decide_true, Bool.not_true,
      Bool.and_false]

theorem pageEnd_spec
    {maxAddress : Nat} (hlow : pageSize - 1 ≤ maxAddress) (hhigh : maxAddress < 2 ^ 64) :
    (pageEnd maxAddress + 1) % pageSize = 0 ∧ pageEnd maxAddress ≤ maxAddress ∧
      ∀ x, x % pageSize = 0 → x ≤ maxAddress + 1 → x ≤ pageEnd maxAddress + 1 := by
  unfold pageEnd
  rw [pageSize] at *
  split
  case isTrue h =>
    have hsub : sub64 maxAddress 4096 = maxAddress - 4096 := by
      rw [sub64]
      omega
    rw [hsub]
    refine ⟨by omega, by omega, fun x hx hle => by omega⟩
  case isFalse h =>
    exact ⟨by omega, Nat.le_refl _, fun x _ hle => hle⟩

theorem alignEnd_eq
    {w k t : Nat} (hk : k < w) (hw : w ≤ 64) (ht : 0 < t) (hle : t ≤ 2 ^ 64) :
    alignEnd w (2 ^ k) (t - 1) =
      if t % 2 ^ w < 2 ^ k then 2 ^ 64 - 1 else t % 2 ^ w / 2 ^ k * 2 ^ k - 1 := by
  have hpos : 0 < 2 ^ k := Nat.two_pow_pos k
  have hadd : add64 (t - 1) 1 % 2 ^ w = t % 2 ^ w := by
    rw [add64, Nat.sub_add_cancel ht, Nat.mod_mod_of_dvd _ (Nat.pow_dvd_pow 2 hw)]
  rw [alignEnd, and_mask hk, hadd]
  have hlt : t % 2 ^ w < 2 ^ 64 :=
    Nat.lt_of_lt_of_le (Nat.mod_lt _ (Nat.two_pow_pos w)) (Nat.pow_le_pow_right (by decide) hw)
  have hround : t % 2 ^ w / 2 ^ k * 2 ^ k ≤ t % 2 ^ w := Nat.div_mul_le_self _ _
  split
  case isTrue h =>
    rw [Nat.div_eq_of_lt h, Nat.zero_mul]
    rfl
  case isFalse h =>
    have hone : 1 ≤ t % 2 ^ w / 2 ^ k := (Nat.one_le_div_iff hpos).mpr (Nat.not_lt.mp h)
    have hmul : 1 ≤ t % 2 ^ w / 2 ^ k * 2 ^ k := Nat.mul_pos hone hpos
    rw [sub64]
    omega

end Arithmetic

section Loop

variable {w maxAddress minAddress numberOfBytes alignment target : Nat} {entries : List MapEntry}

/-- The loop keeps the largest end. -/
theorem findFreeLoop_spec :
    (findFreeLoop w maxAddress minAddress numberOfBytes alignment entries target = target ∨
      ∃ e ∈ entries, suitableEnd w maxAddress minAddress numberOfBytes alignment e =
        some (findFreeLoop w maxAddress minAddress numberOfBytes alignment entries target)) ∧
    target ≤ findFreeLoop w maxAddress minAddress numberOfBytes alignment entries target ∧
    ∀ e ∈ entries, ∀ x, suitableEnd w maxAddress minAddress numberOfBytes alignment e = some x →
      x ≤ findFreeLoop w maxAddress minAddress numberOfBytes alignment entries target := by
  induction entries generalizing target with
  | nil => exact ⟨Or.inl rfl, Nat.le_refl _, fun e he => absurd he List.not_mem_nil⟩
  | cons entry rest ih =>
      rw [findFreeLoop]
      rcases hend : suitableEnd w maxAddress minAddress numberOfBytes alignment entry with
        - | descEnd
      · obtain ⟨hfrom, hge, hall⟩ := @ih target
        refine ⟨?_, hge, fun e he x hx => ?_⟩
        · rcases hfrom with hsame | ⟨e, he, hx⟩
          · exact Or.inl hsame
          · exact Or.inr ⟨e, List.mem_cons_of_mem _ he, hx⟩
        · rcases List.mem_cons.mp he with rfl | he
          · rw [hend] at hx
            cases hx
          · exact hall e he x hx
      · obtain ⟨hfrom, hge, hall⟩ := @ih (if descEnd > target then descEnd else target)
        dsimp only
        generalize findFreeLoop w maxAddress minAddress numberOfBytes alignment rest
          (if descEnd > target then descEnd else target) = last at hfrom hge hall
        have hbest : target ≤ last ∧ descEnd ≤ last := by
          split at hge
          all_goals omega
        refine ⟨?_, hbest.1, fun e he x hx => ?_⟩
        · rcases hfrom with hsame | ⟨e, he, hx⟩
          · split at hsame
            · exact Or.inr ⟨entry, List.mem_cons_self, by rw [hend, hsame]⟩
            · exact Or.inl hsame
          · exact Or.inr ⟨e, List.mem_cons_of_mem _ he, hx⟩
        · rcases List.mem_cons.mp he with rfl | he
          · rw [hend] at hx
            rw [← Option.some.inj hx]
            exact hbest.2
          · exact hall e he x hx

end Loop

section Ends

variable {p : Processor} {q : Search p} {map : PageMap p} {e : MapEntry}

/-- The pages fit into a free entry below an aligned end. -/
structure Offers (q : Search p) (e : MapEntry) (last : Nat) : Prop where
  free : e.memoryType = efiConventionalMemory
  rounded : last = q.top e / q.alignment * q.alignment
  inside : e.start + q.bytes ≤ last
  above : q.minAddress + q.bytes ≤ last

theorem width_cases : p.width = 32 ∨ p.width = 64 := by
  cases p
  case bits32 => exact Or.inl rfl
  case bits64 => exact Or.inr rfl

theorem width_le : p.width ≤ 64 := by
  rcases @width_cases p with h | h <;> omega

theorem page_dvd_alignment : pageSize ∣ q.alignment :=
  Nat.pow_dvd_pow 2 q.page_le

theorem alignment_pos : 0 < q.alignment := Nat.two_pow_pos q.shift

theorem top_le
    (he : e ∈ map.entries) :
    0 < q.top e ∧ q.top e ≤ e.endAddress + 1 ∧ q.top e ≤ 2 ^ p.width ∧ q.top e ≤ 2 ^ 64 := by
  have hbelow := map.below e he
  have hpow : 2 ^ p.width ≤ 2 ^ 64 := Nat.pow_le_pow_right (by decide) width_le
  unfold Search.top
  omega

theorem FreeRun.offers
    {base : Nat} (h : FreeRun q map base) :
    ∃ e ∈ map.entries, ∃ last, Offers q e last ∧ base + q.bytes ≤ last := by
  obtain ⟨e, he, hfree, hstart, hend⟩ := h.inside
  have hpages := h.pages
  have hlimit := h.limit
  have habove := h.above
  have hdvd : q.alignment ∣ base + q.bytes := Nat.dvd_of_mod_eq_zero h.aligned
  have hpage : (base + q.bytes) % pageSize = 0 :=
    Nat.mod_eq_zero_of_dvd (page_dvd_alignment.trans hdvd)
  have hbytes : pageSize ≤ q.bytes := Nat.le_mul_of_pos_left _ hpages
  have hsize : pageSize = 4096 := rfl
  obtain ⟨-, -, hbest⟩ := @pageEnd_spec q.maxAddress (by omega) q.max_lt
  have hlast := hbest _ hpage (by omega)
  have htop : base + q.bytes ≤ q.top e := by
    unfold Search.top
    omega
  have hround : base + q.bytes ≤ q.top e / q.alignment * q.alignment := by
    have hdiv : (base + q.bytes) / q.alignment ≤ q.top e / q.alignment :=
      Nat.div_le_div_right htop
    have hmul := Nat.mul_le_mul_right q.alignment hdiv
    rwa [Nat.div_mul_cancel hdvd] at hmul
  exact ⟨e, he, _, ⟨hfree, rfl, by omega, by omega⟩, hround⟩

theorem Offers.freeRun
    {last : Nat} (h : Offers q e last) (he : e ∈ map.entries)
    (hpages : 0 < q.numberOfPages) (hmax : pageSize - 1 ≤ q.maxAddress) :
    FreeRun q map (last - q.bytes) := by
  have hinside := h.inside
  have habove := h.above
  obtain ⟨_, hend, -⟩ := @top_le p q map e he
  obtain ⟨-, hle, -⟩ := pageEnd_spec hmax q.max_lt
  have hlast : last ≤ q.top e := by
    rw [h.rounded]
    exact Nat.div_mul_le_self _ _
  have hlimit : q.top e ≤ pageEnd q.maxAddress + 1 := by
    unfold Search.top
    omega
  have hsum : last - q.bytes + q.bytes = last := Nat.sub_add_cancel (by omega)
  constructor
  case pages => exact hpages
  case inside => exact ⟨e, he, h.free, by omega, by omega⟩
  case aligned =>
    rw [hsum, h.rounded]
    exact Nat.mul_mod_left _ _
  case above => omega
  case limit => omega

/-- The end that the code takes for an entry. -/
def codeEnd (q : Search p) (e : MapEntry) : Nat :=
  if q.top e % 2 ^ p.width < q.alignment then 2 ^ 64 - 1
  else q.top e % 2 ^ p.width / q.alignment * q.alignment - 1

theorem codeEnd_lt : codeEnd q e < 2 ^ 64 := by
  have hmod : q.top e % 2 ^ p.width < 2 ^ p.width := Nat.mod_lt _ (Nat.two_pow_pos _)
  have hpow : 2 ^ p.width ≤ 2 ^ 64 := Nat.pow_le_pow_right (by decide) width_le
  have hround : q.top e % 2 ^ p.width / q.alignment * q.alignment ≤ q.top e % 2 ^ p.width :=
    Nat.div_mul_le_self _ _
  unfold codeEnd
  split <;> omega

/-- What makes an entry suitable. -/
theorem suitableEnd_iff
    {x : Nat} (he : e ∈ map.entries) (hpages : 0 < q.numberOfPages)
    (hmax : pageSize - 1 ≤ q.maxAddress) :
    suitableEnd p.width (pageEnd q.maxAddress) q.minAddress (pagesToBytes q.numberOfPages)
        q.alignment e = some x ↔
      x = codeEnd q e ∧ e.memoryType = efiConventionalMemory ∧ e.start ≤ pageEnd q.maxAddress ∧
        q.minAddress ≤ e.endAddress ∧ ¬ (e.start = 0 ∧ x = 2 ^ 64 - 1) ∧
        e.start + q.bytes ≤ x + 1 ∧ q.minAddress + q.bytes ≤ x + 1 := by
  have hbytes : pagesToBytes q.numberOfPages = q.bytes := Nat.mod_eq_of_lt q.bytes_lt
  have hbytes_pos : pageSize ≤ q.bytes := Nat.le_mul_of_pos_left _ hpages
  have hbytes_lt : q.bytes < 2 ^ 64 := q.bytes_lt
  obtain ⟨hpage, hle, -⟩ := pageEnd_spec hmax q.max_lt
  obtain ⟨htop, -, -, htop_le⟩ := @top_le p q map e he
  have hstart := map.start_page e he
  have hordered := map.ordered e he
  have hmax_lt := q.max_lt
  have hmin_lt := q.min_lt
  have hclip : (if e.endAddress ≥ pageEnd q.maxAddress then pageEnd q.maxAddress
      else e.endAddress) = q.top e - 1 := by
    unfold Search.top
    split <;> omega
  have hend : alignEnd p.width q.alignment (q.top e - 1) = codeEnd q e :=
    alignEnd_eq q.shift_lt width_le htop htop_le
  have hlt := @codeEnd_lt p q e
  have hsize : pageSize = 4096 := rfl
  rw [hsize] at hpage hstart
  rw [suitableEnd, hclip, hend, hbytes]
  dsimp only
  generalize codeEnd q e = d at hlt ⊢
  unfold add64 sub64
  constructor
  · intro h
    split at h
    case isTrue => cases h
    case isFalse hfree =>
      split at h
      case isTrue => cases h
      case isFalse hconsidered =>
        split at h
        case isTrue => cases h
        case isFalse hordered =>
          split at h
          case isTrue => cases h
          case isFalse hroom =>
            split at h
            case isTrue => cases h
            case isFalse habove =>
              obtain rfl := Option.some.inj h
              exact ⟨rfl, not_not.mp hfree, by omega, by omega, by omega, by omega, by omega⟩
  · rintro ⟨rfl, hfree, hlimit, hlow, hzero, hinside, habove⟩
    rw [if_neg (not_not.mpr hfree), if_neg (by omega), if_neg (by omega), if_neg (by omega),
      if_neg (by omega)]

theorem codeEnd_eq
    (he : e ∈ map.entries) (hround : ¬ q.top e % 2 ^ p.width < q.alignment) :
    codeEnd q e = q.top e / q.alignment * q.alignment - 1 ∧ q.alignment ≤ q.top e ∧
      q.top e < 2 ^ p.width := by
  obtain ⟨-, -, hle, -⟩ := @top_le p q map e he
  have hlt : q.top e < 2 ^ p.width := by
    rcases Nat.lt_or_eq_of_le hle with hlt | heq
    · exact hlt
    · rw [heq, Nat.mod_self] at hround
      exact absurd alignment_pos hround
  rw [Nat.mod_eq_of_lt hlt] at hround
  rw [codeEnd, Nat.mod_eq_of_lt hlt, if_neg hround]
  exact ⟨rfl, Nat.not_lt.mp hround, hlt⟩

theorem alignment_dvd : 2 ^ p.width / q.alignment * q.alignment = 2 ^ p.width :=
  Nat.div_mul_cancel (Nat.pow_dvd_pow 2 (Nat.le_of_lt q.shift_lt))

theorem offers_of_suitable
    {x : Nat} (he : e ∈ map.entries) (hpages : 0 < q.numberOfPages)
    (hmax : pageSize - 1 ≤ q.maxAddress)
    (h : suitableEnd p.width (pageEnd q.maxAddress) q.minAddress (pagesToBytes q.numberOfPages)
      q.alignment e = some x) :
    Offers q e (x + 1) ∨ Overshoots q e ∧ x = 2 ^ 64 - 1 := by
  obtain ⟨rfl, hfree, hlimit, hlow, hzero, hinside, habove⟩ :=
    (suitableEnd_iff he hpages hmax).mp h
  obtain ⟨-, -, hle, hle'⟩ := @top_le p q map e he
  by_cases hround : q.top e % 2 ^ p.width < q.alignment
  · have hcode : codeEnd q e = 2 ^ 64 - 1 := if_pos hround
    rw [hcode] at hzero hinside habove ⊢
    rcases Nat.lt_or_eq_of_le hle' with hbelow | htop
    · exact Or.inr ⟨⟨hfree, by omega, hlimit, hlow, hround, hbelow, hinside, habove⟩, rfl⟩
    · -- the whole end of the 64-bit address space
      have hwidth : p.width = 64 := by
        rcases @width_cases p with h | h
        · rw [h, htop] at hle
          exact absurd hle (by decide)
        · exact h
      have hall := @alignment_dvd p q
      rw [hwidth] at hall
      refine Or.inl ⟨hfree, ?_, hinside, habove⟩
      rw [htop, hall]
      rfl
  · obtain ⟨hcode, hge, -⟩ := codeEnd_eq he hround
    have hpos : 0 < q.top e / q.alignment * q.alignment :=
      Nat.mul_pos (Nat.div_pos hge alignment_pos) alignment_pos
    refine Or.inl ⟨hfree, ?_, hinside, habove⟩
    rw [hcode, Nat.sub_add_cancel hpos]

theorem Overshoots.suitable
    (h : Overshoots q e) (he : e ∈ map.entries) (hpages : 0 < q.numberOfPages)
    (hmax : pageSize - 1 ≤ q.maxAddress) :
    suitableEnd p.width (pageEnd q.maxAddress) q.minAddress (pagesToBytes q.numberOfPages)
      q.alignment e = some (2 ^ 64 - 1) := by
  have hstart := h.start
  exact (suitableEnd_iff he hpages hmax).mpr ⟨(if_pos h.rounded).symm, h.free, h.limit, h.low,
    fun hzero => by omega, h.bytes, h.above⟩

/-- An entry that offers the pages above address zero is suitable, unless it is an exception. -/
theorem Offers.suitable
    {last : Nat} (h : Offers q e last) (he : e ∈ map.entries) (hpages : 0 < q.numberOfPages)
    (hmax : pageSize - 1 ≤ q.maxAddress) (hbase : q.bytes < last) :
    suitableEnd p.width (pageEnd q.maxAddress) q.minAddress (pagesToBytes q.numberOfPages)
        q.alignment e = some (last - 1) ∨ CoversAll q e ∨ Overshoots q e := by
  have hinside := h.inside
  have habove := h.above
  have hrounded := h.rounded
  have hbytes : 0 < q.bytes := Nat.mul_pos hpages (by decide)
  obtain ⟨-, hend, hle, hle'⟩ := @top_le p q map e he
  have hlast : last ≤ q.top e := by
    rw [hrounded]
    exact Nat.div_mul_le_self _ _
  have hlimit : q.top e ≤ pageEnd q.maxAddress + 1 := by
    unfold Search.top
    omega
  by_cases hround : q.top e % 2 ^ p.width < q.alignment
  · -- only the end of the processor's addresses is rounded down to zero
    have hge : q.alignment ≤ q.top e := by
      by_contra hlt
      rw [Nat.div_eq_of_lt (Nat.not_le.mp hlt), Nat.zero_mul] at hrounded
      omega
    have htop : q.top e = 2 ^ p.width := by
      by_contra hne
      rw [Nat.mod_eq_of_lt (Nat.lt_of_le_of_ne hle hne)] at hround
      omega
    rw [htop, alignment_dvd] at hrounded
    by_cases hzero : e.start = 0
    · exact Or.inr (Or.inl ⟨h.free, hzero, htop, by omega, by omega⟩)
    · rcases Nat.lt_or_eq_of_le hle' with hbelow | hall
      · exact Or.inr (Or.inr ⟨h.free, by omega, by omega, by omega, hround, hbelow, by omega,
          by omega⟩)
      · refine Or.inl ((suitableEnd_iff he hpages hmax).mpr ⟨?_, h.free, by omega, by omega,
          by omega, by omega, by omega⟩)
        rw [codeEnd, if_pos hround]
        omega
  · obtain ⟨hcode, -, hlt⟩ := codeEnd_eq he hround
    have hpow : 2 ^ p.width ≤ 2 ^ 64 := Nat.pow_le_pow_right (by decide) width_le
    refine Or.inl ((suitableEnd_iff he hpages hmax).mpr ⟨?_, h.free, by omega, by omega,
      by omega, by omega, by omega⟩)
    rw [hcode, hrounded]

end Ends

section Result

variable {p : Processor} {q : Search p} {map : PageMap p} {e : MapEntry}

/-- The end that the loop finds. -/
def Search.target (q : Search p) (map : PageMap p) : Nat :=
  findFreeLoop p.width (pageEnd q.maxAddress) q.minAddress (pagesToBytes q.numberOfPages)
    q.alignment map.entries 0

theorem Search.bytes_page (q : Search p) (hpages : 0 < q.numberOfPages) :
    pagesToBytes q.numberOfPages = q.bytes ∧ 4096 ≤ q.bytes ∧ q.bytes < 2 ^ 64 ∧
      q.bytes % 4096 = 0 :=
  ⟨Nat.mod_eq_of_lt q.bytes_lt, Nat.le_mul_of_pos_left _ hpages, q.bytes_lt,
    Nat.mul_mod_left _ _⟩

theorem run_eq_zero
    (hpages : 0 < q.numberOfPages) (hmax : pageSize - 1 ≤ q.maxAddress)
    (hnone : q.target map = 0) :
    q.run map = 0 := by
  obtain ⟨hbytes, hbytes_pos, hbytes_lt, hdvd⟩ := q.bytes_page hpages
  have hsize : pageSize = 4096 := rfl
  rw [Search.target] at hnone
  have hbits : sub64 0 (sub64 q.bytes 1) % pageSize ≠ 0 := by
    rw [hsize, sub64, sub64]
    omega
  rw [Search.run, coreFindFreePagesI, if_neg (by omega)]
  dsimp only
  rw [hnone, hbytes, if_pos hbits]

theorem run_eq
    (hpages : 0 < q.numberOfPages) (hmax : pageSize - 1 ≤ q.maxAddress)
    (hpage : (q.target map + 1) % pageSize = 0) (hle : q.bytes ≤ q.target map + 1)
    (hlt : q.target map < 2 ^ 64) :
    q.run map = q.target map + 1 - q.bytes := by
  obtain ⟨hbytes, hbytes_pos, hbytes_lt, hdvd⟩ := q.bytes_page hpages
  have hsize : pageSize = 4096 := rfl
  rw [hsize] at hpage
  have hbase : sub64 (q.target map) (sub64 q.bytes 1) = q.target map + 1 - q.bytes := by
    rw [sub64, sub64]
    omega
  have hzero : ¬ (q.target map + 1 - q.bytes) % pageSize ≠ 0 := by
    rw [hsize]
    omega
  rw [Search.run, coreFindFreePagesI, if_neg (by omega)]
  dsimp only
  rw [← Search.target.eq_def, hbytes, hbase, if_neg hzero]

theorem highestBase_trivial
    (h : ¬ (0 < q.numberOfPages ∧ pageSize - 1 ≤ q.maxAddress)) :
    HighestBase q map (q.run map) := by
  have hrun : q.run map = 0 := by
    rw [Search.run, coreFindFreePagesI, if_pos (by omega)]
  rw [hrun]
  refine ⟨fun hne => absurd rfl hne, fun _ base hbase => ?_⟩
  have hpages := hbase.pages
  have hlimit := hbase.limit
  have hbytes : pageSize ≤ q.bytes := Nat.le_mul_of_pos_left _ hpages
  omega

theorem suitable_bounds
    {x : Nat} (he : e ∈ map.entries) (hpages : 0 < q.numberOfPages)
    (hmax : pageSize - 1 ≤ q.maxAddress)
    (h : suitableEnd p.width (pageEnd q.maxAddress) q.minAddress (pagesToBytes q.numberOfPages)
      q.alignment e = some x) :
    (x + 1) % pageSize = 0 ∧ q.bytes ≤ x + 1 ∧ x < 2 ^ 64 := by
  have hcode := ((suitableEnd_iff he hpages hmax).mp h).1
  have hlt := @codeEnd_lt p q e
  rcases offers_of_suitable he hpages hmax h with hoffers | ⟨hover, rfl⟩
  · refine ⟨?_, Nat.le_of_add_left_le hoffers.inside, by omega⟩
    rw [hoffers.rounded]
    exact Nat.mod_eq_zero_of_dvd (page_dvd_alignment.trans (Nat.dvd_mul_left _ _))
  · exact ⟨by decide, by have := hover.bytes; omega, by omega⟩

theorem run_of_overshoots
    (he : e ∈ map.entries) (hover : Overshoots q e)
    (hpages : 0 < q.numberOfPages) (hmax : pageSize - 1 ≤ q.maxAddress) :
    q.run map = 2 ^ 64 - q.bytes := by
  obtain ⟨hfrom, -, hall⟩ := @findFreeLoop_spec p.width (pageEnd q.maxAddress) q.minAddress
    (pagesToBytes q.numberOfPages) q.alignment 0 map.entries
  have hge := hall e he _ (hover.suitable he hpages hmax)
  rw [← Search.target.eq_def] at hfrom hge
  have htarget : q.target map = 2 ^ 64 - 1 := by
    rcases hfrom with hzero | ⟨e', he', hx⟩
    · omega
    · have hlt := (suitable_bounds he' hpages hmax hx).2.2
      omega
  have hbytes := hover.bytes
  rw [run_eq hpages hmax (by rw [htarget]; decide) (by omega) (by omega), htarget,
    Nat.sub_add_cancel (by decide)]

/-- Where no entry is an exception, the result is the highest base. -/
theorem highestBase_of_regular
    (hpages : 0 < q.numberOfPages) (hmax : pageSize - 1 ≤ q.maxAddress)
    (hall : ∀ e ∈ map.entries, ¬ CoversAll q e)
    (hover : ∀ e ∈ map.entries, ¬ Overshoots q e) :
    HighestBase q map (q.run map) := by
  obtain ⟨hfrom, -, hbest⟩ := @findFreeLoop_spec p.width (pageEnd q.maxAddress) q.minAddress
    (pagesToBytes q.numberOfPages) q.alignment 0 map.entries
  rw [← Search.target.eq_def] at hfrom hbest
  have hbytes_pos : 0 < q.bytes := Nat.mul_pos hpages (by decide)
  -- every base above zero is offered by a suitable entry
  have hcover : ∀ base, FreeRun q map base → base ≠ 0 →
      base + q.bytes ≤ q.target map + 1 := by
    intro base hbase hne
    obtain ⟨e, he, last, hoffers, hle⟩ := hbase.offers
    rcases hoffers.suitable he hpages hmax (by omega) with hs | hc | ho
    · have h := hbest e he _ hs
      omega
    · exact absurd hc (hall e he)
    · exact absurd ho (hover e he)
  rcases hfrom with hzero | ⟨e, he, hx⟩
  · rw [run_eq_zero hpages hmax hzero]
    refine ⟨fun hne => absurd rfl hne, fun _ base hbase => ?_⟩
    by_contra hne
    have h := hcover base hbase hne
    omega
  · obtain ⟨hpage, hle, hlt⟩ := suitable_bounds he hpages hmax hx
    rw [run_eq hpages hmax hpage hle hlt]
    rcases offers_of_suitable he hpages hmax hx with hoffers | ⟨ho, -⟩
    · have hrun := hoffers.freeRun he hpages hmax
      refine ⟨fun _ => ⟨hrun, fun base hbase => ?_⟩, fun hresult base hbase => ?_⟩
      · by_cases hne : base = 0
        · omega
        · have h := hcover base hbase hne
          omega
      · by_contra hne
        have h := hcover base hbase hne
        omega
    · exact absurd ho (hover e he)

theorem ReachesTop.offers
    (h : ReachesTop q e) (habove : q.minAddress + q.bytes ≤ 2 ^ 64) :
    Offers q e (2 ^ 64) := by
  refine ⟨h.free, ?_, h.bytes, habove⟩
  have hshift : q.shift ≤ 64 := Nat.le_trans (Nat.le_of_lt q.shift_lt) width_le
  have hdvd : q.alignment ∣ 2 ^ 64 := Nat.pow_dvd_pow 2 hshift
  rw [h.top, Nat.div_mul_cancel hdvd]

theorem CoversAll.run_eq
    (h : CoversAll q e) (he : e ∈ map.entries)
    (hpages : 0 < q.numberOfPages) (hmax : pageSize - 1 ≤ q.maxAddress) :
    q.run map = 0 := by
  obtain ⟨hfrom, -, -⟩ := @findFreeLoop_spec p.width (pageEnd q.maxAddress) q.minAddress
    (pagesToBytes q.numberOfPages) q.alignment 0 map.entries
  rw [← Search.target.eq_def] at hfrom
  rcases hfrom with hzero | ⟨e', he', hx⟩
  · exact run_eq_zero hpages hmax hzero
  · have hsame : e' = e := by
      by_contra hne
      have hstart := h.start
      have hend := (@top_le p q map e he).2.1
      rw [h.top] at hend
      have hlt := map.below e' he'
      have hordered := map.ordered e' he'
      have hsymm : Std.Symm fun d e : MapEntry =>
          d.endAddress < e.start ∨ e.endAddress < d.start := ⟨fun _ _ hd => hd.symm⟩
      have hdisjoint := map.disjoint.forall he' he hne
      omega
    subst hsame
    obtain ⟨hcode, -, -, -, hzero, -⟩ := (suitableEnd_iff he hpages hmax).mp hx
    have hround : q.top e' % 2 ^ p.width < q.alignment := by
      rw [h.top, Nat.mod_self]
      exact alignment_pos
    rw [codeEnd, if_pos hround] at hcode
    exact absurd ⟨h.start, hcode⟩ hzero

/-- The search finds the highest base exactly where no entry spoils it. -/
theorem coreFindFreePagesI_highest_iff
    (q : Search p) (map : PageMap p) :
    HighestBase q map (q.run map) ↔ Unspoiled q map := by
  have hbytes_lt : q.bytes < 2 ^ 64 := q.bytes_lt
  have hpow : 2 ^ p.width ≤ 2 ^ 64 := Nat.pow_le_pow_right (by decide) width_le
  constructor
  · intro hhighest hpages hmax
    refine ⟨fun e he hcovers => ?_, fun ⟨e, he, hover⟩ => ?_⟩
    · -- the pages have a base, but the result is zero
      have hoffers : Offers q e (2 ^ p.width) := by
        have habove := hcovers.above
        have hbytes := hcovers.bytes
        have hstart := hcovers.start
        refine ⟨hcovers.free, ?_, by omega, by omega⟩
        rw [hcovers.top, alignment_dvd]
      have hbase := hhighest.2 (hcovers.run_eq he hpages hmax) _
        (hoffers.freeRun he hpages hmax)
      have hbytes := hcovers.bytes
      omega
    · -- the result can only be right in an entry that reaches the top
      have hresult := run_of_overshoots he hover hpages hmax
      have hbase := (hhighest.1 (by rw [hresult]; omega)).1
      rw [hresult] at hbase
      obtain ⟨e', he', hfree, hstart, hend⟩ := hbase.inside
      have hlimit := hbase.limit
      have hbelow := map.below e' he'
      have hlast := (pageEnd_spec hmax q.max_lt).2.2 (2 ^ 64) (by decide) (by omega)
      refine ⟨e', he', hfree, ?_, by omega⟩
      unfold Search.top
      omega
  · intro hunspoiled
    by_cases hsearch : 0 < q.numberOfPages ∧ pageSize - 1 ≤ q.maxAddress
    · obtain ⟨hpages, hmax⟩ := hsearch
      obtain ⟨hall, hover⟩ := hunspoiled hpages hmax
      by_cases hexists : ∃ e ∈ map.entries, Overshoots q e
      · obtain ⟨e', he', htop⟩ := hover hexists
        obtain ⟨e, he, hover⟩ := hexists
        have hrun := (htop.offers hover.above).freeRun he' hpages hmax
        rw [run_of_overshoots he hover hpages hmax]
        refine ⟨fun _ => ⟨hrun, fun base hbase => ?_⟩, fun hzero => by omega⟩
        obtain ⟨d, hd, -, -, hend⟩ := hbase.inside
        have hbelow := map.below d hd
        omega
      · exact highestBase_of_regular hpages hmax hall
          fun e he hov => hexists ⟨e, he, hov⟩
    · exact highestBase_trivial hsearch

end Result

section Sample

/-- The second page is free. -/
def secondPage : PageMap .bits64 where
  entries := [⟨efiConventionalMemory, 0x1000, 0x1fff, 0xf⟩]
  start_page := by decide
  end_page := by decide
  ordered := by decide
  below := by decide
  disjoint := List.pairwise_singleton _ _

/-- A page with its end at a multiple of 64 KB. -/
def searchAligned : Search .bits64 where
  maxAddress := 2 ^ 64 - 1
  minAddress := 0
  numberOfPages := 1
  shift := 16
  max_lt := by decide
  min_lt := by decide
  bytes_lt := by decide
  page_le := by decide
  shift_lt := by decide

/-- The result is a page at the top of the address space, where there is no memory. -/
theorem coreFindFreePagesI_outside :
    searchAligned.run secondPage = 0xfffffffffffff000 ∧
      ¬ HighestBase searchAligned secondPage (searchAligned.run secondPage) := by
  have hrun : searchAligned.run secondPage = 0xfffffffffffff000 := by decide +kernel
  refine ⟨hrun, fun h => ?_⟩
  rw [hrun] at h
  obtain ⟨e, he, -, -, hend⟩ := (h.1 (by decide)).1.inside
  obtain rfl := List.mem_singleton.mp he
  revert hend
  decide

end Sample

end DxeMem
end Udk
