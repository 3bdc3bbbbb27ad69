import Udk.Gcd.Services
import Udk.Runs
import Udk.Tiling

/-!
# The GCD maps stay partitions

The search returns a window of the map, the conversion cuts its ends and edits what lies
between, and the cleanup joins neighbours that agree.  Seen from the addresses, a call
edits exactly its range, unless the end of the range wraps at 64 bits into the entry of
its base address.
-/

namespace Udk
namespace Gcd

open Tiling List

instance : Cell GcdMapEntry GcdRegion where
  first entry := entry.baseAddress.toNat
  last entry := entry.endAddress.toNat
  label entry := entry.toGcdRegion

open Cell

@[simp] theorem first_eq (entry : GcdMapEntry) : first entry = entry.baseAddress.toNat := rfl

@[simp] theorem last_eq (entry : GcdMapEntry) : last entry = entry.endAddress.toNat := rfl

@[simp] theorem label_eq (entry : GcdMapEntry) : label entry = entry.toGcdRegion := rfl

theorem GcdMapEntry.contains_iff
    (entry : GcdMapEntry) (address : UInt64) :
    entry.contains address = true ↔
      first entry ≤ address.toNat ∧ address.toNat ≤ last entry := by
  simp [GcdMapEntry.contains, UInt64.le_iff_toNat_le]

theorem sameRegion_iff
    (entry adjacent : GcdMapEntry) :
    sameRegion entry adjacent = true ↔ label entry = label adjacent := by
  cases entry with
  | mk region _ _ =>
    cases adjacent with
    | mk region' _ _ =>
      cases region
      cases region'
      simp [sameRegion, and_assoc]

section Search

variable {baseAddress length : UInt64} {split : GcdSplit} {check : GcdRegion → Status}

theorem length_pos
    (hlength : length ≠ 0) :
    0 < length.toNat :=
  Nat.pos_of_ne_zero fun h0 => hlength (UInt64.toNat_inj.mp h0)

theorem rangeEnd_toNat
    (hlength : length ≠ 0)
    (hwrap : baseAddress.toNat + length.toNat ≤ 2 ^ 64) :
    (baseAddress + length - 1).toNat = baseAddress.toNat + length.toNat - 1 := by
  have hpos := length_pos hlength
  have hbase := baseAddress.toNat_lt
  have hlen := length.toNat_lt
  have hone : (1 : UInt64).toNat = 1 := rfl
  rw [UInt64.toNat_sub, UInt64.toNat_add, hone]
  omega

/-- The links that the search returns: the first entry holds the base address, the last
one the end of the range. -/
structure IsWindow (baseAddress length : UInt64) (map : GcdMap) (split : GcdSplit) :
    Prop where
  map_eq : map = split.before ++ split.window ++ split.after
  first_contains : ∃ entry rest, split.window = entry :: rest ∧
    entry.contains baseAddress = true
  last_contains : ∃ front entry, split.window = front ++ [entry] ∧
    entry.contains (baseAddress + length - 1) = true

theorem searchGcdMapLoop_isWindow
    {before rest : GcdMap} {start : Option (GcdMap × GcdMap)}
    (hstart : ∀ first window, start = some (first, window) → before = first ++ window ∧
      ∃ entry tail, window = entry :: tail ∧ entry.contains baseAddress = true)
    (h : searchGcdMapLoop baseAddress length before start rest = some split) :
    IsWindow baseAddress length (before ++ rest) split := by
  induction rest generalizing before start with
  | nil => simp [searchGcdMapLoop] at h
  | cons entry rest ih =>
      have hassoc : before ++ entry :: rest = before ++ [entry] ++ rest := by simp
      -- the window with this entry at its end
      have hnext : ∀ first window,
          (if entry.contains baseAddress then some (before, []) else start) =
            some (first, window) →
          before ++ [entry] = first ++ (window ++ [entry]) ∧
            ∃ head tail, window ++ [entry] = head :: tail ∧ head.contains baseAddress = true := by
        intro first window heq
        split at heq
        case isTrue hbase =>
          simp only [Option.some.injEq, Prod.mk.injEq] at heq
          obtain ⟨rfl, rfl⟩ := heq
          exact ⟨by simp, entry, [], rfl, hbase⟩
        case isFalse =>
          obtain ⟨hbefore, head, tail, hwindow, hhead⟩ := hstart first window heq
          refine ⟨by rw [hbefore, append_assoc], head, tail ++ [entry], ?_, hhead⟩
          rw [hwindow, cons_append]
      rw [searchGcdMapLoop] at h
      cases hs : (if entry.contains baseAddress then some (before, []) else start) with
      | none =>
          simp only [hs] at h
          rw [hassoc]
          exact ih (fun _ _ hnone => by simp at hnone) h
      | some pair =>
          obtain ⟨first, window⟩ := pair
          obtain ⟨hbefore, head, tail, hwindow, hhead⟩ := hnext first window hs
          simp only [hs] at h
          split at h
          case isTrue hend =>
            rw [Option.some_inj] at h
            subst h
            refine ⟨?_, ⟨head, tail, hwindow, hhead⟩, ⟨window, entry, rfl, hend⟩⟩
            rw [hassoc, hbefore]
          case isFalse =>
            rw [hassoc]
            refine ih (fun first' window' heq => ?_) h
            simp only [Option.some.injEq, Prod.mk.injEq] at heq
            obtain ⟨rfl, rfl⟩ := heq
            exact ⟨hbefore, head, tail, hwindow, hhead⟩

theorem coreSearchGcdMapEntry_isWindow
    {map : GcdMap}
    (h : coreSearchGcdMapEntry baseAddress length map = some split) :
    IsWindow baseAddress length map split :=
  searchGcdMapLoop_isWindow (fun _ _ hnone => by simp at hnone) h

theorem checkWindow_success
    {window : GcdMap}
    (h : checkWindow check window = .success) :
    ∀ entry ∈ window, check entry.toGcdRegion = .success := by
  induction window with
  | nil => exact fun _ hentry => absurd hentry not_mem_nil
  | cons entry rest ih =>
      rw [checkWindow] at h
      cases hentry : check entry.toGcdRegion with
      | success =>
          rw [hentry] at h
          intro e he
          rcases mem_cons.mp he with rfl | he
          · exact hentry
          · exact ih h e he
      | _ => simp [hentry] at h

/-- The end of the range does not wrap, or it wraps outside the entries that hold the
base address and pass the check. -/
def InRange (check : GcdRegion → Status) (map : GcdMap) (baseAddress length : UInt64) : Prop :=
  baseAddress.toNat + length.toNat ≤ 2 ^ 64 ∨
    ∀ entry ∈ map, entry.contains baseAddress = true →
      entry.contains (baseAddress + length - 1) = true →
      check entry.toGcdRegion ≠ .success

/-- A window that passes the check covers a range that does not wrap. -/
theorem IsWindow.noWrap
    {map : GcdMap} {hi : Nat}
    (h : IsWindow baseAddress length map split)
    (hpart : Partition 0 map hi)
    (hlength : length ≠ 0)
    (hrange : InRange check map baseAddress length)
    (hcheck : ∀ entry ∈ split.window, check entry.toGcdRegion = .success) :
    baseAddress.toNat + length.toNat ≤ 2 ^ 64 := by
  rcases hrange with hle | hnone
  · exact hle
  · by_contra hwrap
    obtain ⟨entry, rest, hwindow, hbase⟩ := h.first_contains
    obtain ⟨front, final, hwindow', hend⟩ := h.last_contains
    have hpos := length_pos hlength
    have hendNat : (baseAddress + length - 1).toNat < baseAddress.toNat := by
      have h1 := baseAddress.toNat_lt
      have h2 := length.toNat_lt
      rw [UInt64.toNat_sub, UInt64.toNat_add]
      have hone : (1 : UInt64).toNat = 1 := rfl
      rw [hone]
      omega
    rw [GcdMapEntry.contains_iff] at hbase hend
    cases front with
    | nil =>
        have heq : entry = final := by
          rw [hwindow, nil_append, List.cons.injEq] at hwindow'
          exact hwindow'.1
        subst heq
        have hmem : entry ∈ split.window := by rw [hwindow]; exact mem_cons_self
        refine hnone entry ?_ ?_ ?_ (hcheck entry hmem)
        · rw [h.map_eq]
          simp [hmem]
        · rw [GcdMapEntry.contains_iff]
          exact hbase
        · rw [GcdMapEntry.contains_iff]
          exact hend
    | cons head front =>
        have heq : entry = head := by
          rw [hwindow, cons_append, List.cons.injEq] at hwindow'
          exact hwindow'.1
        subst heq
        have htiles := hpart.tiles
        rw [h.map_eq, hwindow', tiles_append] at htiles
        obtain ⟨mid, htiles, -⟩ := htiles
        obtain ⟨lo, -, hw⟩ := tiles_append.mp htiles
        rw [cons_append] at hw
        obtain ⟨-, -, -, hrest⟩ := hw
        have hfinal := hrest.mem_bounds (mem_append_right front (mem_singleton_self final))
        omega

end Search

section Convert

variable {baseAddress length : UInt64}

/-- The range of a call as seen from the addresses. -/
def InBlock (baseAddress length : UInt64) (x : Nat) : Prop :=
  baseAddress.toNat ≤ x ∧ x < baseAddress.toNat + length.toNat

instance (x : Nat) : Decidable (InBlock baseAddress length x) :=
  inferInstanceAs (Decidable (_ ∧ _))

/-- What an edit of a range makes of the labels. -/
def editBlock (edit : GcdRegion → GcdRegion) (baseAddress length : UInt64)
    (f : Nat → Option GcdRegion) (x : Nat) : Option GcdRegion :=
  if InBlock baseAddress length x then (f x).map edit else f x

/-- What an insertion leaves: pads on the sides that the range does not cover. -/
structure Inserted (baseAddress length : UInt64) (entry : GcdMapEntry) (bottom : GcdMap)
    (middle : GcdMapEntry) (top : GcdMap) : Prop where
  label_middle : label middle = label entry
  first_middle : first middle = max baseAddress.toNat (first entry)
  last_middle : last middle = min (baseAddress.toNat + length.toNat - 1) (last entry)
  bottom_eq : bottom = [] ∧ baseAddress.toNat ≤ first entry ∨
    ∃ pad, bottom = [pad] ∧ label pad = label entry ∧ first pad = first entry ∧
      last pad + 1 = baseAddress.toNat ∧ first entry < baseAddress.toNat
  top_eq : top = [] ∧ last entry < baseAddress.toNat + length.toNat ∨
    ∃ pad, top = [pad] ∧ label pad = label entry ∧
      first pad = baseAddress.toNat + length.toNat ∧ last pad = last entry ∧
      baseAddress.toNat + length.toNat ≤ last entry

theorem coreInsertGcdMapEntry_inserted
    (entry : GcdMapEntry)
    (hlength : length ≠ 0)
    (hwrap : baseAddress.toNat + length.toNat ≤ 2 ^ 64) :
    Inserted baseAddress length entry (coreInsertGcdMapEntry entry baseAddress length).1
      (coreInsertGcdMapEntry entry baseAddress length).2.1
      (coreInsertGcdMapEntry entry baseAddress length).2.2 := by
  have hpos := length_pos hlength
  have hone : (1 : UInt64).toNat = 1 := rfl
  have hbase := baseAddress.toNat_lt
  have hlen := length.toNat_lt
  have hentry := entry.endAddress.toNat_lt
  have hend := rangeEnd_toNat hlength hwrap
  have hbefore : 0 < baseAddress.toNat → (baseAddress - 1).toNat = baseAddress.toNat - 1 := by
    intro h
    rw [UInt64.toNat_sub, hone]
    omega
  have hsum : baseAddress.toNat + length.toNat < 2 ^ 64 →
      (baseAddress + length).toNat = baseAddress.toNat + length.toNat := by
    intro h
    rw [UInt64.toNat_add, Nat.mod_eq_of_lt h]
  have hbottom : baseAddress > entry.baseAddress ↔
      entry.baseAddress.toNat < baseAddress.toNat := UInt64.lt_iff_toNat_lt
  have htop : baseAddress + length - 1 < entry.endAddress ↔
      baseAddress.toNat + length.toNat - 1 < entry.endAddress.toNat := by
    rw [UInt64.lt_iff_toNat_lt, hend]
  by_cases hlt : entry.baseAddress.toNat < baseAddress.toNat
  · have hbefore' := hbefore (by omega)
    by_cases hlt' : baseAddress.toNat + length.toNat - 1 < entry.endAddress.toNat
    · have hsum' := hsum (by omega)
      simp only [coreInsertGcdMapEntry, if_pos (hbottom.mpr hlt), if_pos (htop.mpr hlt')]
      refine ⟨rfl, ?_, ?_, Or.inr ⟨_, rfl, rfl, rfl, ?_, hlt⟩, Or.inr ⟨_, rfl, rfl, ?_, rfl, ?_⟩⟩
      all_goals
        simp only [first_eq, last_eq]
        omega
    · simp only [coreInsertGcdMapEntry, if_pos (hbottom.mpr hlt), if_neg (mt htop.mp hlt')]
      refine ⟨rfl, ?_, ?_, Or.inr ⟨_, rfl, rfl, rfl, ?_, hlt⟩, Or.inl ⟨rfl, ?_⟩⟩
      all_goals
        simp only [first_eq, last_eq]
        omega
  · by_cases hlt' : baseAddress.toNat + length.toNat - 1 < entry.endAddress.toNat
    · have hsum' := hsum (by omega)
      simp only [coreInsertGcdMapEntry, if_neg (mt hbottom.mp hlt), if_pos (htop.mpr hlt')]
      refine ⟨rfl, ?_, ?_, Or.inl ⟨rfl, not_lt.mp hlt⟩, Or.inr ⟨_, rfl, rfl, ?_, rfl, ?_⟩⟩
      all_goals
        simp only [first_eq, last_eq]
        omega
    · simp only [coreInsertGcdMapEntry, if_neg (mt hbottom.mp hlt), if_neg (mt htop.mp hlt')]
      refine ⟨rfl, ?_, ?_, Or.inl ⟨rfl, not_lt.mp hlt⟩, Or.inl ⟨rfl, ?_⟩⟩
      all_goals
        simp only [first_eq, last_eq]
        omega

variable {f : Nat → Option GcdRegion} {edit : GcdRegion → GcdRegion} {lo hi : Nat}

/-- The entry that was cut and edited, with its pads, shows the edited function. -/
theorem Inserted.tiles
    {entry middle : GcdMapEntry} {bottom top : GcdMap}
    (h : Inserted baseAddress length entry bottom middle top)
    (hshow : ∀ x, first entry ≤ x → x ≤ last entry → f x = some (label entry))
    (hbase : baseAddress.toNat ≤ last entry)
    (hend : first entry < baseAddress.toNat + length.toNat)
    (hlength : 0 < length.toNat)
    (hle : first entry ≤ last entry) :
    Tiles (editBlock edit baseAddress length f) (first entry)
      (bottom ++ { middle with toGcdRegion := edit middle.toGcdRegion } :: top)
      (last entry + 1) := by
  have hfirst := h.first_middle
  have hlast := h.last_middle
  have hlabel : middle.toGcdRegion = entry.toGcdRegion := h.label_middle
  -- what the function shows inside the range and outside of it
  have hin : ∀ x, first middle ≤ x → x ≤ last middle →
      editBlock edit baseAddress length f x = some (edit middle.toGcdRegion) := by
    intro x hx hx'
    have hblock : InBlock baseAddress length x := ⟨by omega, by omega⟩
    rw [editBlock, if_pos hblock, hshow x (by omega) (by omega), hlabel]
    rfl
  have hout : ∀ x, first entry ≤ x → x ≤ last entry → ¬InBlock baseAddress length x →
      editBlock edit baseAddress length f x = some (label entry) := by
    intro x hx hx' hblock
    rw [editBlock, if_neg hblock, hshow x hx hx']
  have htop : Tiles (editBlock edit baseAddress length f) (last middle + 1) top
      (last entry + 1) := by
    rcases h.top_eq with ⟨rfl, hcover⟩ | ⟨pad, rfl, hpad, hpadFirst, hpadLast, hcover⟩
    · rw [tiles_nil]
      omega
    · refine tiles_singleton.mpr ⟨by omega, by omega, fun x hx hx' => ?_, by omega⟩
      rw [hpad]
      refine hout x (by omega) (by omega) fun hblock => ?_
      have := hblock.2
      omega
  have hmiddle : Tiles (editBlock edit baseAddress length f) (first middle)
      ({ middle with toGcdRegion := edit middle.toGcdRegion } :: top) (last entry + 1) :=
    ⟨rfl, show first middle ≤ last middle by omega, hin, htop⟩
  rcases h.bottom_eq with ⟨rfl, hcover⟩ | ⟨pad, rfl, hpad, hpadFirst, hpadLast, hcover⟩
  · have hstart : first middle = first entry := by omega
    rw [← hstart]
    exact hmiddle
  · refine ⟨hpadFirst, by omega, fun x hx hx' => ?_, ?_⟩
    · rw [hpad]
      refine hout x (by omega) (by omega) fun hblock => ?_
      have := hblock.1
      omega
    · have hnext : last pad + 1 = first middle := by omega
      rw [hnext]
      exact hmiddle

/-- The converted window and its pads show the edited function. -/
theorem convertWindow_tiles
    {window : GcdMap}
    (hlength : length ≠ 0)
    (hwrap : baseAddress.toNat + length.toNat ≤ 2 ^ 64)
    (htiles : Tiles f lo window hi)
    (hfirst : ∀ entry rest, window = entry :: rest → baseAddress.toNat ≤ last entry)
    (hlast : ∃ front entry, window = front ++ [entry] ∧
      first entry < baseAddress.toNat + length.toNat) :
    Tiles (editBlock edit baseAddress length f) lo
      ((convertWindow edit baseAddress length window).before ++
        (convertWindow edit baseAddress length window).window ++
        (convertWindow edit baseAddress length window).after) hi := by
  have hpos := length_pos hlength
  induction window generalizing lo with
  | nil =>
      obtain ⟨front, entry, hnil, -⟩ := hlast
      exact absurd hnil (by simp)
  | cons entry rest ih =>
      obtain ⟨hlo, hle, hshow, hrest⟩ := htiles
      have hbase := hfirst entry rest rfl
      have hins := coreInsertGcdMapEntry_inserted entry hlength hwrap
      obtain ⟨front, final, hwindow, hfinal⟩ := hlast
      subst hlo
      cases rest with
      | nil =>
          have heq : entry = final := by
            cases front with
            | nil => exact singleton_inj.mp hwindow
            | cons => simp at hwindow
          subst heq
          have hhi : last entry + 1 = hi := hrest
          subst hhi
          have hhead : Tiles (editBlock edit baseAddress length f) _ _ _ :=
            hins.tiles hshow hbase hfinal hpos hle
          simpa [convertWindow] using hhead
      | cons next tail =>
          obtain ⟨front', hrestEq⟩ : ∃ front', next :: tail = front' ++ [final] := by
            cases front with
            | nil => simp at hwindow
            | cons head front' =>
                rw [cons_append, List.cons.injEq] at hwindow
                exact ⟨front', hwindow.2⟩
          have hfinalMem : final ∈ next :: tail := by rw [hrestEq]; simp
          have hfinalLe := hrest.mem_bounds hfinalMem
          have hnext : first next = last entry + 1 := hrest.1
          have hnextLe := hrest.2.1
          have htail := ih hrest
            (fun e es heq => by
              rw [List.cons.injEq] at heq
              rw [← heq.1]
              omega)
            ⟨front', final, hrestEq, hfinal⟩
          have hhead : Tiles (editBlock edit baseAddress length f) _ _ _ :=
            hins.tiles hshow hbase (by omega) hpos hle
          have hall := hhead.append htail
          simpa [convertWindow] using hall

end Convert

section Cleanup

variable {f : Nat → Option GcdRegion} {lo hi : Nat}

theorem mergeBackward_tiles
    {back rest : GcdMap} {entry : GcdMapEntry}
    (h : Tiles f lo (back.reverse ++ entry :: rest) hi) :
    Tiles f lo
      ((mergeBackward back entry).1.reverse ++ (mergeBackward back entry).2 :: rest) hi := by
  cases back with
  | nil => exact h
  | cons adjacent back =>
      rw [mergeBackward]
      split
      case isTrue hsame =>
        rw [reverse_cons, append_assoc] at h
        obtain ⟨mid, hback, htail⟩ := tiles_append.mp h
        have hlabel := ((sameRegion_iff entry adjacent).mp hsame).symm
        exact hback.append (htail.join hlabel rfl rfl rfl)
      case isFalse => exact h

theorem mergeForward_tiles
    {back rest : GcdMap} {entry : GcdMapEntry}
    (h : Tiles f lo (back ++ entry :: rest) hi) :
    Tiles f lo (back ++ (mergeForward entry rest).1 :: (mergeForward entry rest).2) hi := by
  cases rest with
  | nil => exact h
  | cons adjacent rest =>
      rw [mergeForward]
      split
      case isTrue hsame =>
        obtain ⟨mid, hback, htail⟩ := tiles_append.mp h
        have hlabel := (sameRegion_iff entry adjacent).mp hsame
        exact hback.append (htail.join hlabel rfl rfl hlabel)
      case isFalse => exact h

theorem cleanupLoop_tiles
    {back window after : GcdMap}
    (h : Tiles f lo (back.reverse ++ window ++ after) hi) :
    Tiles f lo ((cleanupLoop back window).reverse ++ after) hi := by
  induction window generalizing back with
  | nil => simpa [cleanupLoop] using h
  | cons entry rest ih =>
      rw [append_assoc, cons_append] at h
      have hmerged := mergeBackward_tiles h
      show Tiles f lo ((cleanupLoop
        ((mergeBackward back entry).2 :: (mergeBackward back entry).1) rest).reverse ++ after) hi
      refine ih ?_
      rw [reverse_cons, append_assoc, append_assoc]
      exact hmerged

theorem coreCleanupGcdMapEntry_tiles
    {split : GcdSplit}
    (h : Tiles f lo (split.before ++ split.window ++ split.after) hi) :
    Tiles f lo (coreCleanupGcdMapEntry split) hi := by
  have hloop : Tiles f lo
      ((cleanupLoop split.before.reverse split.window).reverse ++ split.after) hi :=
    cleanupLoop_tiles (by simpa using h)
  rw [coreCleanupGcdMapEntry]
  cases hback : cleanupLoop split.before.reverse split.window with
  | nil => simpa [hback] using hloop
  | cons entry back =>
      rw [hback, reverse_cons, append_assoc] at hloop
      exact mergeForward_tiles hloop

end Cleanup

end Gcd
end Udk
