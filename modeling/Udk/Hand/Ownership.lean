import Udk.Hand.Links

/-!
# Open records

The records of an interface that are opened by a driver or exclusively, and what the scan
of the open list finds out about them.
-/

namespace Udk
namespace Hand

open List

variable {list list' : List OpenData} {data : OpenData} {agent controller : Nat} {mode : OpenMode}
  {byDriver exclusive : Bool}

/-- At most one driver, at most one exclusive agent, and no driver besides this agent. -/
structure Exclusive (list : List OpenData) : Prop where
  byDriver : (list.filter fun data => data.attributes.hasByDriver).length ≤ 1
  exclusive : (list.filter fun data => data.attributes.hasExclusive).length ≤ 1
  agent : ∀ data ∈ list, ∀ data' ∈ list, data.attributes.hasExclusive = true →
    data'.attributes.hasByDriver = true → data'.agentHandle = data.agentHandle

theorem exclusive_nil : Exclusive [] :=
  ⟨Nat.zero_le 1, Nat.zero_le 1, fun _ h => absurd h not_mem_nil⟩

theorem Exclusive.sublist
    (hlist : Exclusive list)
    (hsub : list'.Sublist list) :
    Exclusive list' :=
  ⟨(hsub.filter _).length_le.trans hlist.byDriver, (hsub.filter _).length_le.trans hlist.exclusive,
    fun data hdata data' hdata' => hlist.agent data (hsub.subset hdata) data' (hsub.subset hdata')⟩

/-- What ownership depends on. -/
def owner (data : OpenData) : OpenMode × Nat :=
  (data.attributes, data.agentHandle)

theorem length_filter_owner
    (test : OpenMode → Bool)
    (hsame : list'.map owner = list.map owner) :
    (list'.filter fun data => test data.attributes).length =
      (list.filter fun data => test data.attributes).length := by
  have hcount : ∀ l : List OpenData, (l.filter fun data => test data.attributes).length =
      ((l.map owner).filter fun o => test o.1).length := by
    intro l
    rw [filter_map, length_map]
    rfl
  rw [hcount, hcount, hsame]

theorem mem_owner
    (hsame : list'.map owner = list.map owner) :
    ∀ data ∈ list', ∃ old ∈ list, owner old = owner data := by
  intro data hdata
  have h := mem_map_of_mem (f := owner) hdata
  rw [hsame] at h
  exact mem_map.mp h

theorem Exclusive.congr
    (hlist : Exclusive list)
    (hsame : list'.map owner = list.map owner) :
    Exclusive list' := by
  have hmem := mem_owner hsame
  refine ⟨?_, ?_, fun data hdata data' hdata' hexclusive hbyDriver => ?_⟩
  case refine_1 =>
    rw [length_filter_owner OpenMode.hasByDriver hsame]
    exact hlist.byDriver
  case refine_2 =>
    rw [length_filter_owner OpenMode.hasExclusive hsame]
    exact hlist.exclusive
  case refine_3 =>
    obtain ⟨old, hold, heq⟩ := hmem data hdata
    obtain ⟨old', hold', heq'⟩ := hmem data' hdata'
    rw [owner, owner, Prod.mk.injEq] at heq heq'
    rw [← heq.2, ← heq'.2]
    exact hlist.agent old hold old' hold' (heq.1 ▸ hexclusive) (heq'.1 ▸ hbyDriver)

/-- A record may join the list: it is neither for a driver nor exclusive, or none such is
there. -/
def MayJoin (mode : OpenMode) (list : List OpenData) : Prop :=
  (mode.hasByDriver = false ∧ mode.hasExclusive = false) ∨
    ∀ data ∈ list, data.attributes.hasByDriver = false ∧ data.attributes.hasExclusive = false

theorem Exclusive.append
    (hlist : Exclusive list)
    (hjoin : MayJoin data.attributes list) :
    Exclusive (list ++ [data]) := by
  rcases hjoin with ⟨hbyDriver, hexclusive⟩ | hnone
  · refine ⟨?_, ?_, ?_⟩
    case refine_1 =>
      rw [filter_append, filter_singleton, hbyDriver, cond_false, append_nil]
      exact hlist.byDriver
    case refine_2 =>
      rw [filter_append, filter_singleton, hexclusive, cond_false, append_nil]
      exact hlist.exclusive
    case refine_3 =>
      intro data₁ hdata₁ data₂ hdata₂ h₁ h₂
      have hold : ∀ d ∈ list ++ [data], d ∈ list ∨ d = data := by
        intro d hd
        rcases mem_append.mp hd with hd | hd
        · exact Or.inl hd
        · exact Or.inr (mem_singleton.mp hd)
      rcases hold data₁ hdata₁ with hold₁ | rfl
      · rcases hold data₂ hdata₂ with hold₂ | rfl
        · exact hlist.agent data₁ hold₁ data₂ hold₂ h₁ h₂
        · rw [hbyDriver] at h₂
          exact absurd h₂ Bool.false_ne_true
      · rw [hexclusive] at h₁
        exact absurd h₁ Bool.false_ne_true
  · have hempty : ∀ test : OpenMode → Bool, (∀ d ∈ list, test d.attributes = false) →
        ((list ++ [data]).filter fun d => test d.attributes).length ≤ 1 := by
      intro test htest
      have hnil : (list.filter fun d => test d.attributes) = [] :=
        filter_eq_nil_iff.mpr fun d hd => by rw [htest d hd]; exact Bool.false_ne_true
      rw [filter_append, hnil, nil_append]
      exact length_filter_le _ _
    refine ⟨hempty _ fun d hd => (hnone d hd).1, hempty _ fun d hd => (hnone d hd).2, ?_⟩
    intro data₁ hdata₁ data₂ hdata₂ h₁ h₂
    rcases mem_append.mp hdata₁ with hold | hnew
    · rw [(hnone data₁ hold).2] at h₁
      exact absurd h₁ Bool.false_ne_true
    · rcases mem_append.mp hdata₂ with hold | hnew'
      · rw [(hnone data₂ hold).1] at h₂
        exact absurd h₂ Bool.false_ne_true
      · rw [mem_singleton.mp hnew, mem_singleton.mp hnew']

section Scan

theorem scanOpenList_counted
    (hscan : scanOpenList agent controller mode list byDriver exclusive = .counted list') :
    list'.map owner = list.map owner ∧ list'.length = list.length := by
  induction list generalizing byDriver exclusive list' with
  | nil => cases hscan
  | cons data list ih =>
      rw [scanOpenList] at hscan
      by_cases hstarted : data.attributes.hasByDriver = true ∧ data.agentHandle = agent ∧
          data.attributes = mode ∧ data.controllerHandle = controller
      · rw [if_pos hstarted] at hscan
        cases hscan
      · rw [if_neg hstarted] at hscan
        by_cases hcount : ¬ data.attributes.hasExclusive = true ∧ data.agentHandle = agent ∧
            data.attributes = mode ∧ data.controllerHandle = controller
        · rw [if_pos hcount] at hscan
          cases hscan
          exact ⟨rfl, rfl⟩
        · rw [if_neg hcount] at hscan
          cases hrest : scanOpenList agent controller mode list
              (byDriver || data.attributes.hasByDriver)
              (exclusive || data.attributes.hasExclusive) with
          | alreadyStarted | flags b e =>
              rw [hrest] at hscan
              cases hscan
          | counted rest =>
              rw [hrest] at hscan
              cases hscan
              obtain ⟨howner, hlength⟩ := ih hrest
              exact ⟨by rw [map_cons, map_cons, howner],
                by rw [length_cons, length_cons, hlength]⟩

/-- The two flags tell whether there is a driver and whether there is an exclusive agent. -/
theorem scanOpenList_flags
    {byDriver' exclusive' : Bool}
    (hscan : scanOpenList agent controller mode list byDriver exclusive =
      .flags byDriver' exclusive') :
    (byDriver' = false → byDriver = false ∧ ∀ data ∈ list, data.attributes.hasByDriver = false) ∧
      (exclusive' = false →
        exclusive = false ∧ ∀ data ∈ list, data.attributes.hasExclusive = false) := by
  induction list generalizing byDriver exclusive with
  | nil =>
      cases hscan
      exact ⟨fun h => ⟨h, fun _ hd => absurd hd not_mem_nil⟩,
        fun h => ⟨h, fun _ hd => absurd hd not_mem_nil⟩⟩
  | cons data list ih =>
      rw [scanOpenList] at hscan
      by_cases hstarted : data.attributes.hasByDriver = true ∧ data.agentHandle = agent ∧
          data.attributes = mode ∧ data.controllerHandle = controller
      · rw [if_pos hstarted] at hscan
        cases hscan
      · rw [if_neg hstarted] at hscan
        by_cases hcount : ¬ data.attributes.hasExclusive = true ∧ data.agentHandle = agent ∧
            data.attributes = mode ∧ data.controllerHandle = controller
        · rw [if_pos hcount] at hscan
          cases hscan
        · rw [if_neg hcount] at hscan
          cases hrest : scanOpenList agent controller mode list
              (byDriver || data.attributes.hasByDriver)
              (exclusive || data.attributes.hasExclusive) with
          | alreadyStarted | counted rest =>
              rw [hrest] at hscan
              cases hscan
          | flags b e =>
              rw [hrest] at hscan
              cases hscan
              obtain ⟨hb, he⟩ := ih hrest
              constructor
              case left =>
                intro h
                obtain ⟨hor, hall⟩ := hb h
                rw [Bool.or_eq_false_iff] at hor
                refine ⟨hor.1, fun d hd => ?_⟩
                rcases mem_cons.mp hd with rfl | hd
                · exact hor.2
                · exact hall d hd
              case right =>
                intro h
                obtain ⟨hor, hall⟩ := he h
                rw [Bool.or_eq_false_iff] at hor
                refine ⟨hor.1, fun d hd => ?_⟩
                rcases mem_cons.mp hd with rfl | hd
                · exact hor.2
                · exact hall d hd

end Scan

end Hand
end Udk
