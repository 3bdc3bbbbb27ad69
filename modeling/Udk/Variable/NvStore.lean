import Udk.Variable.Writes

/-!
# The non-volatile store between two writes

`Shows` says which records a scan of a flash image can come across.  Behind the
records that the driver counts there may be what a failed write has left, as long
as it is dead: a scan steps over it.
-/

namespace Udk
namespace Variable

open List

section Image

variable (authFormat : Bool)

/-- A scan of the image meets `rs` and behind them only dead records. -/
def Shows (img : Bytes) (rs : List Bytes) : Prop :=
  ∃ header junk tail, Layout authFormat img header (rs ++ junk) tail ∧
    ∀ r ∈ junk, isLive r = false

/-- The image is erased from an offset on. -/
def Erased (img : Bytes) (off : Nat) : Prop :=
  ∀ b ∈ img.drop off, b = 0xff

/-- What every live record has: a name and data. -/
structure LiveRecord (r : Bytes) : Prop where
  hasName : HasName authFormat r
  data_pos : 0 < dataSizeOfVariable authFormat r

/-- All live records of the list are well formed. -/
def WellFormed (rs : List Bytes) : Prop :=
  ∀ r ∈ rs, isLive r = true → LiveRecord authFormat r

/-- The records of a key in the states that `p` accepts. -/
def ofKey (p : Bytes → Bool) (rs : List Bytes) (key : Guid × Bytes) : List Bytes :=
  rs.filter (fun r => p r && decide (recordKey authFormat r = key))

variable {authFormat} {p : Bytes → Bool} {rs : List Bytes}

theorem mem_ofKey
    {r : Bytes} {key : Guid × Bytes} :
    r ∈ ofKey authFormat p rs key ↔ r ∈ rs ∧ p r = true ∧ recordKey authFormat r = key := by
  simp [ofKey]

theorem ofKey_append
    (rs rs' : List Bytes) (key : Guid × Bytes) :
    ofKey authFormat p (rs ++ rs') key =
      ofKey authFormat p rs key ++ ofKey authFormat p rs' key :=
  filter_append ..

theorem ofKey_cons
    (r : Bytes) (rs : List Bytes) (key : Guid × Bytes) :
    ofKey authFormat p (r :: rs) key =
      (if p r = true ∧ recordKey authFormat r = key then [r] else []) ++
        ofKey authFormat p rs key := by
  rw [ofKey, filter_cons]
  simp only [Bool.and_eq_true, decide_eq_true_eq]
  split_ifs <;> rfl

theorem ofKey_singleton
    (r : Bytes) (key : Guid × Bytes) :
    ofKey authFormat p [r] key =
      if p r = true ∧ recordKey authFormat r = key then [r] else [] := by
  rw [ofKey_cons]
  exact append_nil _

theorem ofKey_eq_nil
    (h : ∀ r ∈ rs, p r = false) (key : Guid × Bytes) :
    ofKey authFormat p rs key = [] := by
  rw [eq_nil_iff_forall_not_mem]
  intro r hr
  obtain ⟨hmem, hp, -⟩ := mem_ofKey.mp hr
  rw [h r hmem] at hp
  cases hp

theorem dead_states {r : Bytes} (h : isLive r = false) :
    isAdded r = false ∧ isInTransition r = false := by
  rwa [isLive_eq, Bool.or_eq_false_iff] at h

theorem lookupRecords_eq
    (rs : List Bytes) (key : Guid × Bytes) :
    lookupRecords authFormat rs key =
      ((ofKey authFormat isAdded rs key).head?.or
        (ofKey authFormat isInTransition rs key).getLast?).map (recordValue authFormat) :=
  VersionLog.lookup_eq (fun _ h => isInTransition_not_added h) rs key

theorem Layout.shows
    {img header tail : Bytes}
    (h : Layout authFormat img header rs tail) :
    Shows authFormat img rs :=
  ⟨header, [], tail, by rwa [append_nil], by simp⟩

theorem Shows.read
    {img : Bytes} {rs : List Bytes}
    (h : Shows authFormat img rs) (hwf : WellFormed authFormat rs)
    {name : Char16Str} (guid : Guid) (hne : name.chars ≠ []) :
    readVariable authFormat img name guid = lookupRecords authFormat rs (keyOf name guid) := by
  obtain ⟨header, junk, tail, hlayout, hdead⟩ := h
  have hnames : ∀ r ∈ rs ++ junk, isLive r = true → HasName authFormat r := by
    intro r hr hlive
    rcases mem_append.mp hr with hr | hr
    · exact (hwf r hr hlive).hasName
    · rw [hdead r hr] at hlive
      cases hlive
  rw [readVariable_layout hlayout hnames guid hne, lookupRecords_eq, lookupRecords_eq,
    ofKey_append, ofKey_append, ofKey_eq_nil (fun r hr => (dead_states (hdead r hr)).1),
    ofKey_eq_nil (fun r hr => (dead_states (hdead r hr)).2), append_nil, append_nil]

theorem startId_erased {tail : Bytes} (h : ∀ b ∈ tail, b = 0xff) :
    startId tail ≠ variableData := by
  obtain ⟨n, rfl⟩ : ∃ n, tail = List.replicate n 0xff := ⟨tail.length, eq_replicate_iff.mpr
    ⟨rfl, h⟩⟩
  rcases n with _ | _ | n
  · decide
  · decide
  · have hread : startId (List.replicate (n + 2) 0xff) = 0xffff := by
      simp [startId, field, slice, replicate_succ, ofLE]
    rw [hread]
    decide

theorem Shows.erased
    {img : Bytes}
    (h : Shows authFormat img rs)
    (herased : Erased img (storeHeaderSize + rs.flatten.length)) :
    ∃ header m, Layout authFormat img header rs (List.replicate m 0xff) := by
  obtain ⟨header, junk, tail, hlayout, -⟩ := h
  have hdrop : img.drop (storeHeaderSize + rs.flatten.length) = junk.flatten ++ tail := by
    rw [hlayout.eq, ← hlayout.header_length, ← drop_drop, drop_left,
      flatten_append, append_assoc, drop_left]
  rw [Erased, hdrop] at herased
  have hjunk : junk = [] := by
    cases junk with
    | nil => rfl
    | cons r junk =>
        exfalso
        have hr := hlayout.records r (by simp)
        have hff : ∀ b ∈ r, b = 0xff := fun b hb => herased b (by simp [hb])
        exact startId_erased hff hr.startId_eq
  subst hjunk
  refine ⟨header, tail.length, ?_⟩
  have htail : tail = List.replicate tail.length 0xff :=
    eq_replicate_iff.mpr ⟨rfl, fun b hb => herased b (by simpa using hb)⟩
  rw [← htail]
  rwa [append_nil] at hlayout

end Image

section Modify

variable {authFormat : Bool} {rs : List Bytes} {f : Bytes → Bytes} {base off : Nat} {r : Bytes}

theorem modifyAt_of_mem
    (hne : ∀ x ∈ rs, x ≠ []) (hmem : (off, r) ∈ located base rs) :
    ∃ before after, rs = before ++ r :: after ∧
      modifyAt off f base rs = before ++ f r :: after := by
  obtain ⟨before, after, rfl, rfl⟩ := mem_located hmem
  exact ⟨before, after, rfl, modifyAt_split (fun x hx => hne x (by simp [hx]))⟩

theorem flatten_length_modifyAt
    (hne : ∀ x ∈ rs, x ≠ []) (hmem : (off, r) ∈ located base rs)
    (hlen : (f r).length = r.length) :
    (modifyAt off f base rs).flatten.length = rs.flatten.length := by
  obtain ⟨before, after, rfl, hmod⟩ := modifyAt_of_mem (f := f) hne hmem
  rw [hmod]
  simp [hlen]

theorem mem_modifyAt
    (hne : ∀ x ∈ rs, x ≠ []) (hmem : (off, r) ∈ located base rs) {x : Bytes}
    (hx : x ∈ modifyAt off f base rs) :
    x ∈ rs ∨ x = f r := by
  obtain ⟨before, after, rfl, hmod⟩ := modifyAt_of_mem (f := f) hne hmem
  rw [hmod, mem_append, mem_cons] at hx
  rw [mem_append, mem_cons]
  tauto

theorem mem_located_modifyAt
    (hne : ∀ x ∈ rs, x ≠ []) (hmem : (off, r) ∈ located base rs)
    (hlen : (f r).length = r.length) {off' : Nat} {r' : Bytes}
    (hmem' : (off', r') ∈ located base rs) (hoff : off' ≠ off) :
    (off', r') ∈ located base (modifyAt off f base rs) := by
  obtain ⟨before, after, rfl, rfl⟩ := mem_located hmem
  rw [modifyAt_split (fun x hx => hne x (by simp [hx]))]
  rw [located_append, mem_append] at hmem' ⊢
  rcases hmem' with h | h
  · exact Or.inl h
  · right
    rcases mem_cons.mp h with h | h
    · cases h
      exact absurd rfl hoff
    · rw [located, hlen]
      exact mem_cons_of_mem _ h

theorem mem_located_modifyAt_self
    (hne : ∀ x ∈ rs, x ≠ []) (hmem : (off, r) ∈ located base rs) :
    (off, f r) ∈ located base (modifyAt off f base rs) := by
  obtain ⟨before, after, rfl, rfl⟩ := mem_located hmem
  rw [modifyAt_split (fun x hx => hne x (by simp [hx]))]
  exact mem_located_append base before (f r) after

end Modify

end Variable
end Udk
