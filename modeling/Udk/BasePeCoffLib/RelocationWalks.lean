import Udk.BasePeCoffLib.RelocationBlocks

/-!
# The two walks over a relocation directory

A record is an update of the memory that works on its word and on its slot of the log.  Over
well-formed blocks each walk applies the updates of the listed words one after the other, and as
they work on different places, each word gets what its own record does to it.
-/

namespace Udk
namespace PeCoff

open List

section Updates

/-- An address belongs to a word or to its slot. -/
def Touches (base : Nat) (p : Fixup × Nat) (a : Nat) : Prop :=
  (base + p.1.offset ≤ a ∧ a < base + p.1.offset + p.1.kind.width) ∨
    (p.2 ≠ 0 ∧ p.2 ≤ a ∧ a < p.2 + p.1.kind.width)

/-- A word of an image. -/
def Fixup.value (f : Fixup) (mem : Memory) (base : Nat) : Nat :=
  word mem (base + f.offset) f.kind.width

/-- A word is adjusted, and stored in its slot. -/
def relocateWord (base adjust : Nat) (p : Fixup × Nat) (mem : Memory) : Memory :=
  let mem' := setWord mem (base + p.1.offset) p.1.kind.width
    (p.1.value mem base + adjust % 256 ^ p.1.kind.width)
  if p.2 = 0 then mem' else setWord mem' p.2 p.1.kind.width (p.1.value mem' base)

/-- A word is adjusted when it is the word of its slot. -/
def refixOneWord (base adjust : Nat) (p : Fixup × Nat) (mem : Memory) : Memory :=
  if p.2 ≠ 0 ∧ word mem p.2 p.1.kind.width = p.1.value mem base then
    setWord mem (base + p.1.offset) p.1.kind.width
      (p.1.value mem base + adjust % 256 ^ p.1.kind.width)
  else
    mem

variable {base adjust a : Nat} {p : Fixup × Nat} {mem mem' : Memory} {f : Fixup}

theorem Fixup.value_congr
    (hsame : ∀ a, base + f.offset ≤ a → a < base + f.offset + f.kind.width → mem a = mem' a) :
    f.value mem base = f.value mem' base :=
  word_congr fun k hk => hsame _ (by omega) (by omega)

@[simp] theorem Fixup.value_setWord {v : Nat} :
    f.value (setWord mem (base + f.offset) f.kind.width v) base = v % 256 ^ f.kind.width :=
  word_setWord

theorem relocateWord_frame
    (hout : ¬ Touches base p a) :
    relocateWord base adjust p mem a = mem a := by
  rw [Touches] at hout
  push Not at hout
  rw [relocateWord]
  split_ifs with hslot
  · exact setWord_outside (by omega)
  · rw [setWord_outside (by have := hout.2 hslot; omega), setWord_outside (by omega)]

theorem relocateWord_congr
    (hsame : ∀ a, Touches base p a → mem a = mem' a)
    (hin : Touches base p a) :
    relocateWord base adjust p mem a = relocateWord base adjust p mem' a := by
  have hvalue : p.1.value mem base = p.1.value mem' base :=
    Fixup.value_congr fun a hlow hhigh => hsame a (Or.inl ⟨hlow, hhigh⟩)
  rw [relocateWord, relocateWord, hvalue]
  split_ifs with hslot
  · rcases hin with hin | hin
    · exact setWord_inside hin.1 hin.2
    · exact absurd hslot hin.1
  · rw [Fixup.value_setWord, Fixup.value_setWord]
    by_cases hlog : p.2 ≤ a ∧ a < p.2 + p.1.kind.width
    · exact setWord_inside hlog.1 hlog.2
    · have houter : ∀ m v, setWord m p.2 p.1.kind.width v a = m a :=
        fun m v => setWord_outside (by omega)
      rw [houter, houter]
      rcases hin with hin | hin
      · exact setWord_inside hin.1 hin.2
      · exact absurd ⟨hin.2.1, hin.2.2⟩ hlog

/-- A record of the first walk. -/
def relocateUpdate (base adjust : Nat) (p : Fixup × Nat) : Update Nat UInt8 where
  apply := relocateWord base adjust p
  foot := Touches base p
  frame := fun _ _ hout => relocateWord_frame hout
  congr := fun _ _ hsame _ hin => relocateWord_congr hsame hin

theorem refixOneWord_frame
    (hout : ¬ Touches base p a) :
    refixOneWord base adjust p mem a = mem a := by
  rw [Touches] at hout
  push Not at hout
  rw [refixOneWord]
  split_ifs
  · exact setWord_outside (by omega)
  · rfl

theorem refixOneWord_congr
    (hsame : ∀ a, Touches base p a → mem a = mem' a)
    (hin : Touches base p a) :
    refixOneWord base adjust p mem a = refixOneWord base adjust p mem' a := by
  have hvalue : p.1.value mem base = p.1.value mem' base :=
    Fixup.value_congr fun a hlow hhigh => hsame a (Or.inl ⟨hlow, hhigh⟩)
  have hlog : (p.2 ≠ 0 ∧ word mem p.2 p.1.kind.width = p.1.value mem' base) ↔
      (p.2 ≠ 0 ∧ word mem' p.2 p.1.kind.width = p.1.value mem' base) := by
    refine and_congr_right fun hslot => ?_
    have h : word mem p.2 p.1.kind.width = word mem' p.2 p.1.kind.width :=
      word_congr fun k hk => hsame _ (Or.inr ⟨hslot, by omega, by omega⟩)
    rw [h]
  simp only [refixOneWord, hvalue, hlog]
  split_ifs
  · by_cases hword : base + p.1.offset ≤ a ∧ a < base + p.1.offset + p.1.kind.width
    · exact setWord_inside hword.1 hword.2
    · rw [setWord_outside (by omega), setWord_outside (by omega)]
      exact hsame a hin
  · exact hsame a hin

/-- A record of the second walk. -/
def refixUpdate (base adjust : Nat) (p : Fixup × Nat) : Update Nat UInt8 where
  apply := refixOneWord base adjust p
  foot := Touches base p
  frame := fun _ _ hout => refixOneWord_frame hout
  congr := fun _ _ hsame _ hin => refixOneWord_congr hsame hin

end Updates

section Separate

/-- The words of a list have no byte in common. -/
def DisjointFixups (fs : List Fixup) : Prop :=
  fs.Pairwise fun f g => Apart f.offset f.kind.width g.offset g.kind.width

/-- The log has room for `n` words, and is apart from the image. -/
structure LogRoom (base size fixupData limit n : Nat) : Prop where
  room : roundUp8 fixupData + 8 * n ≤ limit
  limit_lt : limit < 2 ^ 64
  apart : limit ≤ base ∨ base + size ≤ fixupData

variable {base size fixupData limit a : Nat} {fs : List Fixup} {p : Fixup × Nat}

theorem LogRoom.tail {f : Fixup} {n : Nat}
    (hpos : 0 < fixupData)
    (hroom : LogRoom base size fixupData limit (n + 1)) :
    fixupData ≤ f.slot fixupData ∧ f.slot fixupData + f.kind.width ≤ limit ∧
      f.next fixupData = f.slot fixupData + f.kind.width ∧
      LogRoom base size (f.next fixupData) limit n := by
  have hroomy := hroom.room
  obtain ⟨hlow, hhigh, hnext, hround⟩ :=
    @slot_bounds fixupData limit f hpos (by omega) hroom.limit_lt
  have hapart := hroom.apart
  exact ⟨hlow, hhigh, hnext, by omega, hroom.limit_lt, by omega⟩

theorem LogRoom.append {n : Nat}
    (hpos : 0 < fixupData)
    (hroom : LogRoom base size fixupData limit (fs.length + n)) :
    0 < logEnd fixupData fs ∧ LogRoom base size (logEnd fixupData fs) limit n := by
  induction fs generalizing fixupData with
  | nil =>
      rw [length_nil, Nat.zero_add] at hroom
      exact ⟨hpos, hroom⟩
  | cons f fs ih =>
      rw [length_cons, Nat.add_right_comm] at hroom
      obtain ⟨hlow, _, hnext, htail⟩ := hroom.tail (f := f) hpos
      exact ih (by omega) htail

/-- Words that have no byte in common, with their slots, are worked on separately. -/
theorem pairwise_withSlots
    (hdisjoint : DisjointFixups fs)
    (hin : ∀ f ∈ fs, f.offset + f.kind.width ≤ size)
    (hlog : fixupData = 0 ∨ LogRoom base size fixupData limit fs.length) :
    (withSlots fixupData fs).Pairwise fun p q => ∀ a, Touches base p a → ¬ Touches base q a := by
  induction fs generalizing fixupData with
  | nil => exact List.Pairwise.nil
  | cons f fs ih =>
      obtain ⟨hhead, htail⟩ := pairwise_cons.mp hdisjoint
      have hfirst := hin f mem_cons_self
      have hrest : ∀ g ∈ fs, g.offset + g.kind.width ≤ size :=
        fun g hg => hin g (mem_cons_of_mem _ hg)
      rw [withSlots, pairwise_cons]
      by_cases hzero : fixupData = 0
      · subst hzero
        constructor
        case left =>
          intro q hq a hp hq'
          have hapart := hhead q.1 (fst_mem_of_mem_withSlots hq)
          have hslot : q.2 = 0 := slot_eq_zero hq
          have hnone : f.slot 0 = 0 := if_pos rfl
          simp only [Touches] at hp hq'
          rcases hp with hp | hp
          · rcases hq' with hq' | hq'
            · have h := hapart (a - (base + f.offset)) (by omega)
              omega
            · exact hq'.1 hslot
          · exact hp.1 hnone
        case right => exact ih htail hrest (Or.inl (if_pos rfl))
      · have hroom := hlog.resolve_left hzero
        obtain ⟨hlow, hhigh, hnext, htailRoom⟩ := hroom.tail (f := f) (by omega)
        have houtside := hroom.apart
        constructor
        case left =>
          intro q hq a hp hq'
          have hapart := hhead q.1 (fst_mem_of_mem_withSlots hq)
          have hqin := hrest q.1 (fst_mem_of_mem_withSlots hq)
          have hslot := slots_bounds (by omega) htailRoom.room htailRoom.limit_lt hq
          simp only [Touches] at hp hq'
          rcases hp with hp | hp
          · rcases hq' with hq' | hq'
            · have h := hapart (a - (base + f.offset)) (by omega)
              omega
            · omega
          · omega
        case right => exact ih htail hrest (Or.inr htailRoom)

end Separate

section Records

variable {base adjust fixupData page : Nat} {mem : Memory} {r : Record} {f : Fixup}

theorem setWord_zero {addr v : Nat} : setWord mem addr 0 v = mem := by
  funext a
  exact setWord_outside (by omega)

theorem alignPointer_one {pointer : Nat}
    (hlt : pointer < 2 ^ 64) :
    alignPointer pointer 1 = pointer := by
  rw [alignPointer, Nat.mod_one, Nat.add_zero, Nat.mod_eq_of_lt hlt]

theorem absolute_slot
    (habsolute : f.kind = .absolute)
    (hlt : fixupData < 2 ^ 64) :
    f.next fixupData = fixupData := by
  rw [Fixup.next, Fixup.slot, habsolute]
  split_ifs with hzero
  · exact hzero.symm
  · change (alignPointer fixupData 1 + 0) % 2 ^ 64 = fixupData
    rw [alignPointer_one hlt, Nat.add_zero, Nat.mod_eq_of_lt hlt]

theorem next_lt : f.next fixupData < 2 ^ 64 := by
  rw [Fixup.next]
  split_ifs
  · decide
  · exact Nat.mod_lt _ (by decide)

theorem fixWord_eq
    (hslot : fixupData ≠ 0 → f.slot fixupData ≠ 0) :
    fixWord ⟨mem, fixupData⟩ (base + f.offset) f.kind.width f.kind.alignment
        (adjust % 256 ^ f.kind.width) =
      ⟨relocateWord base adjust (f, f.slot fixupData) mem, f.next fixupData⟩ := by
  rw [fixWord, relocateWord, Fixup.next]
  by_cases hzero : fixupData = 0
  · have hnone : f.slot fixupData = 0 := if_pos hzero
    simp only [if_pos hzero, if_pos hnone]
    rw [hzero]
    rfl
  · have hsome : f.slot fixupData = alignPointer fixupData f.kind.alignment := if_neg hzero
    simp only [if_neg hzero, if_neg (hslot hzero)]
    rw [hsome]
    rfl

theorem refixWord_eq
    (hsome : fixupData ≠ 0)
    (hslot : f.slot fixupData ≠ 0) :
    refixWord ⟨mem, fixupData⟩ (base + f.offset) f.kind.width f.kind.alignment
        (adjust % 256 ^ f.kind.width) =
      ⟨refixOneWord base adjust (f, f.slot fixupData) mem, f.next fixupData⟩ := by
  have halign : f.slot fixupData = alignPointer fixupData f.kind.alignment := if_neg hsome
  rw [refixWord, refixOneWord, Fixup.next, if_neg hsome, ← halign]
  simp only [ne_eq, hslot, not_false_eq_true, true_and]
  rfl

theorem relocateFixup_record
    (hf : f = ⟨r.kind, page + r.offset⟩)
    (hlt : fixupData < 2 ^ 64)
    (hslot : fixupData ≠ 0 → f.slot fixupData ≠ 0) :
    relocateFixup adjust r.code (base + f.offset) ⟨mem, fixupData⟩ =
      some ⟨relocateWord base adjust (f, f.slot fixupData) mem, f.next fixupData⟩ := by
  have hkind : f.kind = r.kind := by rw [hf]
  have hfix := @fixWord_eq base adjust fixupData mem f hslot
  rw [relocateFixup, Record.code_div]
  cases hr : r.kind with
  | absolute =>
      rw [hr] at hkind
      have hword : relocateWord base adjust (f, f.slot fixupData) mem = mem := by
        rw [relocateWord]
        simp only [hkind, RecordKind.width, setWord_zero, ite_self]
      rw [hword, absolute_slot hkind hlt]
      rfl
  | low | highLow | dir64 =>
      rw [hr] at hkind
      rw [← hfix, hkind]
      rfl

theorem refixFixup_record
    (hf : f = ⟨r.kind, page + r.offset⟩)
    (hlt : fixupData < 2 ^ 64)
    (hsome : fixupData ≠ 0)
    (hslot : f.slot fixupData ≠ 0) :
    refixFixup adjust r.code (base + f.offset) ⟨mem, fixupData⟩ =
      some ⟨refixOneWord base adjust (f, f.slot fixupData) mem, f.next fixupData⟩ := by
  have hkind : f.kind = r.kind := by rw [hf]
  have hfix := @refixWord_eq base adjust fixupData mem f hsome hslot
  rw [refixFixup, Record.code_div]
  cases hr : r.kind with
  | absolute =>
      rw [hr] at hkind
      have hword : refixOneWord base adjust (f, f.slot fixupData) mem = mem := by
        rw [refixOneWord]
        simp only [hkind, RecordKind.width, setWord_zero, ite_self]
      rw [hword, absolute_slot hkind hlt]
      rfl
  | low | highLow | dir64 =>
      rw [hr] at hkind
      rw [← hfix, hkind]
      rfl

end Records

section Walks

variable {base adjust fixupData page relocBase reloc : Nat} {mem : Memory} {rs : List Record}
  {fs : List Fixup} {ctx : ImageContext}

@[simp] theorem logEnd_zero : logEnd 0 fs = 0 := by
  induction fs with
  | nil => rfl
  | cons f _ ih => exact ih

theorem logEnd_lt
    (hlt : fixupData < 2 ^ 64) :
    logEnd fixupData fs < 2 ^ 64 := by
  induction fs generalizing fixupData with
  | nil => exact hlt
  | cons f _ ih => exact ih next_lt

/-- No slot of a log is at the address 0. -/
def NoNullSlot (fixupData : Nat) (fs : List Fixup) : Prop :=
  fixupData ≠ 0 → ∀ p ∈ withSlots fixupData fs, p.2 ≠ 0

theorem NoNullSlot.tail {f : Fixup}
    (hslots : NoNullSlot fixupData (f :: fs)) :
    NoNullSlot (f.next fixupData) fs := by
  intro hnext p hp
  refine hslots (fun hzero => hnext ?_) p (mem_cons_of_mem _ hp)
  rw [Fixup.next, if_pos hzero]

theorem NoNullSlot.left {fs' : List Fixup}
    (hslots : NoNullSlot fixupData (fs ++ fs')) :
    NoNullSlot fixupData fs := by
  intro hsome p hp
  refine hslots hsome p ?_
  rw [withSlots_append]
  exact mem_append_left _ hp

theorem NoNullSlot.right {fs' : List Fixup}
    (hslots : NoNullSlot fixupData (fs ++ fs')) :
    NoNullSlot (logEnd fixupData fs) fs' := by
  intro hend p hp
  refine hslots (fun hzero => hend ?_) p ?_
  · rw [hzero, logEnd_zero]
  · rw [withSlots_append]
    exact mem_append_right _ hp

/-- The records of a block for a page. -/
def recordFixups (page : Nat) (rs : List Record) : List Fixup :=
  rs.map fun r => ⟨r.kind, page + r.offset⟩

/-- None of the words and slots is in a range. -/
def Spares (base : Nat) (ps : List (Fixup × Nat)) (addr len : Nat) : Prop :=
  ∀ p ∈ ps, ∀ k < len, ¬ Touches base p (addr + k)

theorem Spares.part {ps : List (Fixup × Nat)} {addr len offset len' : Nat}
    (hspares : Spares base ps addr len)
    (hle : offset + len' ≤ len) :
    Spares base ps (addr + offset) len' := by
  intro p hp k hk
  rw [Nat.add_assoc]
  exact hspares p hp _ (by omega)

theorem imageAddress_eq {address : Nat}
    (hfits : ctx.imageAddress + ctx.imageSize < 2 ^ 64)
    (hin : address < ctx.imageSize) :
    peCoffLoaderImageAddress ctx address 0 = ctx.imageAddress + address := by
  rw [peCoffLoaderImageAddress, Nat.add_zero, Nat.mod_eq_of_lt (by omega),
    if_neg (by omega), sub64, Nat.sub_zero, Nat.add_mod_right, Nat.mod_eq_of_lt (by omega)]

/-- The first walk over the records of a block. -/
theorem relocateRecords_eq
    (hnull : ctx.imageAddress ≠ 0)
    (hfits : ctx.imageAddress + ctx.imageSize < 2 ^ 64)
    (hin : ∀ r ∈ rs, page + r.offset < 2 ^ 32 ∧ page + r.offset < ctx.imageSize)
    (hpage : word mem relocBase 4 = page)
    (hat : RecordsAt mem reloc rs)
    (hlt : fixupData < 2 ^ 64)
    (hslots : NoNullSlot fixupData (recordFixups page rs))
    (hspareBase : Spares ctx.imageAddress (withSlots fixupData (recordFixups page rs))
      relocBase 4)
    (hspare : Spares ctx.imageAddress (withSlots fixupData (recordFixups page rs)) reloc
      (2 * rs.length)) :
    relocateRecords ctx 0 adjust relocBase rs.length reloc ⟨mem, fixupData⟩ =
      (.success, ⟨Update.applyAll ((withSlots fixupData (recordFixups page rs)).map
        (relocateUpdate ctx.imageAddress adjust)) mem,
        logEnd fixupData (recordFixups page rs)⟩) := by
  induction rs generalizing reloc mem fixupData with
  | nil => rfl
  | cons r rs ih =>
      obtain ⟨hhere, hrest⟩ := hat
      obtain ⟨hword, himage⟩ := hin r mem_cons_self
      have hslot := fun hsome => hslots hsome _ mem_cons_self
      have haddress := @imageAddress_eq ctx (page + r.offset) hfits himage
      rw [length_cons, relocateRecords]
      simp only [hhere, hpage, Record.code_mod, Nat.mod_eq_of_lt hword, haddress]
      rw [if_neg (by omega), relocateFixup_record rfl hlt hslot]
      have hsame : ∀ a, ¬ Touches ctx.imageAddress
          (⟨r.kind, page + r.offset⟩, Fixup.slot ⟨r.kind, page + r.offset⟩ fixupData) a →
          relocateWord ctx.imageAddress adjust
            (⟨r.kind, page + r.offset⟩, Fixup.slot ⟨r.kind, page + r.offset⟩ fixupData) mem a =
          mem a := fun a => relocateWord_frame
      rw [length_cons] at hspare
      refine ih (fun r hr => hin r (mem_cons_of_mem _ hr)) ?_ ?_ next_lt hslots.tail ?_ ?_
      · exact (word_congr fun k hk =>
          hsame _ (hspareBase _ mem_cons_self k hk)).trans hpage
      · refine hrest.congr fun k hk => hsame _ ?_
        rw [Nat.add_assoc]
        exact hspare _ mem_cons_self _ (by omega)
      · exact fun p hp => hspareBase p (mem_cons_of_mem _ hp)
      · exact fun p hp => (hspare.part (by omega)) p (mem_cons_of_mem _ hp)

theorem refixRecords_eq {size limit n : Nat}
    (hfits : base + size < 2 ^ 64)
    (hin : ∀ r ∈ rs, page + r.offset < 2 ^ 32 ∧ page + r.offset < size)
    (hat : RecordsAt mem reloc rs)
    (hpos : 0 < fixupData)
    (hroom : LogRoom base size fixupData limit (rs.length + n))
    (hspare : Spares base (withSlots fixupData (recordFixups page rs)) reloc (2 * rs.length)) :
    refixRecords adjust (base + page) rs.length reloc ⟨mem, fixupData⟩ =
      (true, ⟨Update.applyAll ((withSlots fixupData (recordFixups page rs)).map
        (refixUpdate base adjust)) mem, logEnd fixupData (recordFixups page rs)⟩) := by
  induction rs generalizing reloc mem fixupData with
  | nil => rfl
  | cons r rs ih =>
      obtain ⟨hhere, hrest⟩ := hat
      obtain ⟨_, himage⟩ := hin r mem_cons_self
      rw [length_cons, Nat.add_right_comm] at hroom
      have hroomy := hroom.room
      have hlimit := hroom.limit_lt
      obtain ⟨hlow, _, hnext, htail⟩ :=
        hroom.tail (f := ⟨r.kind, page + r.offset⟩) hpos
      have hlt : fixupData < 2 ^ 64 := by
        rw [roundUp8] at hroomy
        omega
      have haddress : (base + page + r.offset) % 2 ^ 64 = base + (page + r.offset) := by
        rw [Nat.add_assoc, Nat.mod_eq_of_lt (by omega)]
      rw [length_cons, refixRecords]
      simp only [hhere, Record.code_mod, haddress]
      rw [refixFixup_record (f := ⟨r.kind, page + r.offset⟩) rfl hlt (by omega) (by omega)]
      rw [length_cons] at hspare
      refine ih (fun r hr => hin r (mem_cons_of_mem _ hr)) ?_ (by omega) htail ?_
      · refine hrest.congr fun k hk => refixOneWord_frame ?_
        rw [Nat.add_assoc]
        exact hspare _ mem_cons_self _ (by omega)
      · exact fun p hp => (hspare.part (by omega)) p (mem_cons_of_mem _ hp)

end Walks

section Blocks

variable {base adjust fixupData relocBase relocBaseOrg relocBaseEnd relocDir ahead : Nat}
  {mem : Memory} {blocks : List Block} {ctx : ImageContext}

/-- The updates of the first walk for some words. -/
def relocateAll (base adjust fixupData : Nat) (fs : List Fixup) (mem : Memory) : Memory :=
  Update.applyAll ((withSlots fixupData fs).map (relocateUpdate base adjust)) mem

/-- The updates of the second walk for some words. -/
def refixAll (base adjust fixupData : Nat) (fs : List Fixup) (mem : Memory) : Memory :=
  Update.applyAll ((withSlots fixupData fs).map (refixUpdate base adjust)) mem

theorem relocateAll_append {fs fs' : List Fixup} :
    relocateAll base adjust fixupData (fs ++ fs') mem =
      relocateAll base adjust (logEnd fixupData fs) fs'
        (relocateAll base adjust fixupData fs mem) := by
  rw [relocateAll, withSlots_append, map_append, Update.applyAll, foldl_append]
  rfl

theorem refixAll_append {fs fs' : List Fixup} :
    refixAll base adjust fixupData (fs ++ fs') mem =
      refixAll base adjust (logEnd fixupData fs) fs'
        (refixAll base adjust fixupData fs mem) := by
  rw [refixAll, withSlots_append, map_append, Update.applyAll, foldl_append]
  rfl

theorem relocateAll_spared {fs : List Fixup} {addr len k : Nat}
    (hspares : Spares base (withSlots fixupData fs) addr len)
    (hk : k < len) :
    relocateAll base adjust fixupData fs mem (addr + k) = mem (addr + k) := by
  refine Update.applyAll_outside fun u hu => ?_
  obtain ⟨p, hp, rfl⟩ := mem_map.mp hu
  exact hspares p hp k hk

theorem refixAll_spared {fs : List Fixup} {addr len k : Nat}
    (hspares : Spares base (withSlots fixupData fs) addr len)
    (hk : k < len) :
    refixAll base adjust fixupData fs mem (addr + k) = mem (addr + k) := by
  refine Update.applyAll_outside fun u hu => ?_
  obtain ⟨p, hp, rfl⟩ := mem_map.mp hu
  exact hspares p hp k hk

theorem Spares.left {fs fs' : List Fixup} {addr len : Nat}
    (hspares : Spares base (withSlots fixupData (fs ++ fs')) addr len) :
    Spares base (withSlots fixupData fs) addr len := by
  rw [withSlots_append] at hspares
  exact fun p hp => hspares p (mem_append_left _ hp)

theorem Spares.right {fs fs' : List Fixup} {addr len : Nat}
    (hspares : Spares base (withSlots fixupData (fs ++ fs')) addr len) :
    Spares base (withSlots (logEnd fixupData fs) fs') addr len := by
  rw [withSlots_append] at hspares
  exact fun p hp => hspares p (mem_append_right _ hp)

/-- The page of a block and what its records name lie in the image. -/
structure Block.InImage (b : Block) (imageSize : Nat) : Prop where
  page_lt : b.page < imageSize
  records : ∀ r ∈ b.records, b.page + r.offset < 2 ^ 32 ∧ b.page + r.offset < imageSize

/-- The first walk over well-formed blocks. -/
theorem relocateBlocks_eq
    (hnull : ctx.imageAddress ≠ 0)
    (hfits : ctx.imageAddress + ctx.imageSize < 2 ^ 64)
    (hin : ∀ b ∈ blocks, b.InImage ctx.imageSize)
    (hat : BlocksAt mem relocBase blocks)
    (hend : relocBase + sizeOfBlocks blocks = relocBaseEnd + 1)
    (hsize : relocBaseOrg + dirSize mem relocDir = relocBaseEnd + 1)
    (htop : relocBaseEnd + 1 < 2 ^ 64)
    (hahead : sizeOfBlocks blocks ≤ ahead + 1)
    (hlt : fixupData < 2 ^ 64)
    (hslots : NoNullSlot fixupData (fixupsOf blocks))
    (hspare : Spares ctx.imageAddress (withSlots fixupData (fixupsOf blocks)) relocBase
      (sizeOfBlocks blocks))
    (hspareDir : Spares ctx.imageAddress (withSlots fixupData (fixupsOf blocks))
      (relocDir + 4) 4) :
    relocateBlocks ctx 0 adjust relocDir relocBaseOrg relocBaseEnd ahead relocBase
        ⟨mem, fixupData⟩ =
      (.success, ⟨relocateAll ctx.imageAddress adjust fixupData (fixupsOf blocks) mem,
        logEnd fixupData (fixupsOf blocks)⟩) := by
  induction blocks generalizing relocBase mem fixupData ahead with
  | nil =>
      cases ahead with
      | zero => rfl
      | succ ahead =>
          rw [sizeOfBlocks_nil] at hend
          rw [relocateBlocks, if_neg (by omega)]
          rfl
  | cons b bs ih =>
      obtain ⟨hpage, hword, hrecords, hrest⟩ := hat
      have hblock := hin b mem_cons_self
      have hbsize : b.size = 8 + 2 * b.records.length := rfl
      rw [sizeOfBlocks_cons] at hend hahead hspare
      rw [fixupsOf_cons] at hslots hspare hspareDir
      obtain ⟨ahead, rfl⟩ : ∃ n, ahead = n + 1 := ⟨ahead - 1, by omega⟩
      have hreloc : (relocBase + sizeofBaseRelocation) % 2 ^ 64 = relocBase + 8 :=
        Nat.mod_eq_of_lt (by rw [sizeofBaseRelocation]; omega)
      have hcount : (relocBase + b.size - (relocBase + 8) + 1) / 2 = b.records.length := by omega
      have haddress := imageAddress_eq hfits hblock.page_lt
      have hwalk := @relocateRecords_eq adjust fixupData b.page relocBase (relocBase + 8) mem
        b.records ctx hnull hfits hblock.records hpage hrecords hlt hslots.left
        (fun p hp k hk => hspare.left p hp k (by omega)) (hspare.left.part (by omega))
      rw [relocateBlocks, if_pos (by omega)]
      simp only [hword, hpage, hreloc, hcount, hwalk, haddress, hsize]
      rw [if_neg (by omega), if_neg (by rw [maxAddress]; omega), Nat.mod_eq_of_lt htop,
        if_neg (by omega), if_neg (by omega)]
      have hkeep : ∀ k < b.size + sizeOfBlocks bs,
          relocateAll ctx.imageAddress adjust fixupData b.fixups mem (relocBase + k) =
            mem (relocBase + k) := fun k hk => relocateAll_spared hspare.left hk
      have hdir : dirSize (relocateAll ctx.imageAddress adjust fixupData b.fixups mem) relocDir =
          dirSize mem relocDir :=
        word_congr fun k hk => relocateAll_spared hspareDir.left hk
      have hnext := @ih (logEnd fixupData b.fixups) (relocBase + b.size) ahead
        (relocateAll ctx.imageAddress adjust fixupData b.fixups mem)
        (fun b hb => hin b (mem_cons_of_mem _ hb))
        (hrest.congr fun k hk => by rw [Nat.add_assoc]; exact hkeep _ (by omega))
        (by omega) (by rw [hdir]; exact hsize) (by omega) (logEnd_lt hlt) hslots.right
        (hspare.right.part (Nat.le_refl _)) hspareDir.right
      rw [fixupsOf_cons, relocateAll_append, logEnd_append]
      exact hnext

/-- The second walk over well-formed blocks: it ends, when as many turns are allowed as the
directory has bytes. -/
theorem refixBlocks_eq {size limit fuel : Nat}
    (hfits : base + size < 2 ^ 64)
    (hin : ∀ b ∈ blocks, b.InImage size)
    (hat : BlocksAt mem relocBase blocks)
    (hend : relocBase + sizeOfBlocks blocks = relocBaseEnd)
    (hsize : sizeOfBlocks blocks ≤ dirSize mem relocDir)
    (htop : relocBaseEnd < 2 ^ 64)
    (hfuel : sizeOfBlocks blocks < fuel)
    (hpos : 0 < fixupData)
    (hroom : LogRoom base size fixupData limit (fixupsOf blocks).length)
    (hspare : Spares base (withSlots fixupData (fixupsOf blocks)) relocBase (sizeOfBlocks blocks))
    (hspareDir : Spares base (withSlots fixupData (fixupsOf blocks)) (relocDir + 4) 4) :
    refixBlocks adjust base relocDir relocBaseEnd fuel relocBase ⟨mem, fixupData⟩ =
      some (refixAll base adjust fixupData (fixupsOf blocks) mem) := by
  induction blocks generalizing relocBase mem fixupData fuel with
  | nil =>
      obtain ⟨fuel, rfl⟩ : ∃ n, fuel = n + 1 := ⟨fuel - 1, by omega⟩
      rw [sizeOfBlocks_nil] at hend
      rw [refixBlocks, if_neg (by omega)]
      rfl
  | cons b bs ih =>
      obtain ⟨hpage, hword, hrecords, hrest⟩ := hat
      have hblock := hin b mem_cons_self
      have hbsize : b.size = 8 + 2 * b.records.length := rfl
      rw [sizeOfBlocks_cons] at hend hsize hfuel hspare
      rw [fixupsOf_cons] at hspare hspareDir hroom
      obtain ⟨fuel, rfl⟩ : ∃ n, fuel = n + 1 := ⟨fuel - 1, by omega⟩
      rw [length_append] at hroom
      have hreloc : (relocBase + sizeofBaseRelocation) % 2 ^ 64 = relocBase + 8 :=
        Nat.mod_eq_of_lt (by rw [sizeofBaseRelocation]; omega)
      have hrelocEnd : (relocBase + b.size) % 2 ^ 64 = relocBase + b.size :=
        Nat.mod_eq_of_lt (by omega)
      have hpageLt := hblock.page_lt
      have hbase : (base + b.page) % 2 ^ 64 = base + b.page := Nat.mod_eq_of_lt (by omega)
      have hcount : (relocBase + b.size - (relocBase + 8) + 1) / 2 = b.records.length := by omega
      obtain ⟨hposEnd, hroomEnd⟩ := hroom.append hpos
      rw [Block.length_fixups] at hroom
      have hwalk := @refixRecords_eq base adjust fixupData b.page (relocBase + 8) mem b.records
        size limit (fixupsOf bs).length hfits hblock.records hrecords hpos hroom
        (hspare.left.part (by omega))
      rw [refixBlocks, if_pos (by omega)]
      simp only [hword, hpage, hreloc, hrelocEnd, hbase, hcount, hwalk]
      rw [if_neg (by omega)]
      have hkeep : ∀ k < b.size + sizeOfBlocks bs,
          refixAll base adjust fixupData b.fixups mem (relocBase + k) = mem (relocBase + k) :=
        fun k hk => refixAll_spared hspare.left hk
      have hdir : dirSize (refixAll base adjust fixupData b.fixups mem) relocDir =
          dirSize mem relocDir :=
        word_congr fun k hk => refixAll_spared hspareDir.left hk
      have hnext := @ih (logEnd fixupData b.fixups) (relocBase + b.size)
        (refixAll base adjust fixupData b.fixups mem) fuel
        (fun b hb => hin b (mem_cons_of_mem _ hb))
        (hrest.congr fun k hk => by rw [Nat.add_assoc]; exact hkeep _ (by omega))
        (by omega) (by rw [hdir]; omega) (by omega) hposEnd hroomEnd
        (hspare.right.part (Nat.le_refl _)) hspareDir.right
      rw [fixupsOf_cons, refixAll_append]
      exact hnext

end Blocks

end PeCoff
end Udk
