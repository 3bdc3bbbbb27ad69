import Udk.Variable.Record

/-!
# What store writes do to flash

One call of `UpdateVariableStore` is refused, programs all its bytes, or fails
after a part of them.  Behind every call that reached the FVB protocol the flash
image is noted in `history`.
-/

namespace Udk
namespace Variable

open List

/-- The driver after a store write that left `img` in flash. -/
def Driver.wrote (d : Driver) (img : Bytes) (fvb : List Bool) : Driver :=
  { d with flash := img, faults := { d.faults with fvb := fvb }, history := img :: d.history }

section Program

variable (P : Platform)

@[simp] theorem program_length (flash : Bytes) (offset : Nat) (bs : Bytes) :
    (P.program flash offset bs).length = flash.length :=
  overlay_length _ flash offset bs

@[simp] theorem program_nil (flash : Bytes) (offset : Nat) :
    P.program flash offset [] = flash :=
  overlay_nil _ flash offset

theorem combine_erased (kind : FlashKind) (b : UInt8) : kind.combine 0xff b = b := by
  cases kind with
  | rewritable => rfl
  | nor =>
      show (0xff : UInt8) &&& b = b
      have h : (0xff : UInt8) = -1 := rfl
      rw [h, UInt8.neg_one_and]

theorem combine_and (kind : FlashKind) (old mask : UInt8) :
    kind.combine old (old &&& mask) = old &&& mask := by
  cases kind with
  | rewritable => rfl
  | nor =>
      show old &&& (old &&& mask) = old &&& mask
      rw [← UInt8.and_assoc, UInt8.and_self]

theorem zipWith_combine_erased
    (kind : FlashKind) {bs : Bytes} {m : Nat} (h : bs.length ≤ m) :
    List.zipWith kind.combine (List.replicate m 0xff) bs = bs := by
  induction bs generalizing m with
  | nil => simp
  | cons b bs ih =>
      obtain ⟨m, rfl⟩ : ∃ k, m = k + 1 := ⟨m - 1, by simp at h; omega⟩
      simp [replicate_succ, combine_erased, ih (by simpa using h)]

theorem overlay_erased
    (kind : FlashKind) (base bs : Bytes) {m : Nat} (h : bs.length ≤ m) :
    overlay kind.combine (base ++ List.replicate m 0xff) base.length bs =
      base ++ (bs ++ List.replicate (m - bs.length) 0xff) := by
  have hzero := overlay_append_right kind.combine base (List.replicate m 0xff) bs 0
  rw [Nat.add_zero] at hzero
  rw [hzero, overlay]
  simp [zipWith_combine_erased _ h]

theorem overlay_state
    (f : UInt8 → UInt8 → UInt8) {r : Bytes} (s : UInt8) (h : 2 < r.length) :
    overlay f r 2 [s] = setState r (f (state r) s) := by
  rw [overlay_singleton, setState, modify_eq_set_getElem? , state, getD_eq_getElem?_getD,
    getElem?_eq_getElem h]
  rfl

end Program

section Blocks

variable {d : Driver} {writes : List (Nat × Bytes)}

variable (P : Platform)

/-- The loop over the block map programs a prefix of the bytes: all of them exactly
when it succeeds. -/
theorem writeBlocks_spec
    (blocks : List Nat) (linearOffset : Nat) (d : Driver) (ptr : Nat) (buffer : Bytes)
    (hptr : linearOffset ≤ ptr) (hhdr : P.headerLength ≤ ptr)
    (hend : ptr + buffer.length ≤ linearOffset + blocks.sum) (hne : buffer ≠ []) :
    ∃ status n fvb,
      writeBlocks P blocks linearOffset d ptr buffer =
        (status, { d with
          flash := P.program d.flash (ptr - P.headerLength) (buffer.take n)
          faults := { d.faults with fvb := fvb } }) ∧
      ((status = .success ∧ n = buffer.length) ∨ (status = .deviceError ∧ n < buffer.length)) ∧
      (d.faults.fvb = [] → status = .success ∧ fvb = []) := by
  have hpos : 0 < buffer.length := length_pos_iff.mpr hne
  induction blocks generalizing linearOffset d ptr buffer with
  | nil => simp at hend; omega
  | cons length blocks ih =>
      rw [writeBlocks]
      by_cases hin : linearOffset ≤ ptr ∧ ptr < linearOffset + length
      · rw [if_pos hin]
        by_cases hfit : ptr + buffer.length ≤ linearOffset + length
        · rw [if_pos hfit, fvbWrite]
          cases hfault : d.faults.fvb.headD false with
          | true =>
              refine ⟨.deviceError, 0, d.faults.fvb.tail, by simp, Or.inr ⟨rfl, hpos⟩, ?_⟩
              intro hnil
              rw [hnil] at hfault
              cases hfault
          | false =>
              refine ⟨.success, buffer.length, d.faults.fvb.tail, by simp, Or.inl ⟨rfl, rfl⟩, ?_⟩
              intro hnil
              exact ⟨rfl, by rw [hnil]; rfl⟩
        · rw [if_neg hfit]
          simp only [fvbWrite]
          cases hfault : d.faults.fvb.headD false with
          | true =>
              refine ⟨.deviceError, 0, d.faults.fvb.tail, by simp [EfiStatus.isError],
                Or.inr ⟨rfl, hpos⟩, ?_⟩
              intro hnil
              rw [hnil] at hfault
              cases hfault
          | false =>
              -- The first block is full; the rest of the bytes starts the next one.
              have hsize : linearOffset + length - ptr < buffer.length := by omega
              have hsum : (length :: blocks).sum = length + blocks.sum := sum_cons
              have hrest : (buffer.drop (linearOffset + length - ptr)).length =
                  buffer.length - (linearOffset + length - ptr) := length_drop
              obtain ⟨status, n, fvb, heq, hres, hfvb⟩ :=
                ih (linearOffset + length)
                  { d with
                    flash := P.program d.flash (ptr - P.headerLength)
                      (buffer.take (linearOffset + length - ptr))
                    faults := { d.faults with fvb := d.faults.fvb.tail } }
                  (linearOffset + length) (buffer.drop (linearOffset + length - ptr))
                  le_rfl (by omega) (by omega)
                  (by rw [← length_pos_iff]; omega) (by omega)
              refine ⟨status, (linearOffset + length - ptr) + n, fvb, ?_, ?_, ?_⟩
              · simp only [EfiStatus.isError, bne_self_eq_false, Bool.false_eq_true, if_false, heq]
                have hoff : linearOffset + length - P.headerLength =
                    ptr - P.headerLength +
                      (buffer.take (linearOffset + length - ptr)).length := by
                  rw [length_take]; omega
                rw [hoff, Platform.program, Platform.program, overlay_overlay, ← take_add]
                rfl
              · rcases hres with ⟨hs, hn⟩ | ⟨hs, hn⟩
                · exact Or.inl ⟨hs, by omega⟩
                · exact Or.inr ⟨hs, by omega⟩
              · intro hnil
                exact hfvb (by simp [hnil])
      · rw [if_neg hin]
        have hsum : (length :: blocks).sum = length + blocks.sum := sum_cons
        exact ih (linearOffset + length) d ptr buffer (by omega) hhdr (by omega) hne hpos

theorem updateVariableStore_nv
    (d : Driver) (offset : Nat) (buffer : Bytes) (hne : buffer ≠ []) :
    (updateVariableStore P d false offset buffer = (.invalidParameter, d) ∧
      (d.fvbInstance = false ∨ P.fvLength ≤ P.headerLength + offset + buffer.length)) ∨
    ∃ status n fvb,
      updateVariableStore P d false offset buffer =
        (status, d.wrote (P.program d.flash offset (buffer.take n)) fvb) ∧
      ((status = .success ∧ n = buffer.length) ∨ (status = .deviceError ∧ n < buffer.length)) ∧
      (d.faults.fvb = [] → status = .success ∧ fvb = []) := by
  rw [updateVariableStore, if_neg (by decide)]
  cases hfvb : d.fvbInstance with
  | false => exact Or.inl ⟨rfl, Or.inl rfl⟩
  | true =>
      rw [if_neg (by decide)]
      by_cases hend : P.fvLength ≤ P.headerLength + offset + buffer.length
      · exact Or.inl ⟨if_pos hend, Or.inr hend⟩
      · right
        rw [if_neg hend]
        obtain ⟨status, n, fvb, heq, hres, hok⟩ :=
          writeBlocks_spec P P.blockLengths 0 d (P.headerLength + offset) buffer
            (by omega) (by omega) (by unfold Platform.fvLength at hend; omega) hne
        refine ⟨status, n, fvb, ?_, hres, hok⟩
        rw [heq, Nat.add_sub_cancel_left]
        rfl

theorem isError_eq_false {status : EfiStatus} : status.isError = false ↔ status = .success := by
  simp [EfiStatus.isError]

theorem isError_eq_true {status : EfiStatus} : status.isError = true ↔ status ≠ .success := by
  simp [EfiStatus.isError]

theorem writeState_nv
    (d : Driver) (ptr : Nat) (mask : UInt8) :
    let newState := state (d.flash.drop ptr) &&& mask
    ∃ status, (writeState P d false ptr mask).1 = status ∧
      ((status ≠ .success ∧
          ((writeState P d false ptr mask).2 = d ∨
            ∃ fvb, (d.faults.fvb = [] → fvb = []) ∧
              (writeState P d false ptr mask).2 = d.wrote d.flash fvb)) ∨
        (status = .success ∧ ∃ fvb, (d.faults.fvb = [] → fvb = []) ∧
          (writeState P d false ptr mask).2 =
            { d.wrote (P.program d.flash (ptr + 2) [newState]) fvb with
              mNvVariableCache := copyMem d.mNvVariableCache (ptr + 2) [newState] })) := by
  intro newState
  unfold writeState
  simp only [Driver.updatedStore, Bool.false_eq_true, if_false, Bool.or_false]
  rcases updateVariableStore_nv P d (ptr + 2) [newState] (by simp) with
    ⟨heq, _⟩ | ⟨status, n, fvb, heq, hres, hfvb⟩
  · rw [heq]
    exact ⟨.invalidParameter, rfl, Or.inl ⟨by decide, Or.inl rfl⟩⟩
  · rw [heq]
    rcases hres with ⟨rfl, rfl⟩ | ⟨rfl, hn⟩
    · exact ⟨.success, rfl, Or.inr ⟨rfl, fvb, fun hd => (hfvb hd).2, by
        simp [EfiStatus.isError, newState, Driver.wrote]⟩⟩
    · have hn0 : n = 0 := by simpa using hn
      subst hn0
      exact ⟨.deviceError, rfl, Or.inl ⟨by decide, Or.inr ⟨fvb, fun hd => (hfvb hd).2, by
        simp [EfiStatus.isError]⟩⟩⟩

theorem writeSequence_success
    (hinst : d.fvbInstance = true) (hfvb : d.faults.fvb = [])
    (hroom : ∀ w ∈ writes, w.2 ≠ [] ∧ P.headerLength + w.1 + w.2.length < P.fvLength) :
    (writeSequence P d writes).1 = .success := by
  induction writes generalizing d with
  | nil => rfl
  | cons w writes ih =>
      obtain ⟨offset, buffer⟩ := w
      obtain ⟨hne, hend⟩ := hroom (offset, buffer) mem_cons_self
      rw [writeSequence]
      rcases updateVariableStore_nv P d offset buffer hne with
        ⟨-, hrefused⟩ | ⟨status, n, fvb, heq, -, hok⟩
      · rcases hrefused with hnone | hfull
        · rw [hinst] at hnone
          cases hnone
        · simp only at hend
          omega
      · obtain ⟨rfl, rfl⟩ := hok hfvb
        rw [heq]
        exact ih hinst rfl (fun w hw => hroom w (mem_cons_of_mem _ hw))

theorem writeSequence_refused
    (hfvb : d.faults.fvb = [])
    (hroom : ∀ w ∈ writes, w.2 ≠ [] ∧ P.headerLength + w.1 + w.2.length < P.fvLength)
    (herr : (writeSequence P d writes).1 ≠ .success) : (writeSequence P d writes).2 = d := by
  cases hinst : d.fvbInstance with
  | true => exact absurd (writeSequence_success P hinst hfvb hroom) herr
  | false =>
      cases writes with
      | nil => rfl
      | cons w writes =>
          have hrefused : updateVariableStore P d false w.1 w.2 = (.invalidParameter, d) := by
            simp [updateVariableStore, hinst]
          rw [writeSequence, hrefused]
          rfl

/-- Flash images of a sequence of writes: started from `flash` it ends in `last`, and every
image that a failing write can leave satisfies `Q`. -/
inductive Chain (Q : Bytes → Prop) : Bytes → List (Nat × Bytes) → Bytes → Prop
  | nil (flash : Bytes) : Chain Q flash [] flash
  | cons {flash last : Bytes} {offset : Nat} {buffer : Bytes} {writes : List (Nat × Bytes)}
      (hne : buffer ≠ [])
      (hpart : ∀ n < buffer.length, Q (P.program flash offset (buffer.take n)))
      (hrest : Chain Q (P.program flash offset buffer) writes last) :
      Chain Q flash ((offset, buffer) :: writes) last

theorem Chain.start {Q : Bytes → Prop} {flash last : Bytes}
    (h : Chain P Q flash writes last) : (writes = [] ∧ flash = last) ∨ Q flash := by
  cases h with
  | nil => exact Or.inl ⟨rfl, rfl⟩
  | cons hne hpart _ =>
      right
      simpa using hpart 0 (length_pos_iff.mpr hne)

/-- The driver after some store writes that left `flash`. -/
def Driver.programmed (d : Driver) (flash : Bytes) (fvb : List Bool) (history : List Bytes) :
    Driver :=
  { d with flash := flash, faults := { d.faults with fvb := fvb }, history := history }

/-- What a sequence of writes leaves behind. -/
theorem writeSequence_chain
    {Q : Bytes → Prop} {last : Bytes}
    (h : Chain P Q d.flash writes last) :
    ∃ status flash fvb history,
      writeSequence P d writes = (status, d.programmed flash fvb history) ∧
      (d.faults.fvb = [] → fvb = []) ∧ flash.length = d.flash.length ∧
      ∃ new, history = new ++ d.history ∧
        ((status ≠ .success ∧ Q flash ∧ ∀ img ∈ new, Q img) ∨
          (status = .success ∧ flash = last ∧ ∀ img ∈ new, Q img ∨ img = last)) := by
  induction writes generalizing d with
  | nil =>
      cases h
      exact ⟨.success, d.flash, d.faults.fvb, d.history, rfl, id, rfl, [], rfl,
        Or.inr ⟨rfl, rfl, by simp⟩⟩
  | cons w writes ih =>
      obtain ⟨offset, buffer⟩ := w
      cases h with
      | cons hne hpart hrest =>
          have hzero : Q d.flash := by
            simpa using hpart 0 (length_pos_iff.mpr hne)
          rw [writeSequence]
          rcases updateVariableStore_nv P d offset buffer hne with
            ⟨heq, -⟩ | ⟨status, n, fvb, heq, hres, hfvb⟩
          · rw [heq]
            exact ⟨.invalidParameter, d.flash, d.faults.fvb, d.history, rfl, id, rfl, [], rfl,
              Or.inl ⟨by decide, hzero, by simp⟩⟩
          · rw [heq]
            rcases hres with ⟨rfl, rfl⟩ | ⟨rfl, hn⟩
            · rw [take_length]
              obtain ⟨status', flash, fvb', history, hseq, hfvb', hlen, new, hnew, hend⟩ :=
                ih (d := d.wrote (P.program d.flash offset buffer) fvb) hrest
              refine ⟨status', flash, fvb', history, ?_, ?_, ?_,
                new ++ [P.program d.flash offset buffer], ?_, ?_⟩
              · simp only [EfiStatus.isError, bne_self_eq_false, Bool.false_eq_true, if_false, hseq]
                rfl
              · exact fun hd => hfvb' (hfvb hd).2
              · rw [hlen]
                exact program_length P d.flash offset buffer
              · rw [hnew, append_assoc]
                rfl
              · rcases hend with ⟨herr, hflash, himgs⟩ | ⟨hok, hflash, himgs⟩
                · left
                  refine ⟨herr, hflash, ?_⟩
                  -- The write that failed is a later one, so this image was not the last.
                  have hstart : Q (P.program d.flash offset buffer) := by
                    rcases hrest.start with ⟨rfl, -⟩ | hq
                    · rw [writeSequence] at hseq
                      exact absurd (congrArg Prod.fst hseq).symm herr
                    · exact hq
                  intro img himg
                  rcases mem_append.mp himg with himg | himg
                  · exact himgs img himg
                  · rw [mem_singleton.mp himg]
                    exact hstart
                · right
                  refine ⟨hok, hflash, ?_⟩
                  intro img himg
                  rcases mem_append.mp himg with himg | himg
                  · exact himgs img himg
                  · rw [mem_singleton.mp himg]
                    rcases hrest.start with ⟨-, hlast⟩ | hq
                    · exact Or.inr hlast
                    · exact Or.inl hq
            · refine ⟨.deviceError, P.program d.flash offset (buffer.take n), fvb,
                P.program d.flash offset (buffer.take n) :: d.history, by
                  simp [EfiStatus.isError, Driver.wrote, Driver.programmed],
                fun hd => (hfvb hd).2, program_length ..,
                [P.program d.flash offset (buffer.take n)], rfl,
                Or.inl ⟨by decide, hpart n hn, ?_⟩⟩
              intro img himg
              rw [mem_singleton.mp himg]
              exact hpart n hn

end Blocks

end Variable
end Udk
