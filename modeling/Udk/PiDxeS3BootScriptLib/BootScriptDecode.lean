import Udk.PiDxeS3BootScriptLib.BootScriptTable

/-!
# Decoding the records

The interpreter reads from the record of a call what the call was given, and does its operation.
-/

namespace Udk
namespace BootScript

open List

universe u

section Fields

variable {mem : Memory} {script n off w k x : Nat} {record rest data : Bytes}

theorem fieldAt_eq
    (hrecord : peek mem script n = record)
    (hle : off + w ≤ n) :
    fieldAt mem script off w = field record off w := by
  rw [fieldAt, field, slice, ← hrecord, drop_peek (by omega), take_peek (by omega)]

theorem field_skip
    (hle : k ≤ off) :
    field (toLE k x ++ rest) off w = field rest (off - k) w := by
  have hlength : (toLE k x).length ≤ off := by rwa [toLE_length]
  rw [field, slice, drop_append, drop_eq_nil_of_le hlength, nil_append, toLE_length]
  rfl

theorem field_here : field (toLE w x ++ rest) 0 w = x % 256 ^ w := by
  rw [field, slice, drop_zero, take_left' (toLE_length w x), ofLE_toLE]

theorem field_last : field (toLE w x) 0 w = x % 256 ^ w := by
  rw [← append_nil (toLE w x), field_here]

theorem field_peek
    (hle : off + w ≤ n) :
    field (peek mem 0 n) off w = valueAt mem off w := by
  rw [field, slice, drop_peek (by omega), take_peek (by omega), Nat.zero_add, valueAt]

theorem field_append_right
    {a b : Bytes}
    (hle : a.length ≤ off) :
    field (a ++ b) off w = field b (off - a.length) w := by
  rw [field, slice, drop_append, drop_eq_nil_of_le hle, nil_append]
  rfl

theorem valueAt_lt : valueAt mem off w < 256 ^ w := by
  have h := ofLE_lt (peek mem off w)
  rwa [length_peek] at h

theorem field_masked_data {width : LibWidth} {data dataMask : Memory} :
    field (maskedData width data dataMask) 0 width.size = valueAt data 0 width.size := by
  rw [maskedData, ← LibWidth.size, field_append_left _ (by rw [length_peek, Nat.zero_add]),
    field_peek (by omega)]

theorem field_masked_mask {width : LibWidth} {data dataMask : Memory} :
    field (maskedData width data dataMask) width.size width.size =
      valueAt dataMask 0 width.size := by
  rw [maskedData, ← LibWidth.size, field_append_right (by rw [length_peek]), length_peek,
    Nat.sub_self, field_peek (by omega)]

end Fields

section Accesses

variable {σ : Type u} {m : Machine σ} {space : Space} {width : LibWidth} {address a : Nat} {s : σ}
  {delay : σ → σ}

theorem and_size_sub_one : address &&& (width.size - 1) = address % width.size := by
  have hpow : ∃ n, width.size = 2 ^ n := by
    cases width
    all_goals first
      | exact ⟨0, rfl⟩ | exact ⟨1, rfl⟩ | exact ⟨2, rfl⟩ | exact ⟨3, rfl⟩
  obtain ⟨n, hn⟩ := hpow
  rw [hn, Nat.and_two_pow_sub_one_eq_mod]

theorem code_lt : width.code < widthMaximum := by
  cases width <;> decide

theorem buildLoopData_eq :
    buildLoopData width.code address =
      if address % width.size = 0 then
        some (if width.isFifo then 0 else width.size, if width.isFill then 0 else width.size)
      else
        none := by
  have hsize : widthInByte width.code = width.size := rfl
  rw [buildLoopData, if_neg (Nat.not_le.mpr code_lt)]
  simp only [hsize, and_size_sub_one]
  by_cases halign : address % width.size = 0
  · rw [if_neg (not_not.mpr halign), if_pos halign]
    rfl
  · rw [if_pos halign, if_neg halign]

section

variable (hpci : space = .pci → ¬ is64Bit width)
include hpci

theorem hasCase_eq :
    hasCase space width.code = true := by
  cases space with
  | io | mem => exact decide_eq_true code_lt
  | pci =>
      have h64 := hpci rfl
      cases width
      all_goals first
        | rfl
        | exact absurd (Or.inl rfl) h64
        | exact absurd (Or.inr (Or.inl rfl)) h64
        | exact absurd (Or.inr (Or.inr rfl)) h64

theorem scriptRead_eq :
    scriptRead m space width.code address s =
      match target space width address with
      | none => (.invalidParameter, 0, s)
      | some a => (.success, readValue m space width a s) := by
  rw [scriptRead, target]
  rcases accessAddress space address with - | a
  · rfl
  · simp only [buildLoopData_eq, hasCase_eq hpci]
    by_cases halign : a % width.size = 0
    · simp only [halign, if_true]
      rfl
    · simp only [halign, if_false]

/-- The loop of a write from one of its turns on. -/
theorem writeLoop_eq {fetch : σ → Nat → Nat} {buffer : Memory} {total : Nat}
    (ha : a < 2 ^ 64)
    (hfetch : ∀ i, i < total →
      fetch (writeAll m space width a buffer i s) (if width.isFill then 0 else i * width.size) =
        valueAt buffer (if width.isFill then 0 else i * width.size) width.size)
    (n i : Nat)
    (hsum : i + n = total) :
    writeLoop m space width.code fetch (if width.isFifo then 0 else width.size)
        (if width.isFill then 0 else width.size) a n
        (if width.isFifo then a else (a + i * width.size) % 2 ^ 64)
        (if width.isFill then 0 else i * width.size) (writeAll m space width a buffer i s) =
      (.success, writeAll m space width a buffer total s) := by
  induction n generalizing i with
  | zero =>
      rw [Nat.add_zero] at hsum
      rw [writeLoop, hsum]
  | succ n ih =>
      have hnext := ih (i + 1) (by omega)
      have haddress : ((if width.isFifo then a else (a + i * width.size) % 2 ^ 64) +
          if width.isFifo then 0 else width.size) % 2 ^ 64 =
          if width.isFifo then a else (a + (i + 1) * width.size) % 2 ^ 64 := by
        split_ifs with hfifo
        · rw [Nat.add_zero, Nat.mod_eq_of_lt ha]
        · rw [Nat.mod_add_mod, Nat.add_assoc, Nat.succ_mul]
      have hoffset : ((if width.isFill then 0 else i * width.size) +
          if width.isFill then 0 else width.size) =
          if width.isFill then 0 else (i + 1) * width.size := by
        split_ifs with hfill
        · rfl
        · rw [Nat.succ_mul]
      have htarget : (if 4 ≤ width.code ∧ width.code ≤ 7 then a
          else if width.isFifo then a else (a + i * width.size) % 2 ^ 64) =
          if width.isFifo then a else (a + i * width.size) % 2 ^ 64 := by
        change (if width.isFifo then a else if width.isFifo then a else
          (a + i * width.size) % 2 ^ 64) = _
        split_ifs with hfifo <;> rfl
      have hsource : (if 8 ≤ width.code ∧ width.code ≤ 11 then 0
          else if width.isFill then 0 else i * width.size) =
          if width.isFill then 0 else i * width.size := by
        change (if width.isFill then 0 else if width.isFill then 0 else i * width.size) = _
        split_ifs with hfill <;> rfl
      rw [writeLoop, if_pos (hasCase_eq hpci)]
      simp only [htarget, hsource, hfetch i (by omega), haddress, hoffset]
      exact hnext

end

theorem shiftLeft_lt {x b c : Nat}
    (hlt : x < 2 ^ b)
    (hle : b + c ≤ 28) :
    x <<< c < 2 ^ 28 := by
  rw [Nat.shiftLeft_eq]
  calc x * 2 ^ c < 2 ^ b * 2 ^ c := Nat.mul_lt_mul_of_pos_right hlt (Nat.pow_pos (by decide))
    _ = 2 ^ (b + c) := (Nat.pow_add _ _ _).symm
    _ ≤ 2 ^ 28 := Nat.pow_le_pow_right (by decide) hle

theorem pciAddressEncode_lt {x : Nat} : pciAddressEncode x < 2 ^ 28 := by
  rw [pciAddressEncode]
  refine Nat.or_lt_two_pow (Nat.or_lt_two_pow (Nat.or_lt_two_pow ?_ ?_) ?_) ?_
  · exact Nat.and_lt_two_pow _ (by decide)
  · exact shiftLeft_lt (b := 3) (Nat.and_lt_two_pow _ (by decide)) (by decide)
  · exact shiftLeft_lt (b := 5) (Nat.and_lt_two_pow _ (by decide)) (by decide)
  · exact shiftLeft_lt (b := 8) (Nat.and_lt_two_pow _ (by decide)) (by decide)

theorem accessAddress_lt
    (hlt : address < 2 ^ 64)
    (hplace : accessAddress space address = some a) :
    a < 2 ^ 64 := by
  cases space with
  | io =>
      rw [accessAddress] at hplace
      split_ifs at hplace
      exact Option.some_inj.mp hplace ▸ hlt
  | mem => exact Option.some_inj.mp hplace ▸ hlt
  | pci =>
      rw [← Option.some_inj.mp hplace]
      exact pciAddressEncode_lt.trans (by decide)

theorem scriptWrite_eq {fetch : σ → Nat → Nat} {buffer : Memory} {count : Nat}
    (hpci : space = .pci → ¬ is64Bit width)
    (haddress : address < 2 ^ 64)
    (hfetch : ∀ a, target space width address = some a → ∀ i, i < count →
      fetch (writeAll m space width a buffer i s) (if width.isFill then 0 else i * width.size) =
        valueAt buffer (if width.isFill then 0 else i * width.size) width.size) :
    scriptWrite m space width.code address count fetch s =
      performWrite m space width address count buffer s := by
  rw [scriptWrite, performWrite]
  rw [target] at hfetch ⊢
  rcases hplace : accessAddress space address with - | a
  · rfl
  · simp only [hplace] at hfetch ⊢
    rw [buildLoopData_eq]
    by_cases halign : a % width.size = 0
    · simp only [halign, if_true] at hfetch ⊢
      have hloop := writeLoop_eq hpci (accessAddress_lt haddress hplace) (hfetch a rfl) count 0 (Nat.zero_add _)
      rw [writeAll, Nat.zero_mul, Nat.add_zero, Nat.mod_eq_of_lt (accessAddress_lt haddress hplace)] at hloop
      rw [ite_self, ite_self] at hloop
      exact hloop
    · simp only [halign, if_false]

theorem readValue_lt : (readValue m space width a s).1 < 256 ^ width.size :=
  Nat.mod_lt _ (Nat.pow_pos (by decide))

theorem masked_lt {x y z : Nat}
    (hx : x < 256 ^ width.size)
    (hz : z < 256 ^ width.size) :
    x &&& y ||| z < 256 ^ width.size := by
  have hpow : 256 ^ width.size = 2 ^ (8 * width.size) := by
    rw [Nat.pow_mul]
  rw [hpow] at hx hz ⊢
  exact Nat.or_lt_two_pow (lt_of_le_of_lt Nat.and_le_left hx) hz

theorem scriptWrite_one {fetch : σ → Nat → Nat}
    (hpci : space = .pci → ¬ is64Bit width)
    (htarget : target space width address = some a) :
    scriptWrite m space width.code address 1 fetch s =
      (.success, m.write space width.size a (fetch s 0) s) := by
  rw [target] at htarget
  rw [scriptWrite]
  rcases hplace : accessAddress space address with - | b
  · simp only [hplace] at htarget
    cases htarget
  · simp only [hplace] at htarget ⊢
    split_ifs at htarget with halign
    cases htarget
    simp only [buildLoopData_eq, if_pos halign, writeLoop, hasCase_eq hpci, if_true, ite_self]
    rfl

theorem scriptReadWrite_eq {data dataMask : Memory}
    (hpci : space = .pci → ¬ is64Bit width) :
    scriptReadWrite m space width.code address (valueAt dataMask 0 width.size)
        (valueAt data 0 width.size) s =
      performReadWrite m space width address data dataMask s := by
  rw [scriptReadWrite, performReadWrite, scriptRead_eq hpci]
  rcases htarget : target space width address with - | a
  · rfl
  · simp only [scriptWrite_one hpci htarget, variableBuffer]
    rw [← LibWidth.size, Nat.mod_eq_of_lt (masked_lt readValue_lt valueAt_lt)]

theorem pollLoop_eq {dataMask data : Nat} (n : Nat)
    (hpci : space = .pci → ¬ is64Bit width)
    (htarget : target space width address = some a) :
    pollLoop m space width.code address dataMask data delay n s =
      pollTimes m space width a dataMask data delay n s := by
  induction n generalizing s with
  | zero => rfl
  | succ n ih =>
      rw [pollLoop, pollTimes, scriptRead_eq hpci, htarget]
      simp only [true_and, ih]

theorem pollLoop_none {dataMask data : Nat} (n : Nat)
    (hpci : space = .pci → ¬ is64Bit width)
    (htarget : target space width address = none) :
    pollLoop m space width.code address dataMask data delay n s = (.deviceError, delay^[n] s) := by
  induction n generalizing s with
  | zero => rfl
  | succ n ih =>
      rw [pollLoop, scriptRead_eq hpci, htarget]
      simp only [reduceCtorEq, false_and, if_false, ih]
      rfl

theorem scriptPoll_eq {data dataMask : Memory} {times : Nat}
    (hpci : space = .pci → ¬ is64Bit width) :
    scriptPoll m space width.code address (valueAt dataMask 0 width.size)
        (valueAt data 0 width.size) delay times s =
      performPoll m space width address data dataMask delay times s := by
  rw [scriptPoll, performPoll, scriptRead_eq hpci]
  rcases htarget : target space width address with - | a
  · simp only [reduceCtorEq, false_and, if_false]
    exact pollLoop_none times hpci htarget
  · simp only [true_and, pollLoop_eq times hpci htarget]

end Accesses

section Records

variable {σ : Type u} {m : Machine σ} {script n : Nat} {s : σ} {mem : Memory} {body : Bytes}
variable {space : Space} {width : LibWidth} {address count hdr : Nat} {rest tail : Bytes}
  {call : Call}

/-- A memory has a record with this behind the opcode and the length. -/
def Reads (mem : Memory) (script n : Nat) (body : Bytes) : Prop :=
  ∀ off w, 3 + off + w ≤ n → fieldAt mem script (3 + off) w = field body off w

theorem record_eq :
    call.record = toLE 2 call.entry.1 ++ (toLE 1 call.size ++
      (call.entry.2.1 ++ call.entry.2.2)) := by
  simp only [Call.record, append_assoc]

theorem reads_record
    (hrecord : peek mem script call.size = call.record) :
    Reads mem script call.size (call.entry.2.1 ++ call.entry.2.2) := by
  intro off w hle
  rw [fieldAt_eq hrecord hle, record_eq, field_skip (by omega), field_skip (by omega)]
  congr 1
  omega

theorem opcode_lt : call.entry.1 < 256 ^ 2 := by
  cases call <;> (simp only [Call.entry]; decide)

theorem header_record
    (hshort : call.size < 256)
    (hrecord : peek mem script call.size = call.record) :
    fieldAt mem script 0 2 = call.entry.1 ∧ fieldAt mem script 2 1 = call.size := by
  have hge := @size_ge call
  rw [fieldAt_eq hrecord (by omega), fieldAt_eq hrecord (by omega), record_eq, field_here,
    field_skip (Nat.le_refl 2), Nat.sub_self, field_here]
  exact ⟨Nat.mod_eq_of_lt opcode_lt, Nat.mod_eq_of_lt hshort⟩

theorem code_lt_pow : width.code < 256 ^ 4 := by
  cases width <;> decide

/-- The record of a write. -/
theorem executeWrite_record {keeps : σ → Prop} {buffer : Memory}
    (tail : Bytes)
    (hreads : ∀ s, keeps s → Reads (m.memory s) script n
      (toLE 4 width.code ++ (toLE 4 count ++ (toLE 8 address ++ (tail ++
        peek buffer 0 (width.size * count))))))
    (htail : hdr = 19 + tail.length)
    (hn : n = hdr + width.size * count)
    (hcount : count < 256 ^ 4)
    (haddress : address < 2 ^ 64)
    (hpci : space = .pci → ¬ is64Bit width)
    (hkeeps : keeps s)
    (hquiet : QuietWrite m keeps space width address count buffer s) :
    executeWrite m script s space hdr = performWrite m space width address count buffer s := by
  have hs := hreads s hkeeps
  have hwidth : fieldAt (m.memory s) script 3 4 = width.code := by
    rw [hs 0 4 (by omega), field_here, Nat.mod_eq_of_lt code_lt_pow]
  have hcount' : fieldAt (m.memory s) script 7 4 = count := by
    rw [hs 4 4 (by omega), field_skip (by decide), field_here, Nat.mod_eq_of_lt hcount]
  have haddress' : fieldAt (m.memory s) script 11 8 = address := by
    rw [hs 8 8 (by omega), field_skip (by decide), field_skip (by decide), field_here]
    exact Nat.mod_eq_of_lt haddress
  rw [executeWrite]
  simp only [hwidth, hcount', haddress']
  refine scriptWrite_eq hpci haddress fun a htarget i hi => ?_
  have hi' := hreads _ (hquiet a htarget i (Nat.le_of_lt hi))
  -- the data of this turn lie in the record
  have hend : (if width.isFill then 0 else i * width.size) + width.size ≤ width.size * count := by
    have hsucc : (i + 1) * width.size ≤ width.size * count := by
      rw [Nat.mul_comm width.size]
      exact Nat.mul_le_mul_right _ hi
    rw [Nat.succ_mul] at hsucc
    split_ifs <;> omega
  generalize (if width.isFill then 0 else i * width.size) = off at hend ⊢
  have hplace : memoryBuffer m width.code (script + hdr)
      (writeAll m space width a buffer i s) off =
      fieldAt (m.memory (writeAll m space width a buffer i s)) script (3 + (hdr - 3 + off))
        width.size := by
    rw [memoryBuffer, fieldAt, fieldAt, LibWidth.size]
    congr 2
    omega
  rw [hplace, hi' _ _ (by omega), field_skip (by omega), field_skip (by omega),
    field_skip (by omega), field_append_right (by omega)]
  have hoff : hdr - 3 + off - 4 - 4 - 8 - tail.length = off := by omega
  rw [hoff, field_peek hend]

theorem fields_record
    (hreads : Reads mem script n (toLE 4 width.code ++ (toLE 8 address ++ rest)))
    (hn : 15 ≤ n)
    (haddress : address < 2 ^ 64) :
    fieldAt mem script 3 4 = width.code ∧ fieldAt mem script 7 8 = address := by
  constructor
  · rw [hreads 0 4 (by omega), field_here, Nat.mod_eq_of_lt code_lt_pow]
  · rw [hreads 4 8 (by omega), field_skip (by decide), field_here]
    exact Nat.mod_eq_of_lt haddress

/-- Where `CheckAndOrMask` looks for the masks. -/
def maskOffset (opcode : Nat) : Option Nat :=
  if opcode = ioReadWriteOpcode ∨ opcode = memReadWriteOpcode ∨
      opcode = pciConfigReadWriteOpcode then
    some 15
  else if opcode = memPollOpcode then some 31
  else if opcode = ioPollOpcode ∨ opcode = pciConfigPollOpcode then some 23
  else if opcode = pciConfig2ReadWriteOpcode then some 17
  else if opcode = pciConfig2PollOpcode then some 25
  else none

theorem masks_record {size : Nat} {data dataMask : Memory}
    (opcode : Nat)
    (masks : Nat × Nat)
    (hsize : maskOffset opcode = some size)
    (hreads : Reads mem script n (tail ++ maskedData width data dataMask))
    (htail : size = 3 + tail.length)
    (hn : n = size + width.size * 2)
    (hplain : ¬ width.isFifo ∧ ¬ width.isFill) :
    checkAndOrMask script opcode width.code mem masks =
      (valueAt dataMask 0 width.size, valueAt data 0 width.size) := by
  have hdata : fieldAt mem script size width.size = valueAt data 0 width.size := by
    rw [htail, hreads _ _ (by omega), field_append_right (Nat.le_refl _), Nat.sub_self,
      field_masked_data]
  have hmask : fieldAt mem script (size + width.size) width.size =
      valueAt dataMask 0 width.size := by
    rw [htail, Nat.add_assoc, hreads _ _ (by omega), field_append_right (by omega),
      Nat.add_sub_cancel_left, field_masked_mask]
  rw [maskOffset] at hsize
  simp only [checkAndOrMask, hsize]
  cases width with
  | uint8 | uint16 | uint32 | uint64 => exact Prod.ext hmask hdata
  | fifoUint8 | fifoUint16 | fifoUint32 | fifoUint64 => exact absurd (by decide) hplain.1
  | fillUint8 | fillUint16 | fillUint32 | fillUint64 => exact absurd (by decide) hplain.2

theorem executeReadWrite_record
    (space : Space)
    (data dataMask : Memory)
    (hreads : Reads (m.memory s) script n (toLE 4 width.code ++ (toLE 8 address ++ rest)))
    (hn : 15 ≤ n)
    (haddress : address < 2 ^ 64)
    (hpci : space = .pci → ¬ is64Bit width) :
    executeReadWrite m script s space (valueAt dataMask 0 width.size) (valueAt data 0 width.size) =
      performReadWrite m space width address data dataMask s := by
  obtain ⟨hwidth, haddress'⟩ := fields_record hreads hn haddress
  rw [executeReadWrite]
  simp only [hwidth, haddress']
  exact scriptReadWrite_eq hpci

theorem executePoll_record {offset delay : Nat}
    (space : Space)
    (data dataMask : Memory)
    (tail : Bytes)
    (hreads : Reads (m.memory s) script n
      (toLE 4 width.code ++ (toLE 8 address ++ (tail ++ (toLE 8 delay ++ rest)))))
    (hoffset : offset = 15 + tail.length)
    (hn : offset + 8 ≤ n)
    (haddress : address < 2 ^ 64)
    (hdelay : delay < 2 ^ 64)
    (hpci : space = .pci → ¬ is64Bit width) :
    executePoll m script s space offset (valueAt dataMask 0 width.size)
        (valueAt data 0 width.size) =
      performPoll m space width address data dataMask (m.nanoSecondDelay 100) delay s := by
  obtain ⟨hwidth, haddress'⟩ := fields_record hreads (by omega) haddress
  have hdelay' : fieldAt (m.memory s) script offset 8 = delay := by
    have hsum : offset = 3 + (offset - 3) := by omega
    rw [hsum, hreads _ _ (by omega), field_skip (by omega), field_skip (by omega),
      field_append_right (by omega)]
    have hzero : offset - 3 - 4 - 8 - tail.length = 0 := by omega
    rw [hzero, field_here]
    exact Nat.mod_eq_of_lt hdelay
  rw [executePoll]
  simp only [hwidth, haddress', hdelay']
  exact scriptPoll_eq hpci

end Records

section Entry

variable {σ : Type u} {m : Machine σ} {script : Nat} {s : σ} {call : Call} {masks : Nat × Nat}
variable {width : LibWidth} {count : UInt64} {buffer : Memory} {refused : Prop}

theorem writeData_eq
    (hshort : width.size * count.toNat < 256) :
    writeData width count buffer = peek buffer 0 (width.size * count.toNat) := by
  rw [writeData, ← LibWidth.size, Nat.mod_eq_of_lt (by omega)]

theorem count_lt
    (hshort : width.size * count.toNat < 256) :
    count.toNat < 256 ^ 4 := by
  have hle : count.toNat ≤ width.size * count.toNat := Nat.le_mul_of_pos_left _ size_pos
  omega

theorem not_refused [Decidable refused]
    (hverdict : (if refused then EfiStatus.invalidParameter else .success) = .success) :
    ¬ refused := by
  intro h
  rw [if_pos h] at hverdict
  cases hverdict

theorem reads_body {body : Bytes}
    (hbody : call.entry.2.1 ++ call.entry.2.2 = body) :
    ∀ s, peek (m.memory s) script call.size = call.record →
      Reads (m.memory s) script call.size body :=
  fun _ hrecord => hbody ▸ reads_record hrecord

theorem checkParameters_length {smBusAddress operation length : Nat} {buffer : Option Memory}
    (hcheck : (checkParameters smBusAddress operation length buffer).1 = .success) :
    (operation = 3 ∨ operation = 5 →
        1 ≤ (checkParameters smBusAddress operation length buffer).2) ∧
      (operation = 7 ∨ operation = 10 →
        2 ≤ (checkParameters smBusAddress operation length buffer).2) := by
  have htransfer : ∀ required, (if buffer.isNone = true then (EfiStatus.invalidParameter, length)
      else (if length < required then .bufferTooSmall else .success, required)).1 = .success →
      required ≤ (if buffer.isNone = true then (EfiStatus.invalidParameter, length)
        else (if length < required then .bufferTooSmall else .success, required)).2 := by
    intro required h
    split_ifs at h ⊢
    · exact Nat.le_refl _
  constructor
  · rintro (rfl | rfl)
    · simp only [checkParameters] at hcheck ⊢
      split_ifs at hcheck ⊢ with hcommand
      · exact Nat.le_refl 1
    · exact htransfer 1 hcheck
  · rintro (rfl | rfl)
    · exact htransfer 2 hcheck
    · exact htransfer 2 hcheck

theorem smbusExecute_congr {smBusAddress operation length : Nat} {bytes bytes' : Nat → Bytes}
    (hsame : ∀ n, n ≤ length → bytes n = bytes' n)
    (hone : operation = 3 ∨ operation = 5 → 1 ≤ length)
    (htwo : operation = 7 ∨ operation = 10 → 2 ≤ length) :
    smbusExecute m smBusAddress operation length bytes s =
      smbusExecute m smBusAddress operation length bytes' s := by
  rw [smbusExecute.eq_def, smbusExecute.eq_def]
  split
  case h_1 | h_2 | h_3 | h_4 | h_5 | h_6 => rfl
  case h_7 => rw [hsame 1 (hone (Or.inl rfl))]
  case h_8 => rw [hsame 1 (hone (Or.inr rfl))]
  case h_9 => rw [hsame 2 (htwo (Or.inl rfl))]
  case h_10 => rw [hsame 2 (htwo (Or.inr rfl))]
  case h_11 | h_12 => rw [hsame length (Nat.le_refl _)]
  case h_13 => rfl

/-- The masks of a record, and what the entry reads in front of them. -/
theorem masked_call
    (masks : Nat × Nat) (width : LibWidth) (address : UInt64) (data dataMask : Memory)
    (rest : Bytes)
    (hopcode : maskOffset call.entry.1 = some (15 + rest.length))
    (hbody : call.entry.2.1 ++ call.entry.2.2 = toLE 4 width.code ++ (toLE 8 address.toNat ++
      (rest ++ maskedData width data dataMask)))
    (hsize : call.size = 15 + rest.length + width.size * 2)
    (hplain : ¬ width.isFifo ∧ ¬ width.isFill)
    (hrecord : peek (m.memory s) script call.size = call.record) :
    checkAndOrMask script call.entry.1 (fieldAt (m.memory s) script 3 4) (m.memory s) masks =
        (valueAt dataMask 0 width.size, valueAt data 0 width.size) ∧
      Reads (m.memory s) script call.size (toLE 4 width.code ++ (toLE 8 address.toNat ++
        (rest ++ maskedData width data dataMask))) := by
  have hreads := reads_body hbody s hrecord
  refine ⟨?_, hreads⟩
  rw [(fields_record hreads (by omega) address.toNat_lt).1]
  have hmasks : Reads (m.memory s) script call.size
      ((toLE 4 width.code ++ (toLE 8 address.toNat ++ rest)) ++ maskedData width data dataMask) := by
    simpa only [append_assoc] using hreads
  refine masks_record _ masks hopcode hmasks ?_ hsize hplain
  simp only [length_append, toLE_length]
  omega

/-- An entry with the record of a call is the operation of the call. -/
theorem executeEntry_record
    (hshort : call.size < 256)
    (hverdict : call.verdict = .success)
    (hmasks : ∀ width, call.maskWidth = some width → ¬ width.isFifo ∧ ¬ width.isFill)
    (hrecord : peek (m.memory s) script call.size = call.record)
    (hquiet : Quiet m (fun s => peek (m.memory s) script call.size = call.record) s call) :
    ∃ masks', executeEntry m script s masks =
      .next (perform m s call).1 masks' (perform m s call).2 := by
  obtain ⟨hopcode, -⟩ := header_record hshort hrecord
  cases call with
  | ioWrite width address count buffer | memWrite width address count buffer
  | pciCfgWrite width address count buffer =>
      have hdata : width.size * count.toNat < 256 := Nat.lt_of_le_of_lt (Nat.le_add_left _ _) hshort
      refine ⟨masks, ?_⟩
      rw [perform, ← executeWrite_record [] (reads_body (by
          simp only [Call.entry, append_assoc, writeData_eq hdata, nil_append]))
        rfl rfl (count_lt hdata) address.toNat_lt ?_ hrecord hquiet, executeEntry]
      · simp only [hopcode, Call.entry]
        rfl
      · first
          | exact fun _ => not_refused hverdict
          | exact fun h => by cases h
  | ioReadWrite width address data dataMask | memReadWrite width address data dataMask
  | pciCfgReadWrite width address data dataMask =>
      obtain ⟨hmask, hreads⟩ := masked_call masks width address data dataMask [] rfl
        (by simp only [Call.entry, append_assoc, nil_append]) rfl (hmasks width rfl)
        hrecord
      refine ⟨(valueAt dataMask 0 width.size, valueAt data 0 width.size), ?_⟩
      rw [perform, ← executeReadWrite_record _ data dataMask hreads (by rw [Call.size]; omega)
        address.toNat_lt, executeEntry]
      · simp only [hopcode, hmask]
        rfl
      · first
          | exact fun _ => not_refused hverdict
          | exact fun h => by cases h
  | pciCfg2Write width segment address count buffer =>
      have hdata : width.size * count.toNat < 256 := Nat.lt_of_le_of_lt (Nat.le_add_left _ _) hshort
      refine ⟨masks, ?_⟩
      have hexecute := executeWrite_record (toLE 2 segment.toNat)
        (reads_body (by simp only [Call.entry, append_assoc, writeData_eq hdata]))
        rfl rfl (count_lt hdata) address.toNat_lt (fun _ h => not_refused hverdict (Or.inr h)) hrecord hquiet
      rw [perform, ← hexecute, executeEntry]
      simp only [hopcode, Call.entry]
      rfl
  | pciCfg2ReadWrite width segment address data dataMask =>
      obtain ⟨hmask, hreads⟩ := masked_call masks width address data dataMask
        (toLE 2 segment.toNat) rfl (by simp only [Call.entry, append_assoc]) rfl
        (hmasks width rfl) hrecord
      refine ⟨(valueAt dataMask 0 width.size, valueAt data 0 width.size), ?_⟩
      rw [perform, ← executeReadWrite_record .pci data dataMask hreads (by rw [Call.size]; omega)
        address.toNat_lt (fun _ h => not_refused hverdict (Or.inr h)), executeEntry]
      simp only [hopcode, hmask]
      rfl
  | ioPoll width address data dataMask delay | pciPoll width address data dataMask delay =>
      obtain ⟨hmask, hreads⟩ := masked_call masks width address data dataMask
        (toLE 8 delay.toNat) rfl (by simp only [Call.entry, append_assoc]) rfl
        (hmasks width rfl) hrecord
      refine ⟨(valueAt dataMask 0 width.size, valueAt data 0 width.size), ?_⟩
      rw [perform, ← executePoll_record _ data dataMask [] hreads rfl (Nat.le_add_right _ _)
        address.toNat_lt delay.toNat_lt, executeEntry]
      · simp only [hopcode, hmask]
        rfl
      · first
          | exact fun _ => not_refused hverdict
          | exact fun h => by cases h
  | pci2Poll width segment address data dataMask delay =>
      obtain ⟨hmask, hreads⟩ := masked_call masks width address data dataMask
        (toLE 2 segment.toNat ++ toLE 8 delay.toNat) rfl
        (by simp only [Call.entry, append_assoc]) rfl (hmasks width rfl) hrecord
      rw [append_assoc] at hreads
      refine ⟨(valueAt dataMask 0 width.size, valueAt data 0 width.size), ?_⟩
      rw [perform, ← executePoll_record .pci data dataMask (toLE 2 segment.toNat) hreads rfl
        (Nat.le_add_right _ _) address.toNat_lt delay.toNat_lt
        (fun _ h => not_refused hverdict (Or.inr h)), executeEntry]
      simp only [hopcode, hmask]
      rfl
  | memPoll width address bitMask bitValue duration loopTimes =>
      obtain ⟨hmask, hfields⟩ := masked_call masks width address bitValue bitMask
        (toLE 8 duration.toNat ++ toLE 8 loopTimes.toNat) rfl
        (by simp only [Call.entry, append_assoc]) rfl (hmasks width rfl) hrecord
      rw [append_assoc] at hfields
      obtain ⟨hwidth, haddress⟩ := fields_record hfields (by rw [Call.size]; omega)
        address.toNat_lt
      have hduration : fieldAt (m.memory s) script 15 8 = duration.toNat := by
        rw [hfields 12 8 (by rw [Call.size]; omega), field_skip (by decide),
          field_skip (by decide), field_here]
        exact Nat.mod_eq_of_lt duration.toNat_lt
      have htimes : fieldAt (m.memory s) script 23 8 = loopTimes.toNat := by
        rw [hfields 20 8 (by rw [Call.size]; omega), field_skip (by decide),
          field_skip (by decide), field_skip (by decide), field_here]
        exact Nat.mod_eq_of_lt loopTimes.toNat_lt
      refine ⟨(valueAt bitMask 0 width.size, valueAt bitValue 0 width.size), ?_⟩
      rw [perform, ← scriptPoll_eq (fun h => by cases h), ← hduration, ← htimes, ← haddress,
        executeEntry]
      simp only [hopcode, hmask]
      rw [← hwidth]
      rfl
  | stall operand | dispatch operand =>
      have hreads := reads_record hrecord
      have hoperand : fieldAt (m.memory s) script 3 8 = operand.toNat := by
        rw [hreads 0 8 (by simp only [Call.size]; omega)]
        simp only [Call.entry, append_nil, field_last]
        exact Nat.mod_eq_of_lt operand.toNat_lt
      refine ⟨masks, ?_⟩
      rw [perform, ← hoperand, executeEntry]
      simp only [hopcode, Call.entry]
      rfl
  | dispatch2 entryPoint context =>
      have hreads := reads_record hrecord
      have hentry : fieldAt (m.memory s) script 3 8 = entryPoint.toNat := by
        rw [hreads 0 8 (by simp only [Call.size]; omega)]
        simp only [Call.entry, append_nil, field_here]
        exact Nat.mod_eq_of_lt entryPoint.toNat_lt
      have hcontext : fieldAt (m.memory s) script 11 8 = context.toNat := by
        rw [hreads 8 8 (by simp only [Call.size]; omega)]
        simp only [Call.entry, append_nil]
        rw [field_skip (by decide), field_last]
        exact Nat.mod_eq_of_lt context.toNat_lt
      refine ⟨masks, ?_⟩
      rw [perform, ← hentry, ← hcontext, executeEntry]
      simp only [hopcode, Call.entry]
      rfl
  | information informationLength data =>
      refine ⟨masks, ?_⟩
      rw [perform, executeEntry]
      simp only [hopcode, Call.entry]
      rfl
  | smbusExecute smBusAddress operation length buffer =>
      obtain ⟨hone, htwo⟩ := checkParameters_length hverdict
      have hfields : Reads (m.memory s) script _ (toLE 8 smBusAddress.toNat ++
          (toLE 4 operation.toNat ++ (toLE 4 (smbusLength smBusAddress operation length buffer) ++
            peek (buffer.getD fun _ => 0) 0
              (smbusLength smBusAddress operation length buffer)))) :=
        reads_body (by simp only [Call.entry, append_assoc]) s hrecord
      have haddress : fieldAt (m.memory s) script 3 8 = smBusAddress.toNat := by
        rw [hfields 0 8 (by rw [Call.size]; omega), field_here]
        exact Nat.mod_eq_of_lt smBusAddress.toNat_lt
      have hoperation : fieldAt (m.memory s) script 11 4 = operation.toNat := by
        rw [hfields 8 4 (by rw [Call.size]; omega), field_skip (by decide), field_here]
        exact Nat.mod_eq_of_lt operation.toNat_lt
      have hlength : fieldAt (m.memory s) script 15 4 =
          smbusLength smBusAddress operation length buffer := by
        rw [hfields 12 4 (by rw [Call.size]; omega), field_skip (by decide),
          field_skip (by decide), field_here]
        rw [Call.size] at hshort
        exact Nat.mod_eq_of_lt (by omega)
      have hbytes : peek (m.memory s) (script + 19)
          (smbusLength smBusAddress operation length buffer) =
          peek (buffer.getD fun _ => 0) 0 (smbusLength smBusAddress operation length buffer) := by
        have hdrop := congrArg (List.drop 19) hrecord
        have hlen : (toLE 2 (Call.smbusExecute smBusAddress operation length buffer).entry.1 ++
            (toLE 1 (Call.smbusExecute smBusAddress operation length buffer).size ++
              (Call.smbusExecute smBusAddress operation length buffer).entry.2.1)).length = 19 := by
          simp only [Call.entry, length_append, toLE_length]
        rw [drop_peek (by rw [Call.size]; omega), Call.size, Nat.add_sub_cancel_left, record_eq,
          ← append_assoc, ← append_assoc, append_assoc (toLE 2 _),
          drop_left' hlen] at hdrop
        exact hdrop
      have hsame : smbusExecute m smBusAddress.toNat operation.toNat
          (smbusLength smBusAddress operation length buffer) (peek (m.memory s) (script + 19)) s =
          smbusExecute m smBusAddress.toNat operation.toNat
            (smbusLength smBusAddress operation length buffer)
            (peek (buffer.getD fun _ => 0) 0) s :=
        smbusExecute_congr (fun n hn => by rw [← take_peek hn, hbytes, take_peek hn]) hone htwo
      refine ⟨masks, ?_⟩
      rw [perform, ← hsame, ← haddress, ← hoperation, ← hlength, executeEntry]
      simp only [hopcode, Call.entry]
      rfl

end Entry

end BootScript
end Udk
