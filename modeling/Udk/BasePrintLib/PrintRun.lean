import Udk.BasePrintLib.PrintFormat

/-!
# Printing and counting

What is printed to a buffer is the text of the format, cut at the end of the buffer; what is
counted is the length of this text, unless a fill has a negative length.
-/

namespace Udk
namespace PrintLib

open List

section Passing

variable {sprint : List Nat → Args → List Nat} {c count n : Nat} {rest format : List Nat}
  {s : Spec} {args : Args} {p : Parsed}

end Passing

section Buffer

/-- The bytes of characters. -/
def encode (bytes : Nat) (text : List Nat) : Bytes :=
  text.flatMap (toLE bytes)

variable {mem mem₀ : Memory} {start bytes room buffer c n : Nat} {text : List Nat}

theorem length_encode : (encode bytes text).length = bytes * text.length := by
  induction text with
  | nil => rfl
  | cons c text ih =>
      rw [encode, flatMap_cons, length_append, toLE_length, length_cons,
        Nat.mul_succ, Nat.add_comm]
      rw [encode] at ih
      rw [ih]

theorem encode_append {text' : List Nat} :
    encode bytes (text ++ text') = encode bytes text ++ encode bytes text' :=
  flatMap_append

theorem storeBytes_nil {addr : Nat} : storeBytes mem addr [] = mem := by
  funext a
  rw [storeBytes, if_neg (by rw [length_nil]; omega)]

theorem storeBytes_append {addr : Nat} {data data' : Bytes} :
    storeBytes (storeBytes mem addr data) (addr + data.length) data' =
      storeBytes mem addr (data ++ data') := by
  funext a
  simp only [storeBytes, length_append]
  by_cases hfirst : addr ≤ a ∧ a < addr + data.length
  · rw [if_neg (by omega), if_pos hfirst, if_pos (by omega)]
    rw [getD_eq_getElem?_getD, getD_eq_getElem?_getD,
      getElem?_append_left (by omega)]
  · by_cases hsecond : addr + data.length ≤ a ∧ a < addr + data.length + data'.length
    · rw [if_pos hsecond, if_pos (by omega), getD_eq_getElem?_getD,
        getD_eq_getElem?_getD, getElem?_append_right (by omega), Nat.sub_add_eq]
    · rw [if_neg hsecond, if_neg hfirst, if_neg (by omega)]

/-- A text has been printed to a buffer with room for some characters. -/
structure Printed (mem₀ : Memory) (start bytes room : Nat) (text : List Nat) (mem : Memory)
    (buffer : Nat) : Prop where
  mem_eq : mem = storeBytes mem₀ start (encode bytes (text.take room))
  buffer_eq : buffer = start + bytes * min text.length room

theorem Printed.nil : Printed mem₀ start bytes room [] mem₀ start := by
  constructor
  case mem_eq => rw [take_nil, encode, flatMap_nil, storeBytes_nil]
  case buffer_eq => rw [length_nil, Nat.zero_min, Nat.mul_zero, Nat.add_zero]

theorem Printed.full {text' : List Nat}
    (hprinted : Printed mem₀ start bytes room text mem buffer)
    (hfull : room ≤ text.length) :
    Printed mem₀ start bytes room (text ++ text') mem buffer := by
  constructor
  case mem_eq => rw [hprinted.mem_eq, take_append_of_le_length hfull]
  case buffer_eq => rw [hprinted.buffer_eq, length_append]; congr 2; omega

theorem Printed.lt_end
    (hbytes : 0 < bytes)
    (hprinted : Printed mem₀ start bytes room text mem buffer) :
    buffer < start + room * bytes ↔ text.length < room := by
  rw [hprinted.buffer_eq, Nat.mul_comm room, Nat.add_lt_add_iff_left,
    Nat.mul_lt_mul_left hbytes]
  omega

theorem Printed.snoc
    (hprinted : Printed mem₀ start bytes room text mem buffer)
    (hroom : text.length < room) :
    Printed mem₀ start bytes room (text ++ [c]) (storeBytes mem buffer (toLE bytes c))
      (buffer + bytes) := by
  have htake : (text ++ [c]).take room = text ++ [c] :=
    take_of_length_le (by rw [length_append, length_singleton]; omega)
  have hmin : min text.length room = text.length := by omega
  have hmin' : min (text.length + 1) room = text.length + 1 := by omega
  have hmem := hprinted.mem_eq
  have hbuffer := hprinted.buffer_eq
  rw [take_of_length_le (Nat.le_of_lt hroom)] at hmem
  rw [hmin] at hbuffer
  constructor
  case mem_eq =>
    rw [htake, encode_append, ← storeBytes_append, length_encode, hmem, hbuffer, encode, encode,
      flatMap_singleton]
  case buffer_eq =>
    rw [length_append, length_singleton, hmin', hbuffer, Nat.mul_succ, Nat.add_assoc]

end Buffer

section Printing

variable {mem mem₀ : Memory} {start bytes room buffer character n : Nat} {text format : List Nat}
  {fills : List Fill} {args : Args} {o : Out}

theorem Printed.fillLoop
    (hbytes : 0 < bytes)
    (hfits : start + (room + 1) * bytes ≤ 2 ^ 64)
    (hprinted : Printed mem₀ start bytes room text mem buffer) :
    Printed mem₀ start bytes room (text ++ List.replicate n character)
      (fillLoop bytes (start + room * bytes) character n mem buffer).1
      (fillLoop bytes (start + room * bytes) character n mem buffer).2 := by
  induction n generalizing text mem buffer with
  | zero =>
      rw [replicate_zero, append_nil]
      exact hprinted
  | succ n ih =>
      rw [PrintLib.fillLoop]
      split_ifs with hlt
      · have hroom := (hprinted.lt_end hbytes).mp hlt
        have hnext : (buffer + bytes) % 2 ^ 64 = buffer + bytes :=
          Nat.mod_eq_of_lt (by rw [Nat.succ_mul] at hfits; omega)
        have hsnoc := hprinted.snoc (c := character) hroom
        rw [hnext, replicate_succ, ← singleton_append, ← append_assoc]
        exact ih hsnoc
      · have hfull : room ≤ text.length :=
          Nat.le_of_not_lt fun h => hlt ((hprinted.lt_end hbytes).mpr h)
        exact hprinted.full hfull

theorem Printed.terminate
    (hbytes : 0 < bytes)
    (hprinted : Printed mem₀ start bytes room text mem buffer) :
    ((buffer - start) / bytes,
        (basePrintLibFillBuffer bytes (start + room * bytes + bytes) (1, 0) mem buffer).1) =
      (min text.length room, storeBytes mem₀ start (encode bytes (text.take room ++ [0]))) := by
  have hbuffer := hprinted.buffer_eq
  have hmin := Nat.mul_le_mul_right bytes (Nat.min_le_right text.length room)
  have hlength : (encode bytes (text.take room)).length = bytes * min text.length room := by
    rw [length_encode, length_take, Nat.min_comm]
  have hlt : buffer < start + room * bytes + bytes := by
    rw [hbuffer, Nat.mul_comm bytes]
    omega
  have hlast : encode bytes [0] = toLE bytes 0 := append_nil _
  have hreturn : (buffer - start) / bytes = min text.length room := by
    rw [hbuffer, Nat.add_sub_cancel_left, Nat.mul_div_cancel_left _ hbytes]
  have hone : printedLength 1 = 1 := rfl
  rw [hreturn, basePrintLibFillBuffer, hone, PrintLib.fillLoop, if_pos hlt, PrintLib.fillLoop,
    encode_append, hlast, ← storeBytes_append, hlength, ← hbuffer, ← hprinted.mem_eq]

theorem Printed.foldl_put
    (hbytes : 0 < bytes)
    (hstart : start ≠ 0)
    (hfits : start + (room + 1) * bytes ≤ 2 ^ 64)
    (hprinted : Printed mem₀ start bytes room text o.mem o.buffer) :
    Printed mem₀ start bytes room (text ++ textOf fills)
      (fills.foldl (put false bytes (start + room * bytes)) o).mem
      (fills.foldl (put false bytes (start + room * bytes)) o).buffer := by
  induction fills generalizing text o with
  | nil =>
      rw [textOf, flatMap_nil, append_nil]
      exact hprinted
  | cons f fills ih =>
      have hsome : o.buffer ≠ 0 := by
        rw [hprinted.buffer_eq]
        omega
      rw [foldl_cons, textOf, flatMap_cons, ← append_assoc]
      refine ih ?_
      rw [put, if_pos ⟨rfl, hsome⟩]
      exact hprinted.fillLoop hbytes hfits

theorem Printed.loop
    (hbytes : 0 < bytes)
    (hstart : start ≠ 0)
    (hfits : start + (room + 1) * bytes ≤ 2 ^ 64)
    (hprinted : Printed mem₀ start bytes room text o.mem o.buffer) :
    Printed mem₀ start bytes room (text ++ textOf (fillsFrom basePrintLibSPrint n format args))
      (printLoop false bytes (start + room * bytes) n format args o).mem
      (printLoop false bytes (start + room * bytes) n format args o).buffer := by
  induction n generalizing text format args o with
  | zero =>
      rw [fillsFrom, textOf, flatMap_nil, append_nil]
      exact hprinted
  | succ n ih =>
      cases format with
      | nil =>
          rw [fillsFrom, textOf, flatMap_nil, append_nil]
          exact hprinted
      | cons c rest =>
          rw [printLoop]
          split_ifs with hend
          · have hfull : room ≤ text.length :=
              Nat.le_of_not_lt fun h => absurd ((hprinted.lt_end hbytes).mpr h)
                (Nat.not_lt.mpr hend.2)
            exact hprinted.full hfull
          · have hitem := @Printed.foldl_put mem₀ start bytes room text
              (formatStep basePrintLibSPrint c rest args).item.fills o hbytes hstart hfits hprinted
            rw [fillsFrom, textOf, flatMap_append, ← append_assoc]
            exact ih hitem

end Printing

section Counting

variable {bytes endBuffer n : Nat} {format : List Nat} {fills : List Fill} {args : Args} {o : Out}

/-- The sum of the lengths, as they are counted. -/
def lengthSum (fills : List Fill) : Nat :=
  (fills.map Prod.fst).sum

@[simp] theorem lengthSum_nil : lengthSum [] = 0 := rfl

theorem lengthSum_append {fills' : List Fill} :
    lengthSum (fills ++ fills') = lengthSum fills + lengthSum fills' := by
  rw [lengthSum, map_append, sum_append, lengthSum, lengthSum]

theorem foldl_put_count
    (hlt : o.lengthToReturn < 2 ^ 64) :
    fills.foldl (put true bytes endBuffer) o =
      { o with lengthToReturn := (o.lengthToReturn + lengthSum fills * bytes) % 2 ^ 64 } := by
  induction fills generalizing o with
  | nil =>
      rw [lengthSum_nil, Nat.zero_mul, Nat.add_zero, Nat.mod_eq_of_lt hlt]
      rfl
  | cons f fills ih =>
      have hstep : put true bytes endBuffer o f =
          { o with lengthToReturn := (o.lengthToReturn + f.1 * bytes) % 2 ^ 64 } := by
        rw [put, if_neg (fun h => Bool.noConfusion h.1)]
      have hsum : lengthSum (f :: fills) = f.1 + lengthSum fills := by
        rw [lengthSum, map_cons, sum_cons, lengthSum]
      rw [foldl_cons, hstep, ih (Nat.mod_lt _ (Nat.two_pow_pos 64)), hsum]
      simp only [Nat.mod_add_mod, Nat.add_mul, Nat.add_assoc]

theorem printLoop_count
    (hlt : o.lengthToReturn < 2 ^ 64)
    (hroom : ¬ (o.buffer ≠ 0 ∧ endBuffer ≤ o.buffer)) :
    printLoop true bytes endBuffer n format args o =
      { o with lengthToReturn := (o.lengthToReturn +
          lengthSum (fillsFrom basePrintLibSPrint n format args) * bytes) % 2 ^ 64 } := by
  induction n generalizing format args o with
  | zero =>
      simp only [fillsFrom, lengthSum_nil, Nat.zero_mul, Nat.add_zero, Nat.mod_eq_of_lt hlt]
      rfl
  | succ n ih =>
      cases format with
      | nil =>
          simp only [fillsFrom, lengthSum_nil, Nat.zero_mul, Nat.add_zero, Nat.mod_eq_of_lt hlt]
          rfl
      | cons c rest =>
          rw [printLoop, if_neg hroom]
          simp only [foldl_put_count hlt]
          rw [fillsFrom, lengthSum_append, ih]
          · simp only [Nat.mod_add_mod, Nat.add_mul, Nat.add_assoc]
          · exact Nat.mod_lt _ (Nat.two_pow_pos 64)
          · exact hroom

theorem printLoop_full
    (hfull : o.buffer ≠ 0 ∧ endBuffer ≤ o.buffer) :
    printLoop true bytes endBuffer n format args o = o := by
  cases n with
  | zero => rfl
  | succ n =>
      cases format with
      | nil => rfl
      | cons c rest => rw [printLoop, if_pos hfull]

/-- A length that is negative as an `INTN`, which is counted and not printed. -/
def negativeLength (length : Nat) : Nat :=
  if length < 2 ^ 63 then 0 else length

/-- The sum of the negative lengths. -/
def negativeSum (fills : List Fill) : Nat :=
  (fills.map fun f => negativeLength f.1).sum

theorem lengthSum_eq : lengthSum fills = (textOf fills).length + negativeSum fills := by
  induction fills with
  | nil => rfl
  | cons f fills ih =>
      have hlength : f.1 = printedLength f.1 + negativeLength f.1 := by
        rw [printedLength, negativeLength]
        split_ifs
        · rfl
        · exact (Nat.zero_add _).symm
      rw [lengthSum, map_cons, sum_cons, textOf, flatMap_cons,
        length_append, length_replicate, negativeSum, map_cons, sum_cons]
      rw [lengthSum, textOf, negativeSum] at ih
      omega

end Counting

section Consistency

/-- The fills that a format makes with its arguments. -/
def formatFills (formatUnicode : Bool) (format : Bytes) (args : Args) : List Fill :=
  fillsFrom basePrintLibSPrint (formatCharacters formatUnicode format).length
    (formatCharacters formatUnicode format) args

/-- The text of a format with its arguments. -/
def formatText (formatUnicode : Bool) (format : Bytes) (args : Args) : List Nat :=
  textOf (formatFills formatUnicode format args)

variable {outputUnicode formatUnicode : Bool} {format : Bytes} {args : Args} {mem : Memory}
  {buffer n countBuffer countSize : Nat}

theorem bytesPerOutputCharacter_cases :
    bytesPerOutputCharacter outputUnicode = 1 ∨ bytesPerOutputCharacter outputUnicode = 2 := by
  rw [bytesPerOutputCharacter]
  split_ifs
  · exact Or.inr rfl
  · exact Or.inl rfl

/-- Printing to a buffer of `n` characters: the first `n - 1` characters of the text and a
terminator, nothing else, and the number of these characters is returned. -/
theorem sprintMarker_prints
    (hbuffer : buffer ≠ 0)
    (hpos : 0 < n)
    (hfits : buffer + n * bytesPerOutputCharacter outputUnicode < 2 ^ 64) :
    basePrintLibSPrintMarker buffer n false outputUnicode formatUnicode format args mem =
      (min (formatText formatUnicode format args).length (n - 1),
        storeBytes mem buffer (encode (bytesPerOutputCharacter outputUnicode)
          ((formatText formatUnicode format args).take (n - 1) ++ [0]))) := by
  have hbytes : 0 < bytesPerOutputCharacter outputUnicode := by
    have := @bytesPerOutputCharacter_cases outputUnicode
    omega
  rw [basePrintLibSPrintMarker, if_neg (by omega)]
  generalize bytesPerOutputCharacter outputUnicode = bytes at *
  obtain ⟨room, rfl⟩ : ∃ room, n = room + 1 := ⟨n - 1, by omega⟩
  rw [Nat.succ_mul] at hfits
  have hend : (buffer + room * bytes) % 2 ^ 64 = buffer + room * bytes :=
    Nat.mod_eq_of_lt (by omega)
  have hlast : (buffer + room * bytes + bytes) % 2 ^ 64 = buffer + room * bytes + bytes :=
    Nat.mod_eq_of_lt (by omega)
  have hprinted := @Printed.loop mem buffer bytes room
    (formatCharacters formatUnicode format).length [] (formatCharacters formatUnicode format) args
    ⟨mem, buffer, 0⟩ hbytes hbuffer (by rw [Nat.succ_mul]; omega) Printed.nil
  rw [nil_append] at hprinted
  simp only [Bool.false_eq_true, false_and, if_false, if_pos hbuffer, Nat.add_sub_cancel, hend,
    hlast]
  generalize printLoop false bytes (buffer + room * bytes) _ _ args ⟨mem, buffer, 0⟩ = out
    at hprinted
  exact hprinted.terminate hbytes

/-- What is counted is the length of the text exactly when the negative lengths cancel out. -/
def CountsExactly (outputUnicode formatUnicode : Bool) (format : Bytes) (args : Args)
    (buffer bufferSize : Nat) : Prop :=
  if buffer ≠ 0 ∧ bufferSize = 1 then
    formatText formatUnicode format args = []
  else
    (formatText formatUnicode format args).length <
        2 ^ 64 / bytesPerOutputCharacter outputUnicode ∧
      2 ^ 64 / bytesPerOutputCharacter outputUnicode ∣
        negativeSum (formatFills formatUnicode format args)

theorem sprintMarker_counts
    (hfits : countBuffer + countSize * bytesPerOutputCharacter outputUnicode < 2 ^ 64) :
    basePrintLibSPrintMarker countBuffer countSize true outputUnicode formatUnicode format args
        mem =
      (if countBuffer ≠ 0 ∧ countSize = 1 then 0
        else lengthSum (formatFills formatUnicode format args) %
          (2 ^ 64 / bytesPerOutputCharacter outputUnicode), mem) := by
  have hbytes := @bytesPerOutputCharacter_cases outputUnicode
  rw [basePrintLibSPrintMarker, if_neg (fun h => Bool.noConfusion h.1)]
  generalize bytesPerOutputCharacter outputUnicode = bytes at *
  simp only [true_and, if_true]
  generalize hstart : (if countSize = 0 then 0 else countBuffer) = start
  generalize hend : (if start ≠ 0 then (start + (countSize - 1) * bytes) % 2 ^ 64 else 0) =
    endBuffer
  have hiff : (start ≠ 0 ∧ endBuffer ≤ start) ↔ (countBuffer ≠ 0 ∧ countSize = 1) := by
    by_cases hzero : countSize = 0
    · rw [if_pos hzero] at hstart
      omega
    · rw [if_neg hzero] at hstart
      subst hstart
      refine and_congr_right fun hsome => ?_
      obtain ⟨size, rfl⟩ : ∃ size, countSize = size + 1 := ⟨countSize - 1, by omega⟩
      rw [Nat.succ_mul] at hfits
      rw [if_pos hsome, Nat.add_sub_cancel, Nat.mod_eq_of_lt (by omega)] at hend
      rcases hbytes with rfl | rfl
      all_goals omega
  split_ifs with hfull
  · rw [printLoop_full (hiff.mpr hfull)]
    simp only [Nat.zero_div]
  · rw [printLoop_count (Nat.two_pow_pos 64) (fun h => hfull (hiff.mp h)), formatFills]
    simp only [Nat.zero_add]
    congr 1
    rcases hbytes with rfl | rfl
    all_goals omega

/-- Printing and counting agree on a text: at most `n` characters are written to the buffer, the
first `n - 1` of the text and a terminator, and the length of the text is counted. -/
structure PrintsConsistently (outputUnicode formatUnicode : Bool) (format : Bytes) (args : Args)
    (mem : Memory) (buffer n countBuffer countSize : Nat) : Prop where
  printed :
    basePrintLibSPrintMarker buffer n false outputUnicode formatUnicode format args mem =
      (min (formatText formatUnicode format args).length (n - 1),
        storeBytes mem buffer (encode (bytesPerOutputCharacter outputUnicode)
          ((formatText formatUnicode format args).take (n - 1) ++ [0])))
  counted :
    basePrintLibSPrintMarker countBuffer countSize true outputUnicode formatUnicode format args
        mem =
      ((formatText formatUnicode format args).length, mem)

/-- Printing is always bounded by its buffer; the count agrees with it exactly when no negative
length has been counted, up to multiples of the address space. -/
theorem sprintMarker_consistent
    (hbuffer : buffer ≠ 0)
    (hpos : 0 < n)
    (hfits : buffer + n * bytesPerOutputCharacter outputUnicode < 2 ^ 64)
    (hcount : countBuffer + countSize * bytesPerOutputCharacter outputUnicode < 2 ^ 64) :
    PrintsConsistently outputUnicode formatUnicode format args mem buffer n countBuffer
        countSize ↔
      CountsExactly outputUnicode formatUnicode format args countBuffer countSize := by
  have hcounts := @sprintMarker_counts outputUnicode formatUnicode format args mem countBuffer
    countSize hcount
  have hsum := @lengthSum_eq (formatFills formatUnicode format args)
  have hiff : CountsExactly outputUnicode formatUnicode format args countBuffer countSize ↔
      (if countBuffer ≠ 0 ∧ countSize = 1 then 0
        else lengthSum (formatFills formatUnicode format args) %
          (2 ^ 64 / bytesPerOutputCharacter outputUnicode)) =
        (formatText formatUnicode format args).length := by
    rw [CountsExactly]
    split_ifs
    · rw [← length_eq_zero_iff]
      exact eq_comm
    · rw [hsum, ← formatText]
      rcases @bytesPerOutputCharacter_cases outputUnicode with hbytes | hbytes
      all_goals
        rw [hbytes]
        omega
  constructor
  case mp =>
    intro hconsistent
    have h := hcounts.symm.trans hconsistent.counted
    exact hiff.mpr (congrArg Prod.fst h)
  case mpr =>
    intro hexact
    refine ⟨sprintMarker_prints hbuffer hpos hfits, ?_⟩
    rw [hcounts, hiff.mp hexact]

/-- `"%4d"` with 12, printed to a buffer of three characters. -/
theorem sprintMarker_consistent_sample :
    PrintsConsistently false false [0x25, 0x34, 0x64, 0] [.value 12] (fun _ => 0) 0x1000 3 0 0 ↔
      CountsExactly false false [0x25, 0x34, 0x64, 0] [.value 12] 0 0 :=
  sprintMarker_consistent (by decide) (by decide) (by decide) (by decide)

/-- `"%2d"` with 1234 prints four characters and counts two. -/
theorem sprintMarker_counts_less :
    ¬ PrintsConsistently false false [0x25, 0x32, 0x64, 0] [.value 1234] (fun _ => 0) 0x1000 16
        0 0 := by
  intro hconsistent
  have hcount := congrArg Prod.fst hconsistent.counted
  revert hcount
  decide +kernel

end Consistency

end PrintLib
end Udk
