import Udk.ByteMemory
import Udk.Bytes

/-!
# Formatted printing

`BasePrintLibSPrintMarker` of `PrintLibInternal.c` for 64-bit processors.  The body of the loop is
in two parts: what a character of the format asks for, an `Item`, and the fills of the output that
the item makes.  Every fill is counted, and it is printed when there is a buffer to print to.
-/

namespace Udk
namespace PrintLib

section Arguments

/-- `GUID`. -/
structure Guid where
  data1 : Nat
  data2 : Nat
  data3 : Nat
  data4 : List Nat
  deriving DecidableEq, Repr

/-- `TIME`: what is printed of it. -/
structure Time where
  year : Nat
  month : Nat
  day : Nat
  hour : Nat
  minute : Nat
  deriving DecidableEq, Repr

/-- An argument: a number in 64 bits, or a pointer, which may be `NULL`. -/
inductive Arg
  | value (v : Nat)
  | ascii (s : Option Bytes)
  | unicode (s : Option (List UInt16))
  | guid (g : Option Guid)
  | time (t : Option Time)

/-- The arguments that are ahead. -/
abbrev Args := List Arg

/-- The next argument as a number.  What does not match is read as 0 or `NULL`. -/
def Arg.toValue : Arg → Nat
  | value v => v % 2 ^ 64
  | _ => 0

def Arg.toAscii : Arg → Option Bytes
  | ascii s => s
  | _ => none

def Arg.toUnicode : Arg → Option (List UInt16)
  | unicode s => s
  | _ => none

def Arg.toGuid : Arg → Option Guid
  | guid g => g
  | _ => none

def Arg.toTime : Arg → Option Time
  | time t => t
  | _ => none

/-- `VA_ARG` and `BASE_ARG`. -/
def nextArg (args : Args) : Arg :=
  args.headD (.value 0)

end Arguments

/-- The character codes of a string. -/
def codes (s : String) : List Nat :=
  s.toList.map Char.toNat

/-- The characters of a format string in memory, up to its terminator. -/
def formatCharacters : Bool → Bytes → List Nat
  | false, b :: bs => if b = 0 then [] else b.toNat :: formatCharacters false bs
  | true, b₀ :: b₁ :: bs =>
      let c := b₀.toNat + 256 * b₁.toNat
      if c = 0 then [] else c :: formatCharacters true bs
  | _, _ => []

section Specification

/-- The flags of a conversion. -/
structure Flags where
  leftJustify : Bool := false
  prefixSign : Bool := false
  prefixBlank : Bool := false
  commaType : Bool := false
  longType : Bool := false
  prefixZero : Bool := false
  radixHex : Bool := false
  padToWidth : Bool := false
  precision : Bool := false
  unsignedType : Bool := false
  deriving DecidableEq, Repr

/-- Flags, width and precision, with their defaults. -/
structure Spec where
  flags : Flags := {}
  width : Nat := 0
  precision : Nat := 1
  deriving DecidableEq, Repr

/-- The digits of a width or a precision. -/
def takeNumber : List Nat → Nat → Nat × List Nat
  | [], count => (count, [])
  | c :: rest, count =>
      if '0'.toNat ≤ c ∧ c ≤ '9'.toNat then
        takeNumber rest ((count * 10 + (c - '0'.toNat)) % 2 ^ 64)
      else
        (count, c :: rest)

/-- A width or a precision is set. -/
def Spec.setNumber (s : Spec) (count : Nat) : Spec :=
  if s.flags.precision then
    { s with precision := count }
  else
    { s with flags := { s.flags with padToWidth := true }, width := count }

/-- What is parsed behind a `%`: the type, 0 where the format ends, and what is ahead. -/
structure Parsed where
  type : Nat
  spec : Spec
  rest : List Nat
  args : Args

/-- The loop that parses flags, width and precision.  Each turn passes a character of the format,
so its length bounds the turns. -/
def parseSpec : Nat → List Nat → Spec → Args → Parsed
  | 0, rest, s, args => ⟨0, { s with precision := 0 }, rest, args⟩
  | _ + 1, [], s, args => ⟨0, { s with precision := 0 }, [], args⟩
  | n + 1, c :: rest, s, args =>
      if c = '.'.toNat then
        parseSpec n rest { s with flags := { s.flags with precision := true } } args
      else if c = '-'.toNat then
        parseSpec n rest { s with flags := { s.flags with leftJustify := true } } args
      else if c = '+'.toNat then
        parseSpec n rest { s with flags := { s.flags with prefixSign := true } } args
      else if c = ' '.toNat then
        parseSpec n rest { s with flags := { s.flags with prefixBlank := true } } args
      else if c = ','.toNat then
        parseSpec n rest { s with flags := { s.flags with commaType := true } } args
      else if c = 'L'.toNat ∨ c = 'l'.toNat then
        parseSpec n rest { s with flags := { s.flags with longType := true } } args
      else if c = '*'.toNat then
        parseSpec n rest (s.setNumber (nextArg args).toValue) args.tail
      else if '0'.toNat ≤ c ∧ c ≤ '9'.toNat then
        let s := if c = '0'.toNat ∧ s.flags.precision = false then
            { s with flags := { s.flags with prefixZero := true } }
          else
            s
        let number := takeNumber (c :: rest) 0
        parseSpec n number.2 (s.setNumber number.1) args
      else
        ⟨c, s, rest, args⟩

end Specification

/-- What a character of the format asks for: the values that the loop body has when it starts to
print.  The argument is read character by character, and 0 behind its end. -/
structure Item where
  padToWidth : Bool
  leftJustify : Bool
  width : Nat
  precision : Nat
  count : Nat
  prefixCharacter : Nat
  zeroPad : Bool
  comma : Bool
  digits : Nat
  argument : List Nat
  deriving DecidableEq, Repr

section Items

/-- `mHexStr`. -/
def mHexStr : List Nat :=
  codes "0123456789ABCDEF"

/-- The digits of `BasePrintLibValueToString`, the last one first.  A `UINT64` has no more than 64
digits. -/
def reversedDigits (radix : Nat) : Nat → Nat → List Nat
  | 0, _ => []
  | n + 1, value =>
      mHexStr.getD (value % radix) 0 ::
        if value / radix = 0 then [] else reversedDigits radix n (value / radix)

/-- `BasePrintLibValueToString`: the string as it is read backwards. -/
def valueToString (value radix : Nat) : List Nat :=
  (reversedDigits radix 64 value).reverse

/-- The flags that the types `p`, `X`, `x` and `u` change. -/
def numberFlags (type : Nat) (f : Flags) : Flags :=
  let f := if type = 'p'.toNat then
      { f with prefixBlank := false, prefixSign := false, prefixZero := false, longType := true }
    else
      f
  let f := if type = 'p'.toNat ∨ type = 'X'.toNat then { f with prefixZero := true } else f
  let f := if type = 'p'.toNat ∨ type = 'X'.toNat ∨ type = 'x'.toNat then
      { f with radixHex := true }
    else
      f
  if type ≠ 'd'.toNat ∧ f.radixHex = false then
    { f with prefixSign := false, unsignedType := true }
  else
    f

/-- An `int` in the 64 bits of an `INT64`. -/
def intValue (v : Nat) : Nat :=
  if v % 2 ^ 32 < 2 ^ 31 then v % 2 ^ 32 else 2 ^ 64 - 2 ^ 32 + v % 2 ^ 32

/-- An `INT64` is negative. -/
def isNegative (v : Nat) : Bool :=
  decide (2 ^ 63 ≤ v)

/-- The types `p`, `X`, `x`, `u` and `d`. -/
def numberItem (type : Nat) (s : Spec) (v : Nat) : Item :=
  let f := numberFlags type s.flags
  let value := if f.longType then v else intValue v
  let prefixCharacter := if f.prefixSign then '+'.toNat else if f.prefixBlank then ' '.toNat else 0
  let comma := f.commaType && !f.radixHex
  let prefixZero := f.prefixZero && !comma
  let precision := if comma then 1 else s.precision
  let minus := !f.radixHex && isNegative value && !f.unsignedType
  let prefixCharacter := if minus then '-'.toNat else prefixCharacter
  let value :=
    if minus then
      2 ^ 64 - value
    else if f.longType then
      value
    else if f.radixHex then
      if isNegative value then value % 2 ^ 32 else value
    else if f.unsignedType then
      value % 2 ^ 32
    else
      value
  let argument := valueToString value (if f.radixHex then 16 else 10)
  let count := if value = 0 ∧ precision = 0 then 0 else argument.length
  let digits := if count % 3 ≠ 0 then 3 - count % 3 else 0
  let count := if comma ∧ count ≠ 0 then count + (count - 1) / 3 else count
  let signed := prefixCharacter ≠ 0
  let precision := if signed then (precision + 1) % 2 ^ 64 else precision
  { padToWidth := f.padToWidth,
    leftJustify := f.leftJustify,
    width := s.width,
    precision := if prefixZero ∧ f.leftJustify = false ∧ f.padToWidth ∧ f.precision = false then
        s.width
      else
        precision,
    count := if signed then count + 1 else count,
    prefixCharacter := prefixCharacter,
    zeroPad := true,
    comma := comma,
    digits := digits,
    argument := argument }

/-- The number of characters of an argument: up to its end, or as many as the precision says. -/
def countCharacters (limited : Bool) (precision : Nat) : Nat → List Nat → Nat
  | count, [] => count
  | count, c :: cs =>
      if (count < precision ∨ limited = false) ∧ c ≠ 0 then
        countCharacters limited precision (count + 1) cs
      else
        count

/-- A string is printed. -/
def stringItem (s : Spec) (argument : List Nat) : Item where
  padToWidth := s.flags.padToWidth
  leftJustify := s.flags.leftJustify
  width := s.width
  precision := s.precision
  count := countCharacters s.flags.precision s.precision 0 argument
  prefixCharacter := 0
  zeroPad := false
  comma := false
  digits := 0
  argument := argument

/-- `mStatusString`. -/
def mStatusString : List String :=
  ["Success", "Warning Unknown Glyph", "Warning Delete Failure", "Warning Write Failure",
    "Warning Buffer Too Small", "Warning Stale Data", "Load Error", "Invalid Parameter",
    "Unsupported", "Bad Buffer Size", "Buffer Too Small", "Not Ready", "Device Error",
    "Write Protected", "Out of Resources", "Volume Corrupt", "Volume Full", "No Media",
    "Media changed", "Not Found", "Access Denied", "No Response", "No mapping", "Time out",
    "Not started", "Already started", "Aborted", "ICMP Error", "TFTP Error", "Protocol Error",
    "Incompatible Version", "Security Violation", "CRC Error", "End of Media", "Reserved (29)",
    "Reserved (30)", "End of File", "Invalid Language", "Compromised Data"]

def warningStatusNumber : Nat := 5
def errorStatusNumber : Nat := 33

/-- The string for a status, if there is one. -/
def statusString (status : Nat) : Option String :=
  if isNegative status then
    let index := status - 2 ^ 63
    if 0 < index ∧ index ≤ errorStatusNumber then
      mStatusString[index + warningStatusNumber]?
    else
      none
  else if status ≤ warningStatusNumber then
    mStatusString[status]?
  else
    none

/-- An item and what is ahead behind it. -/
structure Step where
  item : Item
  rest : List Nat
  args : Args

/-- A character that is printed, with the translation of line ends. -/
def characterStep (s : Spec) (c : Nat) (rest : List Nat) (args : Args) : Step :=
  if c = '\r'.toNat then
    if rest.head? = some '\n'.toNat then
      ⟨stringItem s (codes "\r\n"), rest.tail, args⟩
    else
      ⟨stringItem s (codes "\r"), rest, args⟩
  else if c = '\n'.toNat then
    if rest.head? = some '\r'.toNat then
      ⟨stringItem s (codes "\r\n"), rest.tail, args⟩
    else
      ⟨stringItem s (codes "\r\n"), rest, args⟩
  else
    ⟨stringItem s [c], rest, args⟩

/-- The default precision of a string is 0. -/
def Spec.forString (s : Spec) : Spec :=
  if s.flags.precision then s else { s with precision := 0 }

/-- The `switch` for the type of a conversion.  `sprint` is what `BasePrintLibSPrint` leaves in
`ValueBuffer`. -/
def conversionStep (sprint : List Nat → Args → List Nat) (p : Parsed) : Step :=
  let arg := nextArg p.args
  if p.type ∈ codes "pXxud" then
    ⟨numberItem p.type p.spec arg.toValue, p.rest, p.args.tail⟩
  else if p.type ∈ codes "sS" then
    let argument := match arg.toUnicode with
      | none => codes "<null string>"
      | some s => s.map UInt16.toNat
    ⟨stringItem p.spec.forString argument, p.rest, p.args.tail⟩
  else if p.type = 'a'.toNat then
    let argument := match arg.toAscii with
      | none => codes "<null string>"
      | some s => s.map UInt8.toNat
    ⟨stringItem p.spec.forString argument, p.rest, p.args.tail⟩
  else if p.type = 'c'.toNat then
    ⟨stringItem p.spec [arg.toValue % 2 ^ 16], p.rest, p.args.tail⟩
  else if p.type = 'g'.toNat then
    let argument := match arg.toGuid with
      | none => codes "<null guid>"
      | some g => sprint (codes "%08x-%04x-%04x-%02x%02x-%02x%02x%02x%02x%02x%02x")
          ([.value (g.data1 % 2 ^ 32), .value (g.data2 % 2 ^ 16), .value (g.data3 % 2 ^ 16)] ++
            (List.range 8).map fun i => .value (g.data4.getD i 0 % 2 ^ 8))
    ⟨stringItem p.spec argument, p.rest, p.args.tail⟩
  else if p.type = 't'.toNat then
    let argument := match arg.toTime with
      | none => codes "<null time>"
      | some t => sprint (codes "%02d/%02d/%04d  %02d:%02d")
          [.value (t.month % 2 ^ 8), .value (t.day % 2 ^ 8), .value (t.year % 2 ^ 16),
            .value (t.hour % 2 ^ 8), .value (t.minute % 2 ^ 8)]
    ⟨stringItem p.spec argument, p.rest, p.args.tail⟩
  else if p.type = 'r'.toNat then
    let argument := match statusString arg.toValue with
      | some s => codes s
      | none => sprint (codes "%08X") [.value arg.toValue]
    ⟨stringItem p.spec argument, p.rest, p.args.tail⟩
  else
    characterStep p.spec p.type p.rest p.args

/-- The body of the loop up to where it prints. -/
def formatStep (sprint : List Nat → Args → List Nat) (c : Nat) (rest : List Nat) (args : Args) :
    Step :=
  if c = '%'.toNat then
    conversionStep sprint (parseSpec (rest.length + 1) rest {} args)
  else
    characterStep {} c rest args

end Items

section Fills

/-- A length, a `UINTN`, and a character to fill with. -/
abbrev Fill := Nat × Nat

/-- The difference of two `UINTN`. -/
def sub64 (a b : Nat) : Nat :=
  (a + (2 ^ 64 - b)) % 2 ^ 64

/-- The loop that copies the argument, with `n` characters ahead at most. -/
def copyFills (comma : Bool) (count : Nat) : Nat → Nat → Nat → List Nat → List Fill
  | 0, _, _, _ => []
  | n + 1, index, digits, argument =>
      if index < count then
        (1, argument.headD 0) ::
          if comma then
            if digits + 1 = 3 then
              (if index + 2 < count then [(1, ','.toNat)] else []) ++
                copyFills comma count n (index + 2) 0 argument.tail
            else
              copyFills comma count n (index + 1) (digits + 1) argument.tail
          else
            copyFills comma count n (index + 1) digits argument.tail
      else
        []

/-- The fills of an item. -/
def Item.fills (i : Item) : List Fill :=
  let precision := if i.precision < i.count then i.count else i.precision
  let pad : Fill := (sub64 i.width precision, ' '.toNat)
  let sign : List Fill := if i.prefixCharacter ≠ 0 then [(1, i.prefixCharacter)] else []
  let index := if i.prefixCharacter ≠ 0 then 1 else 0
  (if i.padToWidth ∧ i.leftJustify = false then [pad] else []) ++
    (if i.zeroPad then
      sign ++ [(sub64 precision i.count, '0'.toNat)]
    else
      (sub64 precision i.count, ' '.toNat) :: sign) ++
    copyFills i.comma i.count (i.count - index) index i.digits i.argument ++
    (if i.padToWidth ∧ i.leftJustify then [pad] else [])

/-- The fills of a whole format.  Each turn passes a character of the format. -/
def fillsFrom (sprint : List Nat → Args → List Nat) : Nat → List Nat → Args → List Fill
  | 0, _, _ => []
  | _ + 1, [], _ => []
  | n + 1, c :: rest, args =>
      let step := formatStep sprint c rest args
      step.item.fills ++ fillsFrom sprint n step.rest step.args

/-- How often a fill writes its character: a length is an `INTN` for `BasePrintLibFillBuffer`. -/
def printedLength (length : Nat) : Nat :=
  if length < 2 ^ 63 then length else 0

/-- The characters that fills print. -/
def textOf (fills : List Fill) : List Nat :=
  fills.flatMap fun f => List.replicate (printedLength f.1) f.2

/-- `MAXIMUM_VALUE_CHARACTERS`. -/
def maximumValueCharacters : Nat := 38

/-- `BasePrintLibSPrint` to `ValueBuffer`, for the formats that the conversions use. -/
def basePrintLibSPrint (format : List Nat) (args : Args) : List Nat :=
  ((textOf (fillsFrom (fun _ _ => []) format.length format args)).take
    (maximumValueCharacters - 1)).map (· % 2 ^ 8)

end Fills

section Marker

/-- The memory, the place in the buffer and the count. -/
structure Out where
  mem : Memory
  buffer : Nat
  lengthToReturn : Nat

/-- The loop of `BasePrintLibFillBuffer`. -/
def fillLoop (bytes endBuffer character : Nat) : Nat → Memory → Nat → Memory × Nat
  | 0, mem, buffer => (mem, buffer)
  | n + 1, mem, buffer =>
      if buffer < endBuffer then
        fillLoop bytes endBuffer character n (storeBytes mem buffer (toLE bytes character))
          ((buffer + bytes) % 2 ^ 64)
      else
        (mem, buffer)

/-- `BasePrintLibFillBuffer`. -/
def basePrintLibFillBuffer (bytes endBuffer : Nat) (f : Fill) (mem : Memory) (buffer : Nat) :
    Memory × Nat :=
  fillLoop bytes endBuffer f.2 (printedLength f.1) mem buffer

variable (countOnly : Bool) (bytes endBuffer : Nat)

/-- A fill is counted, and made when there is a buffer to print to. -/
def put (o : Out) (f : Fill) : Out :=
  let lengthToReturn := (o.lengthToReturn + f.1 * bytes) % 2 ^ 64
  if countOnly = false ∧ o.buffer ≠ 0 then
    let filled := basePrintLibFillBuffer bytes endBuffer f o.mem o.buffer
    ⟨filled.1, filled.2, lengthToReturn⟩
  else
    { o with lengthToReturn := lengthToReturn }

/-- The loop over the format. -/
def printLoop : Nat → List Nat → Args → Out → Out
  | 0, _, _, o => o
  | _ + 1, [], _, o => o
  | n + 1, c :: rest, args, o =>
      if o.buffer ≠ 0 ∧ endBuffer ≤ o.buffer then
        o
      else
        let step := formatStep basePrintLibSPrint c rest args
        printLoop n step.rest step.args (step.item.fills.foldl (put countOnly bytes endBuffer) o)

end Marker

/-- `BytesPerOutputCharacter`. -/
def bytesPerOutputCharacter (outputUnicode : Bool) : Nat :=
  if outputUnicode then 2 else 1

/-- `BasePrintLibSPrintMarker`: the value that is returned and the memory.  A buffer at 0 is
`NULL`. -/
def basePrintLibSPrintMarker (buffer bufferSize : Nat)
    (countOnly outputUnicode formatUnicode : Bool) (format : Bytes) (args : Args) (mem : Memory) :
    Nat × Memory :=
  if countOnly = false ∧ bufferSize = 0 then
    (0, mem)
  else
    let buffer := if countOnly ∧ bufferSize = 0 then 0 else buffer
    let bytes := bytesPerOutputCharacter outputUnicode
    let endBuffer := if buffer ≠ 0 then (buffer + (bufferSize - 1) * bytes) % 2 ^ 64 else 0
    let characters := formatCharacters formatUnicode format
    let out := printLoop countOnly bytes endBuffer characters.length characters args
      ⟨mem, buffer, 0⟩
    if countOnly then
      (out.lengthToReturn / bytes, out.mem)
    else
      ((out.buffer - buffer) / bytes,
        (basePrintLibFillBuffer bytes ((endBuffer + bytes) % 2 ^ 64) (1, 0) out.mem
          out.buffer).1)

end PrintLib
end Udk
