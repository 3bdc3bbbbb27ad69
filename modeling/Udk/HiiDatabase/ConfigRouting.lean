import Udk.HiiDatabase.ConfigString

/-!
# Blocks and configuration strings

`HiiBlockToConfig` and `HiiConfigToBlock`.  A loop takes fuel; it has no result when the fuel
runs out.  `Progress` is an index into the string of the caller.
-/

namespace Udk
namespace Hii

inductive EfiStatus
  | success
  | invalidParameter
  | deviceError
  | bufferTooSmall
  deriving DecidableEq, Repr

/-- An error with the string from the position that `Progress` points to. -/
structure Failure where
  status : EfiStatus
  progress : EfiString
  deriving DecidableEq, Repr

/-- `L"GUID="`. -/
def guidKey : EfiString := ['G', 'U', 'I', 'D', '=']

/-- `L"PATH="`. -/
def pathKey : EfiString := ['P', 'A', 'T', 'H', '=']

/-- `L"OFFSET="`. -/
def offsetKey : EfiString := ['O', 'F', 'F', 'S', 'E', 'T', '=']

/-- `L"&WIDTH="`. -/
def widthKey : EfiString := ['&', 'W', 'I', 'D', 'T', 'H', '=']

/-- `L"VALUE="`. -/
def valueKey : EfiString := ['V', 'A', 'L', 'U', 'E', '=']

/-- `StrnCmp` with a key finds it at the front of a string. -/
def startsWith (s key : EfiString) : Bool :=
  key.isPrefixOf s

/-- The loop that looks for `PATH=`: the string from there on, or the end. -/
def skipToPath : EfiString → EfiString
  | [] => []
  | c :: s => if startsWith (c :: s) pathKey then c :: s else skipToPath s

/-- Both functions jump over `<ConfigHdr>`: what is left from the separator behind `PATH` on;
an error when there is no header. -/
def jumpConfigHdr (s : EfiString) : Option EfiString :=
  if !startsWith s guidKey then none
  else if skipToPath s = [] then none
  else some ((skipToPath s).dropWhile (· ≠ '&'))

/-- The number of `OFFSET` and the number of `WIDTH`, and the string behind them. -/
def offsetAndWidth (p : Platform) (s : EfiString) : Option (Nat × Nat × EfiString) := do
  let (number, length) ← getValueOfNumber s
  let offset := copyNumber p number length
  let s := s.drop length
  if !startsWith s widthKey then
    none
  else
    let s := s.drop widthKey.length
    let (number, length) ← getValueOfNumber s
    let width := copyNumber p number length
    pure (offset, width, s.drop length)

/-- The bytes of a buffer from an offset on.  Behind the buffer is what the pool has there. -/
def readBytes (p : Platform) (buffer : List UInt8) (offset width : Nat) : List UInt8 :=
  (List.range width).map fun k => buffer.getD (offset + k) (p.stray k)

section BlockToConfig

/-- The digits of the value of some bytes, the last byte first. -/
def valueStr (value : List UInt8) : EfiString :=
  value.reverse.flatMap fun byte => unicodeValueToString byte.toNat 2

/-- `ConfigElement`: `taken` is the `<BlockName>` that is copied with the separator behind it. -/
def configElement (p : Platform) (taken : EfiString) (value : List UInt8) : EfiString :=
  let valueStr := valueStr value
  let length := value.length * 2 + 1 + taken.length + 1 + valueKey.length
  let element := taken ++ ['&']
  catS p (catS p element length valueKey) length valueStr

/-- One turn of the loop of `HiiBlockToConfig`: an element is appended for the `<BlockName>` at
the front of a string. -/
def blockNameToConfig (p : Platform) (block : List UInt8) (config : MultiString)
    (s : EfiString) : Except Failure (MultiString × EfiString) :=
  match offsetAndWidth p (s.drop offsetKey.length) with
  | none => .error ⟨.invalidParameter, '&' :: s⟩
  | some (offset, width, rest) =>
      if rest ≠ [] ∧ rest.head? ≠ some '&' then
        .error ⟨.invalidParameter, '&' :: s⟩
      else if block.length < (offset + width) % p.word then
        .error ⟨.deviceError, rest⟩
      else
        let taken := s.take (s.length - rest.length)
        let value := readBytes p block offset width
        .ok (appendToMultiString p config (configElement p taken value), rest)

/-- The loop of `HiiBlockToConfig`. -/
def blockNamesToConfig (p : Platform) (block : List UInt8) :
    Nat → MultiString → EfiString → Option (Except Failure (MultiString × EfiString))
  | 0, _, _ => none
  | fuel + 1, config, s =>
      if startsWith s offsetKey then
        match blockNameToConfig p block config s with
        | .error failure => some (.error failure)
        | .ok (config, []) => some (.ok (config, []))
        | .ok (config, _ :: rest) =>
            blockNamesToConfig p block fuel (appendToMultiString p config ['&']) rest
      else
        some (.ok (config, s))

/-- The status, `*Config` and `*Progress`. -/
structure ConfigResult where
  status : EfiStatus
  config : Option EfiString
  progress : Nat
  deriving DecidableEq, Repr

/-- `HiiBlockToConfig`. -/
def hiiBlockToConfig (p : Platform) (configRequest : EfiString) (block : List UInt8) :
    Option ConfigResult :=
  let position := fun s : EfiString => configRequest.length - s.length
  match jumpConfigHdr configRequest with
  | none =>
      if startsWith configRequest guidKey then
        some ⟨.invalidParameter, none, configRequest.length - 1⟩
      else
        some ⟨.invalidParameter, none, 0⟩
  | some [] =>
      let config := appendToMultiString p MultiString.empty configRequest
      some ⟨.success, some (hiiToLower config.text), configRequest.length⟩
  | some (_ :: s) =>
      let header := configRequest.take (configRequest.length - s.length)
      let config := appendToMultiString p MultiString.empty header
      match blockNamesToConfig p block (s.length + 1) config s with
      | none => none
      | some (.error failure) => some ⟨failure.status, none, position failure.progress⟩
      | some (.ok (config, s)) =>
          if s ≠ [] then
            some ⟨.invalidParameter, none, position s - 1⟩
          else
            some ⟨.success, some (hiiToLower config.text), configRequest.length⟩

end BlockToConfig

section ConfigToBlock

/-- What `HiiConfigToBlock` works on: `Block` and `MaxBlockSize`. -/
structure BlockState where
  block : Option (List UInt8)
  maxBlockSize : Nat
  deriving DecidableEq, Repr

/-- One turn of the loop of `HiiConfigToBlock` for the `'&'<BlockConfig>` at the front of a
string. -/
def blockConfigToBlock (p : Platform) (bufferSize : Nat) (state : BlockState)
    (s : EfiString) : Except Failure (BlockState × EfiString) :=
  match offsetAndWidth p (s.drop (offsetKey.length + 1)) with
  | none => .error ⟨.invalidParameter, s⟩
  | some (offset, width, rest) =>
      if !startsWith rest ('&' :: valueKey) then
        .error ⟨.invalidParameter, s⟩
      else
        match getValueOfNumber (rest.drop (valueKey.length + 1)) with
        | none => .error ⟨.invalidParameter, s⟩
        | some (value, length) =>
            let rest := rest.drop (valueKey.length + 1 + length)
            if rest ≠ [] ∧ rest.head? ≠ some '&' then
              .error ⟨.invalidParameter, s⟩
            else
              let bytes := readBytes p value 0 width
              let sum := (offset + width) % p.word
              .ok ({ block :=
                      if sum ≤ bufferSize then
                        state.block.map fun block => copyMem block offset bytes
                      else
                        state.block
                     maxBlockSize :=
                      if state.maxBlockSize < sum then sum else state.maxBlockSize }, rest)

/-- The loop of `HiiConfigToBlock`. -/
def blockConfigsToBlock (p : Platform) (bufferSize : Nat) :
    Nat → BlockState → EfiString →
      Option (Except (BlockState × Failure) (BlockState × EfiString))
  | 0, _, _ => none
  | fuel + 1, state, s =>
      if startsWith s ('&' :: offsetKey) then
        match blockConfigToBlock p bufferSize state s with
        | .error failure => some (.error (state, failure))
        | .ok (state, []) => some (.ok (state, []))
        | .ok (state, c :: rest) => blockConfigsToBlock p bufferSize fuel state (c :: rest)
      else
        some (.ok (state, s))

/-- The status, the block, `*BlockSize` and `*Progress`. -/
structure BlockResult where
  status : EfiStatus
  block : Option (List UInt8)
  blockSize : Nat
  progress : Nat
  deriving DecidableEq, Repr

/-- `HiiConfigToBlock`. -/
def hiiConfigToBlock (p : Platform) (configResp : EfiString) (block : Option (List UInt8))
    (blockSize : Nat) : Option BlockResult :=
  let position := fun s : EfiString => configResp.length - s.length
  match jumpConfigHdr configResp with
  | none =>
      if startsWith configResp guidKey then
        some ⟨.invalidParameter, block, blockSize, configResp.length⟩
      else
        some ⟨.invalidParameter, block, blockSize, 0⟩
  | some [] => some ⟨.invalidParameter, block, blockSize, configResp.length⟩
  | some (c :: s) =>
      match blockConfigsToBlock p blockSize (s.length + 2) ⟨block, 0⟩ (c :: s) with
      | none => none
      | some (.error (state, failure)) =>
          some ⟨failure.status, state.block, blockSize, position failure.progress⟩
      | some (.ok (state, s)) =>
          if s ≠ [] then
            some ⟨.invalidParameter, state.block, blockSize, position s⟩
          else if blockSize < state.maxBlockSize ∧ state.block.isSome then
            some ⟨.bufferTooSmall, state.block, state.maxBlockSize, configResp.length⟩
          else
            let size :=
              if blockSize < state.maxBlockSize then state.maxBlockSize
              else (state.maxBlockSize + p.word - 1) % p.word
            if state.block.isNone then
              some ⟨.invalidParameter, none, size, 0⟩
            else
              some ⟨.success, state.block, size, configResp.length⟩

end ConfigToBlock

end Hii
end Udk
