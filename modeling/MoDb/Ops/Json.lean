import MoDb.Lib.Format
import MoDb.Lib.Effect
import MoDb.Ops.Value

/-!
# Values as JSON

The printer writes a value of an operation as JSON; the reader is a recursive descent over the text. The
loops of the reader count their rounds, and where the rounds ran out the reader would fail with no error.
-/

namespace MoDb.Ops

open Storage SortedEntries Format
open Index (bytesLess)

def ascii (text : String) : Bytes := text.toList.map Char.toUInt8

/-- How the standard library writes and reads reals: `std::to_chars` of a finite one, and
`std::from_chars` where it takes the whole text and the real is within range. -/
structure Reals where
  format : BitVec 64 → Bytes
  parse : Bytes → Option (BitVec 64)

/-- `std::isfinite`: not all bits of the exponent are set. -/
def isFinite (bits : BitVec 64) : Bool := bits.toNat / 2 ^ 52 % 2048 ≠ 2047

/-! ### Printing -/

/-- A digit of `%x`. -/
def hexDigit (n : Nat) : UInt8 := UInt8.ofNat (if n < 10 then 48 + n else 87 + n)

/-- One character of `json_text`. -/
def jsonByte (byte : UInt8) : Bytes :=
  if byte = 34 then [92, 34]
  else if byte = 92 then [92, 92]
  else if byte = 10 then [92, 110]
  else if byte = 13 then [92, 114]
  else if byte = 9 then [92, 116]
  else if byte < 32 then [92, 117, 48, 48, hexDigit (byte.toNat / 16), hexDigit (byte.toNat % 16)]
  else [byte]

/-- `json_text`. -/
def jsonText (text : Bytes) : Bytes := 34 :: (text.flatMap jsonByte ++ [34])

/-- `std::to_string` of a natural number. -/
def decimal (n : Nat) : Bytes := (Nat.toDigits 10 n).map Char.toUInt8

/-- `std::to_string` of an `int64_t`. -/
def integerText (number : BitVec 64) : Bytes :=
  if number.toInt < 0 then 45 :: decimal number.toInt.natAbs else decimal number.toInt.natAbs

/-- A character that makes a number a real: `find_first_of(".eE")`. -/
def isRealMark (byte : UInt8) : Bool := byte = 46 || byte = 101 || byte = 69

/-- `std::to_chars` into the 32 characters of the buffer. -/
def toChars (reals : Reals) (bits : BitVec 64) : Bytes :=
  if (reals.format bits).length ≤ 32 then reals.format bits else []

def realText (reals : Reals) (bits : BitVec 64) : Bytes :=
  if isFinite bits then
    if (toChars reals bits).any isRealMark then toChars reals bits
    else toChars reals bits ++ [46, 48]
  else ascii "null"

mutual

/-- `json_value`. -/
def jsonValue (reals : Reals) : Data → Bytes
  | .null => ascii "null"
  | .boolean flag => if flag then ascii "true" else ascii "false"
  | .integer number => integerText number
  | .id id => decimal id.toNat
  | .real bits => realText reals bits
  | .text text => jsonText text
  | .list items => 91 :: (jsonItems reals items ++ [93])
  | .map entries => 123 :: (jsonEntries reals entries ++ [125])

def jsonItems (reals : Reals) : List Data → Bytes
  | [] => []
  | [item] => jsonValue reals item
  | item :: items => jsonValue reals item ++ 44 :: jsonItems reals items

def jsonEntries (reals : Reals) : List (Bytes × Data) → Bytes
  | [] => []
  | [(key, item)] => jsonText key ++ 58 :: jsonValue reals item
  | (key, item) :: entries =>
    jsonText key ++ 58 :: (jsonValue reals item ++ 44 :: jsonEntries reals entries)

end

/-- `to_json`. -/
def toJson (reals : Reals) (value : Value) : Bytes := jsonValue reals value.data

/-! ### Reading -/

/-- A reader of JSON: `s_` and `pos_`. It fails with no error where the rounds of a loop ran out. -/
abbrev JsonReader := Format.Decoder UInt8 (Option Error)

/-- `JsonReader::fail`. -/
def fail {α : Type} (why : String) : JsonReader α := fun c =>
  .error (some ⟨.invalidArgument, s!"invalid JSON at {c.position}: {why}"⟩) c

def peek : JsonReader (Option UInt8) := fun c => .ok c.rest.head? c

def takeByte (why : String) : JsonReader UInt8 := fun c =>
  match c.rest.head? with
  | none => fail why c
  | some byte => .ok byte (c.skip 1)

/-- `++pos_`. -/
def advance : JsonReader Unit := fun c => .ok ⟨⟩ (c.skip 1)

/-- What is done if the next character is `byte`, which is taken, and what if it is not. -/
def onByte {α : Type} (byte : UInt8) (yes no : JsonReader α) : JsonReader α := do
  if (← peek) = some byte then do
    advance
    yes
  else no

def isSpace (byte : UInt8) : Bool := byte = 32 || byte = 9 || byte = 10 || byte = 13

/-- `skip`. -/
def skipSpaces : JsonReader Unit := fun c => .ok ⟨⟩ (c.skip (c.rest.takeWhile isSpace).length)

/-- `word`. -/
def word (text : Bytes) : JsonReader Bool := fun c =>
  if c.rest.take text.length = text then .ok true (c.skip text.length) else .ok false c

def isDigit (byte : UInt8) : Bool := 48 ≤ byte && byte ≤ 57

def hexValue (byte : UInt8) : Option Nat :=
  if isDigit byte then some (byte.toNat - 48)
  else if 97 ≤ byte ∧ byte ≤ 102 then some (byte.toNat - 87)
  else if 65 ≤ byte ∧ byte ≤ 70 then some (byte.toNat - 55)
  else none

/-- `std::from_chars` of an unsigned number of base 16, where it takes the whole text. -/
def fromHex : Bytes → Nat → Option Nat
  | [], number => some number
  | byte :: rest, number => do
    let digit ← hexValue byte
    fromHex rest (16 * number + digit)

/-- `hex4`. -/
def hex4 : JsonReader Nat := fun c =>
  if c.remaining < 4 then fail "incomplete \\u escape" c
  else
    match fromHex (c.rest.take 4) 0 with
    | none => fail "invalid \\u escape" c
    | some number => .ok number (c.skip 4)

/-- `utf8`. -/
def utf8 (cp : Nat) : Bytes :=
  if cp < 0x80 then [UInt8.ofNat cp]
  else if cp < 0x800 then [UInt8.ofNat (0xC0 ||| cp >>> 6), UInt8.ofNat (0x80 ||| cp &&& 0x3F)]
  else if cp < 0x10000 then
    [UInt8.ofNat (0xE0 ||| cp >>> 12), UInt8.ofNat (0x80 ||| cp >>> 6 &&& 0x3F),
      UInt8.ofNat (0x80 ||| cp &&& 0x3F)]
  else
    [UInt8.ofNat (0xF0 ||| cp >>> 18), UInt8.ofNat (0x80 ||| cp >>> 12 &&& 0x3F),
      UInt8.ofNat (0x80 ||| cp >>> 6 &&& 0x3F), UInt8.ofNat (0x80 ||| cp &&& 0x3F)]

/-- The character of a `\u` escape, of two escapes where the first is a high surrogate. -/
def unicode : JsonReader Bytes := do
  let cp ← hex4
  if 0xD800 ≤ cp ∧ cp ≤ 0xDBFF then do
    let pair ← word [92, 117]
    if pair then do
      let low ← hex4
      if low < 0xDC00 ∨ 0xDFFF < low then fail "invalid surrogate pair"
      else pure (utf8 (0x10000 + ((cp - 0xD800) <<< 10) + (low - 0xDC00)))
    else pure (utf8 cp)
  else pure (utf8 cp)

def escape (letter : UInt8) : JsonReader Bytes :=
  if letter = 34 then pure [34]
  else if letter = 92 then pure [92]
  else if letter = 47 then pure [47]
  else if letter = 98 then pure [8]
  else if letter = 102 then pure [12]
  else if letter = 110 then pure [10]
  else if letter = 114 then pure [13]
  else if letter = 116 then pure [9]
  else if letter = 117 then unicode
  else fail "invalid escape"

/-- The loop of `string`; `out` is what was read before. -/
def stringLoop : Nat → Bytes → JsonReader Bytes
  | 0, _ => throw none
  | rounds + 1, out => do
    let byte ← takeByte "unterminated string"
    if byte = 34 then pure out
    else if byte < 32 then fail "control character inside a string"
    else if byte ≠ 92 then stringLoop rounds (out ++ [byte])
    else do
      let letter ← takeByte "unterminated string"
      let bytes ← escape letter
      stringLoop rounds (out ++ bytes)

def enough {α : Type} (loop : Nat → JsonReader α) : JsonReader α := fun c => loop (c.remaining + 1) c

/-- `string`. -/
def string : JsonReader Bytes := do
  advance
  enough fun rounds => stringLoop rounds []

/-- The characters that the loop of `number` takes; a sign at the start was taken before the loop. -/
def isNumberByte (byte : UInt8) : Bool := isDigit byte || isRealMark byte || byte = 43 || byte = 45

def numberText (rest : Bytes) : Bytes :=
  if rest.head? = some 45 then 45 :: rest.tail.takeWhile isNumberByte
  else rest.takeWhile isNumberByte

/-- `is_real`: a character after the sign is no digit. -/
def isReal (text : Bytes) : Bool :=
  (if text.head? = some 45 then text.tail else text).any fun byte => !isDigit byte

def fromDecimal (text : Bytes) : Nat := text.foldl (fun number byte => 10 * number + (byte.toNat - 48)) 0

/-- `std::from_chars` of an `int64_t`, of a sign and digits, where the number is within range. -/
def fromChars (text : Bytes) : Option (BitVec 64) :=
  if text.head? = some 45 then
    if fromDecimal text.tail ≤ 2 ^ 63 then some (BitVec.ofInt 64 (-(fromDecimal text.tail))) else none
  else if fromDecimal text < 2 ^ 63 then some (BitVec.ofNat 64 (fromDecimal text))
  else none

/-- What a number stands for: an integer if it looks like one and is within range, and a real otherwise. -/
def numberValue (reals : Reals) (text : Bytes) : Option Data :=
  match if isReal text then none else fromChars text with
  | some number => some (.integer number)
  | none =>
    match reals.parse text with
    | some bits => if isFinite bits then some (.real bits) else none
    | none => none

/-- `number`. -/
def number (reals : Reals) : JsonReader Data := fun c =>
  if numberText c.rest = [] ∨ numberText c.rest = [45] then fail "unexpected value" c
  else
    match numberValue reals (numberText c.rest) with
    | some data => .ok data (c.skip (numberText c.rest).length)
    | none => fail "invalid number" c

/-- The loop of `array`; `items` are those read before. -/
def arrayLoop (read : JsonReader Data) : Nat → List Data → JsonReader Data
  | 0, _ => throw none
  | rounds + 1, items => do
    let item ← read
    skipSpaces
    onByte 44 (arrayLoop read rounds (items ++ [item]))
      (onByte 93 (pure (.list (items ++ [item]))) (fail "expected ',' or ']'"))

/-- `array`; `read` reads a value one level deeper. -/
def array (read : JsonReader Data) : JsonReader Data := do
  advance
  skipSpaces
  onByte 93 (pure (.list [])) (enough fun rounds => arrayLoop read rounds [])

def fieldName : JsonReader Bytes := do
  skipSpaces
  if (← peek) = some 34 then do
    let key ← string
    skipSpaces
    onByte 58 (pure key) (fail "expected ':'")
  else fail "expected a field name"

/-- The loop of `object`; `entries` are those read before. -/
def objectLoop (read : JsonReader Data) : Nat → Entries → JsonReader Data
  | 0, _ => throw none
  | rounds + 1, entries => do
    let key ← fieldName
    let item ← read
    skipSpaces
    onByte 44 (objectLoop read rounds (insertOrAssign bytesLess key item entries))
      (onByte 125 (pure (.map (insertOrAssign bytesLess key item entries))) (fail "expected ',' or '\x7d'"))

/-- `object`; `read` reads a value one level deeper. -/
def object (read : JsonReader Data) : JsonReader Data := do
  advance
  skipSpaces
  onByte 125 (pure (.map [])) (enough fun rounds => objectLoop read rounds [])

/-- A value that is none of those that have a first character of their own. -/
def scalar (reals : Reals) : JsonReader Data := do
  if ← word (ascii "true") then pure (.boolean true)
  else if ← word (ascii "false") then pure (.boolean false)
  else if ← word (ascii "null") then pure .null
  else number reals

/-- `value`; `levels` is how far its depth is from being too deep. -/
def value (reals : Reals) : Nat → JsonReader Data
  | 0 => fail "nested too deep"
  | levels + 1 => do
    skipSpaces
    match ← peek with
    | none => fail "unexpected end"
    | some byte =>
      if byte = 123 then object (value reals levels)
      else if byte = 91 then array (value reals levels)
      else if byte = 34 then do
        let text ← string
        pure (.text text)
      else scalar reals

/-- `document`. -/
def document (reals : Reals) : JsonReader Data := do
  let data ← value reals (valueMaxDepth + 1)
  skipSpaces
  if (← peek) = none then pure data else fail "content after the value"

end MoDb.Ops
