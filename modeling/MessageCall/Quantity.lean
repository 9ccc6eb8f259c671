import MessageCall.Text.Hex

/-!
# Quantities spelled as text

Documents spell numbers and byte strings as text, and each kind of quantity has its own grammar.
In all of them `strip` drops every leading repetition of the mark `0x`.

| kind | text with the mark | text without it |
|---|---|---|
| word | at most sixty-four hexadecimal digits | decimal digits, below `2 ^ 256` |
| count | an optional `+`, then hexadecimal digits, below `2 ^ 64` | the same in decimal |
| hexadecimal count | an optional `+`, then hexadecimal digits, below `2 ^ 64` | the same |
| bytes | hexadecimal digits, two to a byte | the same |

A word may have no digits at all, which spells zero; a count may not. The writers spell every
number by its shortest hexadecimal numeral behind one mark, which all the readers take.
-/

namespace MessageCall

/-- Why a text spells no quantity. -/
inductive QuantityError
  /-- Not a hexadecimal numeral of at most sixty-four digits. -/
  | badWord
  /-- A character that is no decimal digit. -/
  | notDecimal
  /-- A decimal numeral that is not below `2 ^ 256`. -/
  | tooLarge
  /-- Not a numeral below `2 ^ 64`. -/
  | badCount
  /-- A byte with one digit. -/
  | oddLength
  /-- A byte of the text that is no digit, with its place. -/
  | notHex (byte : UInt8) (place : Nat)
  deriving DecidableEq, Repr

namespace Quantity

/-! ### Readers -/

/-- Drops every leading repetition of the mark. -/
def strip : List Char → List Char
  | '0' :: 'x' :: rest => strip rest
  | text => text

/-- Whether a text starts with the mark. -/
def isMarked : List Char → Bool
  | '0' :: 'x' :: _ => true
  | _ => false

/-- Reads decimal digits onto the value of those before them. The first character that is no digit
or that carries the value past the largest word decides the error. -/
def decimalWord (n : Nat) : List Char → Except QuantityError Word
  | [] => .ok (BitVec.ofNat 256 n)
  | c :: rest =>
    match Numeral.digit? 10 c with
    | none => .error .notDecimal
    | some d => if 10 * n + d < span 32 then decimalWord (10 * n + d) rest else .error .tooLarge

/-- Reads a word: hexadecimal behind the mark, decimal without it. -/
def word (text : List Char) : Except QuantityError Word :=
  if isMarked text then
    let digits := strip text
    if digits.length ≤ 64 then
      match Numeral.value? 16 digits with
      | some n => .ok (BitVec.ofNat 256 n)
      | none => .error .badWord
    else .error .badWord
  else decimalWord 0 text

/-- Reads an optional sign `+` and at least one digit. -/
def count? (base : Nat) (text : List Char) : Option UInt64 :=
  let digits := match text with
    | '+' :: rest => rest
    | _ => text
  if digits.isEmpty then none
  else match Numeral.value? base digits with
    | some n => if n < UInt64.size then some (UInt64.ofNat n) else none
    | none => none

/-- Reads a count that is always hexadecimal, with or without the mark. -/
def hexCount (text : List Char) : Except QuantityError UInt64 :=
  match count? 16 (strip text) with
  | some n => .ok n
  | none => .error .badCount

/-- Reads a count: hexadecimal behind the mark, decimal without it. -/
def count (text : List Char) : Except QuantityError UInt64 :=
  if isMarked text then hexCount text
  else match count? 10 text with
    | some n => .ok n
    | none => .error .badCount

/-- The value of a byte of text that is a hexadecimal digit. -/
def digitOfByte (place : Nat) (b : UInt8) : Except QuantityError Nat :=
  match Hex.digitValue? (Char.ofNat b.toNat) with
  | some d => .ok d
  | none => .error (.notHex b place)

/-- Reads the bytes of a text two digits at a time, `place` being the first one's place. -/
def bytesFrom : (place : Nat) → Bytes → Except QuantityError Bytes
  | place, high :: low :: rest => do
    let h ← digitOfByte place high
    let l ← digitOfByte (place + 1) low
    let bytes ← bytesFrom (place + 2) rest
    return UInt8.ofNat (16 * h + l) :: bytes
  | _, [_] => .error .oddLength
  | _, [] => .ok []

/-- Reads a byte string, with or without the mark. Lengths and places count the bytes of the
text, and an odd length is reported before any digit is looked at. -/
def bytes (text : List Char) : Except QuantityError Bytes :=
  let utf8 := (strip text).flatMap String.utf8EncodeChar
  if utf8.length % 2 = 1 then .error .oddLength else bytesFrom 0 utf8

/-! ### Writers -/

/-- A word's shortest hexadecimal spelling. -/
def ofWord (w : Word) : String := Hex.number w.toNat

/-- A count's shortest hexadecimal spelling. -/
def ofCount (n : UInt64) : String := Hex.number n.toNat

/-- A byte string's spelling, two digits to a byte. -/
def ofBytes (bs : Bytes) : String := Hex.bytes bs

end Quantity

/-! ### Messages -/

/-- A byte as a quoted character. Control characters, the two invisible characters above them,
quotes and backslashes are escaped. -/
def quoteByte (b : UInt8) : String :=
  let n := b.toNat
  let body :=
    if n = 0 then ['\\', '0']
    else if n = 9 then ['\\', 't']
    else if n = 10 then ['\\', 'n']
    else if n = 13 then ['\\', 'r']
    else if n = 39 ∨ n = 92 then ['\\', Char.ofNat n]
    else if n < 32 ∨ (127 ≤ n ∧ n ≤ 160) ∨ n = 173 then
      ['\\', 'u', '\x7b'] ++ Numeral.render 16 n ++ ['\x7d']
    else [Char.ofNat n]
  String.ofList ('\'' :: body ++ ['\''])

/-- The message of a reader's error. -/
def QuantityError.message : QuantityError → String
  | .badWord => "Failed to deserialize u256 value"
  | .notDecimal => "a character is not in the range 0-9"
  | .tooLarge => "the number is too large for the type"
  | .badCount => "Failed to deserialize u64 value"
  | .oddLength => "Odd number of digits"
  | .notHex byte place => "Invalid character " ++ quoteByte byte ++ " at position " ++ decimal place

end MessageCall
