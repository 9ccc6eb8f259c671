import MessageCall.Word

/-!
# Numerals and hexadecimal byte strings

Texts are lists of characters. A numeral is written with the fewest digits of its base
(`Numeral.render`) and read by position (`Numeral.value?`), which takes letters of both cases and
reads the empty text as zero. A byte string is written with two lower-case digits to a byte
(`Hex.ofBytes`), so its length fixes the length of the text.

The leading mark `0x` is put on by `Hex.marked` and is no part of either.
-/

namespace MessageCall

/-- Space, tab, line feed and carriage return. -/
def isBlank (c : Char) : Bool := c = ' ' || c = '\t' || c = '\n' || c = '\r'

/-! ### Digits and numerals -/

/-- The value of a digit: `0` to `9`, then `a` to `f` in either case. -/
def Hex.digitValue? (c : Char) : Option Nat :=
  if '0' ≤ c ∧ c ≤ '9' then some (c.toNat - '0'.toNat)
  else if 'a' ≤ c ∧ c ≤ 'f' then some (c.toNat - 'a'.toNat + 10)
  else if 'A' ≤ c ∧ c ≤ 'F' then some (c.toNat - 'A'.toNat + 10)
  else none

/-- The value of a digit of the given base, at most sixteen. -/
def Numeral.digit? (base : Nat) (c : Char) : Option Nat :=
  (Hex.digitValue? c).filter (· < base)

/-- Reads digits onto the value `n` of those before them. -/
def Numeral.valueFrom? (base : Nat) : (n : Nat) → List Char → Option Nat
  | n, [] => some n
  | n, c :: rest => (Numeral.digit? base c).bind fun d => valueFrom? base (base * n + d) rest

/-- The number that the digits of a text spell, if it holds digits of the base only. -/
def Numeral.value? (base : Nat) (text : List Char) : Option Nat :=
  Numeral.valueFrom? base 0 text

/-- The shortest numeral of a number, in lower case. -/
def Numeral.render (base n : Nat) : List Char := Nat.toDigits base n

/-- The decimal numeral of a number. -/
def decimal (n : Nat) : String := String.ofList (Numeral.render 10 n)

/-! ### Byte strings -/

namespace Hex

/-- A text behind the mark `0x`. -/
def marked (text : List Char) : List Char := '0' :: 'x' :: text

/-- The two digits of a byte. -/
def ofByte (b : UInt8) : List Char :=
  [Nat.digitChar (b.toNat / 16), Nat.digitChar (b.toNat % 16)]

/-- The digits of a byte string, two to a byte. -/
def ofBytes (bytes : Bytes) : List Char := bytes.flatMap ofByte

/-- A byte string as marked text. -/
def bytes (bs : Bytes) : String := String.ofList (marked (ofBytes bs))

/-- A number as marked text, with the fewest digits. -/
def number (n : Nat) : String := String.ofList (marked (Numeral.render 16 n))

/-- A hash as marked text, all sixty-four digits. -/
def hash (h : Hash) : String := bytes (wordBytes h)

/-- An address as marked text, all forty digits. -/
def address (a : Address) : String := bytes (addressBytes a)

end Hex

end MessageCall
