import MessageCall.Text.Hex

/-!
# Hexadecimal fields

Hashes, addresses and words inside documents are hexadecimal with an optional mark `0x`. Blanks
between the digits count towards the length of the field but carry no digit. The digits pair up
from the left, except that a field of odd length starts as if a zero stood before it, and a digit
that is left without a partner at the end is dropped.

A field of fixed width has exactly two characters to a byte, and bytes that blanks took the place
of are zeros at its end. A word has one to sixty-four characters.
-/

namespace MessageCall.HexField

/-- A text without its mark, if it has one. -/
def unmarked : List Char → List Char
  | '0' :: 'x' :: rest => rest
  | text => text

/-- Pairs digits up into bytes. A digit that waits for its partner is carried along. -/
def pairs : (waiting : Option Nat) → List Char → Option Bytes
  | _, [] => some []
  | waiting, c :: rest =>
    -- A blank takes up room in the field but is no digit.
    if isBlank c then pairs waiting rest
    else match Hex.digitValue? c, waiting with
      | none, _ => none
      | some low, some high => (pairs none rest).map (UInt8.ofNat (16 * high + low) :: ·)
      | some high, none => pairs (some high) rest

/-- The bytes of the digits of a field. -/
def digits (text : List Char) : Option Bytes :=
  pairs (if text.length % 2 = 1 then some 0 else none) text

/-- Reads a field of `width` bytes. -/
def fixed? (width : Nat) (text : List Char) : Option Bytes :=
  let body := unmarked text
  if body.length = 2 * width then
    (digits body).map fun bytes => bytes ++ List.replicate (width - bytes.length) 0
  else none

/-- Reads a hash. -/
def hash? (text : List Char) : Option Hash :=
  (fixed? 32 text).map fun bytes => BitVec.ofNat 256 (ofBigEndian bytes)

/-- Reads an address. -/
def address? (text : List Char) : Option Address :=
  (fixed? 20 text).map fun bytes => BitVec.ofNat 160 (ofBigEndian bytes)

/-- Reads a word. -/
def word? (text : List Char) : Option Word :=
  let body := unmarked text
  if 1 ≤ body.length ∧ body.length ≤ 64 then
    (digits body).map fun bytes => BitVec.ofNat 256 (ofBigEndian bytes)
  else none

end MessageCall.HexField
