import MessageCall.Json.Basic

/-!
# Writing documents

A document is written without blanks. A string escapes quotes, backslashes and control characters
and leaves every other character as it is. Since `Json.record` sorts its fields, a document built
from records is written with the names in every object in increasing order.
-/

namespace MessageCall.Json

/-- The four lower-case digits of a code unit. -/
def unitDigits (code : Nat) : List Char :=
  [Nat.digitChar (code / 4096 % 16), Nat.digitChar (code / 256 % 16),
   Nat.digitChar (code / 16 % 16), Nat.digitChar (code % 16)]

/-- A character inside a string. -/
def writeChar (c : Char) : List Char :=
  if c = '"' then ['\\', '"']
  else if c = '\\' then ['\\', '\\']
  else if c.toNat = 8 then ['\\', 'b']
  else if c.toNat = 9 then ['\\', 't']
  else if c.toNat = 10 then ['\\', 'n']
  else if c.toNat = 12 then ['\\', 'f']
  else if c.toNat = 13 then ['\\', 'r']
  else if c.toNat < 32 then '\\' :: 'u' :: unitDigits c.toNat
  else [c]

/-- A piece inside a string. -/
def Piece.write : Piece → List Char
  | .char c => writeChar c
  | .bare c => [c]
  | .half code => '\\' :: 'u' :: unitDigits code

/-- A string with its quotes. -/
def writeString (pieces : List Piece) : List Char := '"' :: pieces.flatMap Piece.write ++ ['"']

mutual

/-- A document's text. -/
def write : Json → List Char
  | .null => ['n', 'u', 'l', 'l']
  | .bool true => ['t', 'r', 'u', 'e']
  | .bool false => ['f', 'a', 'l', 's', 'e']
  | .number literal => literal
  | .string pieces => writeString pieces
  | .array [] => ['[', ']']
  | .array (item :: rest) => '[' :: write item ++ writeItems rest
  | .object [] => ['\x7b', '\x7d']
  | .object ((key, value) :: rest) =>
    '\x7b' :: writeString key ++ ':' :: write value ++ writeMembers rest
termination_by structural j => j

/-- The items after the first, with the closing bracket. -/
def writeItems : List Json → List Char
  | [] => [']']
  | item :: rest => ',' :: write item ++ writeItems rest
termination_by structural items => items

/-- The members after the first, with the closing brace. -/
def writeMembers : List (List Piece × Json) → List Char
  | [] => ['\x7d']
  | (key, value) :: rest =>
    ',' :: writeString key ++ ':' :: write value ++ writeMembers rest
termination_by structural members => members

end

/-- A document as a string. -/
def render (j : Json) : String := String.ofList (write j)

end MessageCall.Json
