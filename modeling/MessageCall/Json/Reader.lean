import MessageCall.Json.Basic

/-!
# Reading documents

The grammar is strict: four blanks (space, tab, line feed, carriage return) may stand around every
token, there are no comments and no trailing commas, and nothing follows the document.

Strings are read by recursion on the text, and two adjacent halves of a surrogate pair are joined
into the character they spell. Values nest, so the functions that read them recurse on a budget.
Every call takes at least one character before it asks for another value, directly or through the
items of an array, so twice the length of the text is more than any document needs, and `read?`
shows no budget.
-/

namespace MessageCall.Json

/-- A text without its leading blanks. -/
def skipBlanks (text : List Char) : List Char := text.dropWhile isBlank

/-! ### Strings -/

/-- The character that a backslash and a letter spell. -/
def escape? (c : Char) : Option Char :=
  if c = '"' ∨ c = '\\' ∨ c = '/' then some c
  else if c = 'b' then some (Char.ofNat 8)
  else if c = 'f' then some (Char.ofNat 12)
  else if c = 'n' then some '\n'
  else if c = 'r' then some '\r'
  else if c = 't' then some '\t'
  else none

/-- Puts a code unit in front of the pieces after it. The first half of a pair joins with the
second half if that comes next, and a unit outside the pairs is a character. -/
def consUnit (code : Nat) (pieces : List Piece) : List Piece :=
  if code < 0xd800 ∨ 0xe000 ≤ code then .char (Char.ofNat code) :: pieces
  else match pieces with
    | .half next :: rest =>
      -- Only a first half in front of a second half makes a pair.
      if code < 0xdc00 ∧ 0xdc00 ≤ next then
        .char (Char.ofNat (0x10000 + (code - 0xd800) * 0x400 + (next - 0xdc00))) :: rest
      else .half code :: pieces
    | _ => .half code :: pieces

/-- Reads a string from behind its opening quote. -/
def readString : List Char → Option (List Piece × List Char)
  | '"' :: rest => some ([], rest)
  | '\\' :: 'u' :: a :: b :: c :: d :: rest =>
    match Numeral.value? 16 [a, b, c, d], readString rest with
    | some code, some (pieces, rest) => some (consUnit code pieces, rest)
    | _, _ => none
  | '\\' :: c :: rest =>
    match escape? c, readString rest with
    | some c, some (pieces, rest) => some (.char c :: pieces, rest)
    | _, _ => none
  | c :: rest =>
    match readString rest with
    | some (pieces, rest) => some ((if c < ' ' then .bare c else .char c) :: pieces, rest)
    | none => none
  | [] => none

/-! ### Numbers -/

/-- At least one digit. -/
def readDigits (text : List Char) : Option (List Char × List Char) :=
  let digits := text.takeWhile Char.isDigit
  if digits.isEmpty then none else some (digits, text.dropWhile Char.isDigit)

/-- The digits before the point: a zero alone, or digits that do not start with zero. -/
def readWhole (text : List Char) : Option (List Char × List Char) := do
  let (digits, rest) ← readDigits text
  if digits.head? = some '0' ∧ digits.length ≠ 1 then none else some (digits, rest)

/-- The point and the digits behind it, if there is a point. -/
def readFraction : List Char → Option (List Char × List Char)
  | '.' :: rest => do
    let (digits, rest) ← readDigits rest
    some ('.' :: digits, rest)
  | text => some ([], text)

/-- The exponent's sign, if there is one. -/
def readSign : List Char → List Char × List Char
  | '+' :: rest => (['+'], rest)
  | '-' :: rest => (['-'], rest)
  | text => ([], text)

/-- The exponent, if there is one. -/
def readExponent : List Char → Option (List Char × List Char)
  | [] => some ([], [])
  | c :: rest =>
    if c = 'e' ∨ c = 'E' then do
      let (sign, rest) := readSign rest
      let (digits, rest) ← readDigits rest
      some (c :: sign ++ digits, rest)
    else some ([], c :: rest)

/-- Reads a number's literal. -/
def readNumber (text : List Char) : Option (List Char × List Char) := do
  let (minus, rest) := match text with
    | '-' :: rest => (['-'], rest)
    | _ => ([], text)
  let (whole, rest) ← readWhole rest
  let (fraction, rest) ← readFraction rest
  let (exponent, rest) ← readExponent rest
  some (minus ++ whole ++ fraction ++ exponent, rest)

/-! ### Values -/

mutual

/-- Reads a value behind any blanks. -/
def readValue : (budget : Nat) → List Char → Option (Json × List Char)
  | 0, _ => none
  | budget + 1, text =>
    -- The first character behind the blanks says what kind of value there is.
    match skipBlanks text with
    | 'n' :: 'u' :: 'l' :: 'l' :: rest => some (.null, rest)
    | 't' :: 'r' :: 'u' :: 'e' :: rest => some (.bool true, rest)
    | 'f' :: 'a' :: 'l' :: 's' :: 'e' :: rest => some (.bool false, rest)
    -- A string has its closing quote within `readString`.
    | '"' :: rest => do
      let (pieces, rest) ← readString rest
      some (.string pieces, rest)
    -- An empty array has nothing between its brackets but blanks.
    | '[' :: rest =>
      match skipBlanks rest with
      | ']' :: rest => some (.array [], rest)
      | rest => do
        let (items, rest) ← readItems budget rest
        some (.array items, rest)
    | '\x7b' :: rest =>
      match skipBlanks rest with
      | '\x7d' :: rest => some (.object [], rest)
      | rest => do
        let (members, rest) ← readMembers budget rest
        some (.object members, rest)
    -- Everything else has to be a number.
    | text => do
      let (literal, rest) ← readNumber text
      some (.number literal, rest)
termination_by structural budget => budget

/-- Reads the items of an array, of which there is at least one, and the closing bracket. -/
def readItems : (budget : Nat) → List Char → Option (List Json × List Char)
  | 0, _ => none
  | budget + 1, text => do
    let (item, rest) ← readValue budget text
    match skipBlanks rest with
    | ',' :: rest => do
      let (items, rest) ← readItems budget rest
      some (item :: items, rest)
    | ']' :: rest => some ([item], rest)
    | _ => none
termination_by structural budget => budget

/-- Reads the members of an object, of which there is at least one, and the closing brace. -/
def readMembers : (budget : Nat) → List Char → Option (List (List Piece × Json) × List Char)
  | 0, _ => none
  | budget + 1, text =>
    match skipBlanks text with
    | '"' :: rest => do
      -- A key, a colon and a value, and then another member or the end.
      let (key, rest) ← readString rest
      match skipBlanks rest with
      | ':' :: rest => do
        let (value, rest) ← readValue budget rest
        match skipBlanks rest with
        | ',' :: rest => do
          let (members, rest) ← readMembers budget rest
          some ((key, value) :: members, rest)
        | '\x7d' :: rest => some ([(key, value)], rest)
        | _ => none
      | _ => none
    | _ => none
termination_by structural budget => budget

end

/-- Reads a text that is one document and nothing else. -/
def readText (text : List Char) : Option Json := do
  let (j, rest) ← readValue (2 * text.length + 2) text
  if (skipBlanks rest).isEmpty then some j else none

/-- Reads a string that is one document and nothing else. -/
def read? (s : String) : Option Json := readText s.toList

end MessageCall.Json
