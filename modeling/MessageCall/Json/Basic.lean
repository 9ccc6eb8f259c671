import MessageCall.Text.Hex

/-!
# JSON documents

A `Json` is a document as it is written. It keeps what a later reader may ask about: a number
keeps its literal, an object keeps its members in order with repetitions, and a string is the list
of its `Piece`s. Most pieces are characters. The other two are what a literal may hold although no
text does: a control character that stands unescaped, and one half of a surrogate pair without the
other. Readers of text refuse them, readers of bytes take them, and a part of a document that
nobody reads may hold the second but not the first (`Json.ignorable`).
-/

namespace MessageCall

/-- A part of a string literal. -/
inductive Json.Piece
  /-- A character, however it was spelled. -/
  | char (c : Char)
  /-- A control character that is not escaped. -/
  | bare (c : Char)
  /-- An escaped surrogate without its partner. -/
  | half (code : Nat)
  deriving DecidableEq, Repr

/-- A document. -/
inductive Json
  | null
  | bool (b : Bool)
  /-- A number, as its literal. -/
  | number (literal : List Char)
  | string (pieces : List Json.Piece)
  | array (items : List Json)
  /-- The members in the order in which they are written. -/
  | object (members : List (List Json.Piece × Json))

namespace Json

/-! ### Strings -/

/-- The character of a piece that is one. -/
def Piece.char? : Piece → Option Char
  | .char c => some c
  | .bare _ | .half _ => none

/-- Whether a piece is anything but an unescaped control character. -/
def Piece.isEscaped : Piece → Bool
  | .bare _ => false
  | .char _ | .half _ => true

/-- The pieces of a text. -/
def piecesOf (s : String) : List Piece := s.toList.map .char

/-- The text of a literal that holds characters only. -/
def textOf? (pieces : List Piece) : Option String :=
  (pieces.mapM Piece.char?).map String.ofList

/-- The UTF-8 bytes of a piece; half a pair has the three bytes of its own code. -/
def Piece.utf8 : Piece → Bytes
  | .char c | .bare c => String.utf8EncodeChar c
  | .half code =>
    [UInt8.ofNat (0xe0 + code / 4096), UInt8.ofNat (0x80 + code / 64 % 64),
     UInt8.ofNat (0x80 + code % 64)]

/-- Whether a literal escapes its control characters. -/
def escaped (pieces : List Piece) : Bool :=
  pieces.all Piece.isEscaped

/-! ### Building documents -/

/-- The document of a text. -/
def text (s : String) : Json := .string (piecesOf s)

/-- The document of a natural number. -/
def natural (n : Nat) : Json := .number (Numeral.render 10 n)

/-- Puts a field where its name belongs among fields in increasing order. -/
def insertField (name : String) (value : Json) : List (String × Json) → List (String × Json)
  | [] => [(name, value)]
  | f :: rest =>
    if name < f.1 then (name, value) :: f :: rest else f :: insertField name value rest

/-- An object of named fields, in increasing order of the names whatever their order here. -/
def record (fields : List (String × Json)) : Json :=
  .object ((fields.foldl (fun sorted f => insertField f.1 f.2 sorted) []).map
    fun f => (piecesOf f.1, f.2))

/-! ### Parts that nobody reads -/

mutual

/-- Whether a reader may skip over a document: all of its strings escape their control
characters. -/
def ignorable : Json → Bool
  | .null | .bool _ | .number _ => true
  | .string pieces => escaped pieces
  | .array items => ignorableItems items
  | .object members => ignorableMembers members
termination_by structural j => j

/-- Whether a reader may skip over all items of an array. -/
def ignorableItems : List Json → Bool
  | [] => true
  | item :: rest => ignorable item && ignorableItems rest
termination_by structural items => items

/-- Whether a reader may skip over all members of an object. -/
def ignorableMembers : List (List Piece × Json) → Bool
  | [] => true
  | (key, value) :: rest => escaped key && ignorable value && ignorableMembers rest
termination_by structural members => members

end

end Json

end MessageCall
