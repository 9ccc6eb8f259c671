import MessageCall.Json.Reader
import MessageCall.Json.Writer
import MessageCall.Quantity
import MessageCall.Text.HexField
import MessageCall.WordMap

/-!
# Reading values out of documents

A value with named fields is written as an object, and is read from an object or from an array of
the fields in their declared order. `Json.fields?` finds what stands in the place of every field,
a `Slot`, and the field's own rule decides what to make of it: a required field must be given, a
defaulted one may be left out, and an optional one may be `null` or be left out of an object, but
not off the end of an array. An object may hold other members, as long as they can be skipped
over, but no field twice.

A value with cases is written as the name of its case, or as an object whose only member is named
for the case and holds what the case carries (`Json.variant?`).

`Document` is the class of the types that have such a form.
-/

namespace MessageCall

/-- A type whose values are written as documents and read from them. -/
class Document (α : Type) where
  /-- The document of a value. -/
  toJson : α → Json
  /-- The value of a document, if it has one of this type. -/
  ofJson? : Json → Option α

/-- The text of a value. -/
def Document.render {α : Type} [Document α] (a : α) : String := (toJson a).render

/-- The value that a text spells. -/
def Document.read? {α : Type} [Document α] (s : String) : Option α :=
  (Json.read? s).bind ofJson?

namespace Json

/-! ### Plain values -/

/-- The text of a string. -/
def text? : Json → Option String
  | .string pieces => textOf? pieces
  | _ => none

/-- A truth value. -/
def bool? : Json → Option Bool
  | .bool b => some b
  | _ => none

/-- A number whose literal is digits only. -/
def natural? : Json → Option Nat
  | .number literal => Numeral.value? 10 literal
  | _ => none

/-- A number below `2 ^ 64`. -/
def count? (j : Json) : Option UInt64 :=
  (natural? j).bind fun n => if n < UInt64.size then some (UInt64.ofNat n) else none

/-- A number below `2 ^ 8`. -/
def byte? (j : Json) : Option UInt8 :=
  (natural? j).bind fun n => if n < UInt8.size then some (UInt8.ofNat n) else none

/-- The number of a count. -/
def ofCount (n : UInt64) : Json := natural n.toNat

/-- What `read` makes of a document, or nothing where the document is `null`. -/
def nullable? {α : Type} (read : Json → Option α) : Json → Option (Option α)
  | .null => some none
  | j => (read j).map some

/-- The document of a value that may be missing. -/
def ofOption {α : Type} (write : α → Json) : Option α → Json
  | none => .null
  | some a => write a

/-! ### Words and byte strings -/

/-- A string that a reader of text takes. -/
def spelled? {α : Type} (read : List Char → Option α) (j : Json) : Option α :=
  (text? j).bind fun s => read s.toList

/-- A hash. -/
def hash? : Json → Option Hash := spelled? HexField.hash?

/-- An address. -/
def address? : Json → Option Address := spelled? HexField.address?

/-- A word. -/
def word? : Json → Option Word := spelled? HexField.word?

/-- A quantity in one of the spellings of `Quantity`. -/
def quantity? {α : Type} (read : List Char → Except QuantityError α) : Json → Option α :=
  spelled? fun text => (read text).toOption

/-- The document of a hash, all digits. -/
def ofHash (h : Hash) : Json := .text (Hex.hash h)

/-- The document of an address, all digits. -/
def ofAddress (a : Address) : Json := .text (Hex.address a)

/-- The document of a word, with the fewest digits. -/
def ofWord (w : Word) : Json := .text (Quantity.ofWord w)

/-- Bytes as an array of numbers, or as the UTF-8 bytes of a string. -/
def byteArray? : Json → Option Bytes
  | .array items => items.mapM byte?
  | .string pieces => some (pieces.flatMap Piece.utf8)
  | _ => none

/-- The document of bytes: an array of numbers. -/
def ofByteArray (bytes : Bytes) : Json := .array (bytes.map fun b => natural b.toNat)

/-! ### Maps -/

/-- A map, from an object whose keys and values the readers take. Of two members with one key the
later one stays. -/
def map? {w : Nat} {α : Type} (key : List Char → Option (BitVec w)) (value : Json → Option α) :
    Json → Option (WordMap w α)
  | .object members =>
    (members.mapM fun (m : List Piece × Json) => do
      let name ← textOf? m.1
      return (← key name.toList, ← value m.2)).map WordMap.ofList
  | _ => none

/-- The document of a map. -/
def ofMap {w : Nat} {α : Type} (key : BitVec w → String) (value : α → Json)
    (m : WordMap w α) : Json :=
  .record (m.entries.map fun e => (key e.1, value e.2))

/-! ### Named fields -/

/-- What stands in the place of a field. -/
inductive Slot
  /-- A document. -/
  | given (j : Json)
  /-- Nothing: the object has no member of the field's name. -/
  | unnamed
  /-- Nothing: the array ends before the field's place. -/
  | beyond

/-- The slot of a name among members, unless the name is repeated. -/
def memberSlot? (members : List (String × Json)) (name : String) : Option Slot :=
  match members.filter (·.1 = name) with
  | [] => some .unnamed
  | [m] => some (.given m.2)
  | _ => none

/-- The slots of as many places as there are names. -/
def itemSlots : List String → List Json → List Slot
  | [], _ => []
  | _ :: names, [] => .beyond :: itemSlots names []
  | _ :: names, item :: items => .given item :: itemSlots names items

/-- The slots of the named fields, in the order of the names. -/
def fields? (names : List String) : Json → Option (List Slot)
  | .object members => do
    let members ← members.mapM fun (m : List Piece × Json) =>
      (textOf? m.1).map fun key => (key, m.2)
    if members.all fun m => names.contains m.1 || m.2.ignorable then
      names.mapM (memberSlot? members)
    else none
  | .array items => if items.length ≤ names.length then some (itemSlots names items) else none
  | _ => none

namespace Slot

variable {α : Type}

/-- A field that must be given. -/
def required (read : Json → Option α) : Slot → Option α
  | .given j => read j
  | .unnamed | .beyond => none

/-- A field that has the value `default` where it is left out. -/
def defaulted (default : α) (read : Json → Option α) : Slot → Option α
  | .given j => read j
  | .unnamed | .beyond => some default

/-- A field that may be `null`, and may be left out of an object. -/
def optional (read : Json → Option α) : Slot → Option (Option α)
  | .given j => nullable? read j
  | .unnamed => some none
  | .beyond => none

end Slot

/-! ### Cases -/

/-- The name of a case and what it carries: nothing behind a plain name. -/
def variant? : Json → Option (String × Option Json)
  | .string pieces => (textOf? pieces).map fun name => (name, none)
  | .object [(key, value)] => (textOf? key).map fun name => (name, some value)
  | _ => none

/-- Whether a case carries nothing: a plain name, or a name with `null`. -/
def isUnit : Option Json → Bool
  | none | some .null => true
  | some _ => false

/-- The document of a case that carries something. -/
def ofVariant (name : String) (payload : Json) : Json := .record [(name, payload)]

end Json

end MessageCall
