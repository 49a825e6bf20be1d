import StoreModel.Text.Chars
import StoreModel.Value.Basic

/-!
# Entities

An entity describes one type of records: the name of the type and its fields in the order of their
declaration. The description keeps what the declaration says without judging it; what of it can be
stored is decided when a schema is derived, from the shapes of the fields and from their tags.
-/

set_option autoImplicit false

namespace StoreModel

/-! ## Shapes of field types

What matters of the type of a field: one of the types that hold a single stored value, a byte, a
sequence of any shape, or a type that is not looked into and keeps its text. `Shape.text` gives a
shape as a type again, for messages.

`Shape.mapping` says how fields of a shape are stored. A vector of bytes is one value and not a
sequence; sequences may only hold texts or byte vectors, and byte vectors are never indexed. -/

/-- The shape of the type of a field. -/
inductive Shape where
  | bool
  | i64
  | f64
  | u8
  | string
  /-- A vector of bytes. -/
  | bytes
  | byteString
  | timestamp
  /-- A vector of anything but bytes. -/
  | seq (element : Shape)
  /-- Any other type, with its text. -/
  | unsupported (text : String)
deriving DecidableEq, Repr, Inhabited

namespace Shape

/-- The shape as a type. -/
def text : Shape → String
  | bool => "bool"
  | i64 => "i64"
  | f64 => "f64"
  | u8 => "u8"
  | string => "String"
  | bytes => "Vec<u8>"
  | byteString => "ByteString"
  | timestamp => "DateTime<Utc>"
  | seq s => "Vec<" ++ s.text ++ ">"
  | unsupported t => t

/-- How fields of a shape are stored. -/
structure Mapping where
  kind : Kind
  /-- One property for each element of a sequence. -/
  multiple : Bool := false
  /-- The store never indexes these properties. -/
  forcesNoIndex : Bool := false
deriving DecidableEq, Repr

/-- Why fields of a shape cannot be stored. -/
inductive Rejection where
  /-- The type itself. -/
  | type
  /-- The elements of the sequence. -/
  | element
deriving DecidableEq, Repr

/-- How fields of a shape are stored, or why they cannot be. -/
def mapping : Shape → Except Rejection Mapping
  | bool => .ok { kind := .bool }
  | i64 => .ok { kind := .int64 }
  | f64 => .ok { kind := .float64 }
  | string => .ok { kind := .string }
  | byteString => .ok { kind := .byteString }
  | timestamp => .ok { kind := .timestamp }
  | bytes => .ok { kind := .bytes, forcesNoIndex := true }
  | seq string => .ok { kind := .string, multiple := true }
  | seq bytes => .ok { kind := .bytes, multiple := true, forcesNoIndex := true }
  | seq _ => .error .element
  | u8 => .error .type
  | unsupported _ => .error .type

end Shape

/-! ## Fields and entities -/

/-- A declared field. -/
structure Field where
  name : String
  /-- Fields that are not exported are never stored. -/
  exported : Bool := true
  /-- The tag that says how the field is stored, as it was written. -/
  tag : Option String := none
  shape : Shape
deriving DecidableEq, Repr, Inhabited

/-- A type of records. -/
structure Entity where
  typeName : String
  fields : List Field := []
deriving DecidableEq, Repr, Inhabited

/-- The fields that are stored. -/
def Entity.exportedFields (e : Entity) : List Field := e.fields.filter (·.exported)

/-! ## Tags of fields

A tag is the name under which a field is stored, which may be followed by a comma and the word
`noindex`. Blanks around the name do not count; the word has to follow its comma directly, and there
is no second comma. -/

/-- A readable tag. -/
structure Tag where
  name : String
  noIndex : Bool
deriving DecidableEq, Repr

namespace Tag

/-- Why a tag is not readable. -/
inductive ReadError where
  /-- Something other than a name and the one word. -/
  | invalid
  /-- Nothing but blanks for a name. -/
  | emptyName
deriving DecidableEq, Repr

/-- The word that turns indexing off. -/
def noIndexWord : List Char := ['n', 'o', 'i', 'n', 'd', 'e', 'x']

/-- The name and the mark that the pieces of a tag give. -/
def ofPieces : List (List Char) → Except ReadError (List Char × Bool)
  | [name] => .ok (name, false)
  | [name, word] => if word = noIndexWord then .ok (name, true) else .error .invalid
  | _ => .error .invalid

/-- Reads a tag. -/
def read (text : String) : Except ReadError Tag :=
  match ofPieces (Text.splitAt ',' text.toList) with
  | .error e => .error e
  | .ok (name, noIndex) =>
    let trimmed := Text.trimChars name
    if trimmed.isEmpty then .error .emptyName
    else .ok ⟨String.ofList trimmed, noIndex⟩

end Tag

end StoreModel
