import Std.Data.ExtTreeMap
import StoreModel.Entity.Basic
import StoreModel.Text.Quoted

/-!
# Schemas

A schema is an entity that can be stored, under the key it is registered with: its exported fields
in the order of their declaration, each with the name, the kind and the marks of its properties, and
two maps that say at which position a field stands, one by its stored name and one by its
identifier. Everything that goes through the fields in an order of names or identifiers goes through
one of the maps.

`Schema.derive` fills all of this field by field, in a `Draft`; the first field that cannot be
stored decides the error, and for one field the tag is looked at before the name, the name before
the type. A stored name is looked up among those before it. An identifier is not: identifiers may
repeat in a description that was not made from a declaration, and the position of a later field then
takes the place of the earlier one.
-/

set_option autoImplicit false

namespace StoreModel

open Std (ExtTreeMap)

/-! ## Why a model is refused

Each cause names the type and the field that have to be mended, and what is wrong there. Keys, tags
and the names of properties may be any texts and are quoted. Names of types and fields and the texts
of types are shown as they are. -/

/-- A fault of a model. -/
inductive SchemaError where
  | missingTag (typeName field : String)
  | invalidTag (typeName field tag : String)
  | emptyName (typeName field tag : String)
  /-- Two fields of one type are stored under one name. -/
  | duplicateName (name typeName field previous : String)
  | unsupportedType (typeName field type : String)
  | unsupportedElement (typeName field type : String)
  /-- Two different entities are registered under one key. -/
  | duplicateKey (key first second : String)
  /-- Two constants of the generated module would have one name. -/
  | constantCollision (constant typeName field : String)
deriving DecidableEq, Repr

/-- The text of a fault. -/
def SchemaError.message : SchemaError → String
  | missingTag t f => "missing datastore struct tag for " ++ t ++ "." ++ f
  | invalidTag t f a =>
    "invalid struct tag for " ++ t ++ "." ++ f ++ ": " ++ Text.quoteMessage a
  | emptyName t f a =>
    "empty datastore field name for " ++ t ++ "." ++ f ++ ": " ++ Text.quoteMessage a
  | duplicateName n t f p =>
    "datastore field name " ++ Text.quoteMessage n ++ " for " ++ t ++ "." ++ f ++
      " already used for " ++ t ++ "." ++ p
  | unsupportedType t f ty => "unsupported type " ++ ty ++ " specified for " ++ t ++ "." ++ f
  | unsupportedElement t f ty =>
    "unsupported slice type " ++ ty ++ " specified for " ++ t ++ "." ++ f
  | duplicateKey k a b =>
    "kind " ++ Text.quoteMessage k ++ " registered for both " ++ a ++ " and " ++ b
  | constantCollision c t f =>
    "generated constant " ++ c ++ " for " ++ t ++ "." ++ f ++ " collides with an earlier constant"

/-! ## Stored fields and schemas -/

/-- A field with the way it is stored. -/
structure StoredField where
  field : String
  name : String
  kind : Kind
  multiple : Bool
  noIndex : Bool
deriving DecidableEq, Repr, Inhabited

/-- A type of records that can be stored. -/
structure Schema where
  key : String
  typeName : String
  /-- The fields in the order of their declaration. -/
  fields : List StoredField
  /-- Where in `fields` a stored name stands. -/
  namePositions : ExtTreeMap String Nat
  /-- Where in `fields` an identifier stands. -/
  fieldPositions : ExtTreeMap String Nat
  /-- The identifiers of the fields that are sequences, in order. -/
  sequenceFields : List String
deriving DecidableEq, Repr, Inhabited

namespace Schema

/-! ### Orders and look-ups -/

/-- The fields at the positions of a map, in the order of its keys. -/
def fieldsAt (s : Schema) (positions : ExtTreeMap String Nat) : List StoredField :=
  positions.toList.filterMap fun e => s.fields[e.2]?

/-- The fields in the order of their names. -/
def byName (s : Schema) : List StoredField := s.fieldsAt s.namePositions

/-- The fields in the order of their identifiers. -/
def byField (s : Schema) : List StoredField := s.fieldsAt s.fieldPositions

/-- The field that is stored under a name. -/
def getByName? (s : Schema) (name : String) : Option StoredField :=
  s.namePositions[name]?.bind (s.fields[·]?)

/-- The field with an identifier. -/
def getByField? (s : Schema) (field : String) : Option StoredField :=
  s.fieldPositions[field]?.bind (s.fields[·]?)

/-- The fields that the store indexes, in the order of their declaration. -/
def indexed (s : Schema) : List StoredField := s.fields.filter (!·.noIndex)

end Schema

/-! ### Derivation -/

/-- The way a field is stored, when the names before it are known, each with its field. -/
def Schema.deriveField (typeName : String) (seen : ExtTreeMap String String) (f : Field) :
    Except SchemaError StoredField :=
  match f.tag.getD "" with
  | "" => .error (.missingTag typeName f.name)
  | text =>
    match Tag.read text with
    | .error .invalid => .error (.invalidTag typeName f.name text)
    | .error .emptyName => .error (.emptyName typeName f.name text)
    | .ok a =>
      match seen[a.name]? with
      | some previous => .error (.duplicateName a.name typeName f.name previous)
      | none =>
        match f.shape.mapping with
        | .error .type => .error (.unsupportedType typeName f.name f.shape.text)
        | .error .element => .error (.unsupportedElement typeName f.name f.shape.text)
        | .ok m =>
          .ok { field := f.name
                name := a.name
                kind := m.kind
                multiple := m.multiple
                noIndex := a.noIndex || m.forcesNoIndex }

/-- A schema in the making: what the fields that were taken have left. -/
structure Draft where
  /-- The field that has taken a stored name. -/
  seen : ExtTreeMap String String := ∅
  fields : List StoredField := []
  namePositions : ExtTreeMap String Nat := ∅
  fieldPositions : ExtTreeMap String Nat := ∅
  /-- The identifiers of the fields that are sequences, as they came. -/
  sequences : List String := []
deriving Inhabited

namespace Draft

/-- One more field. It stands behind all others, and its position is entered under its name and its
identifier, whatever stood there. -/
def add (d : Draft) (p : StoredField) : Draft :=
  { seen := d.seen.insert p.name p.field
    fields := d.fields ++ [p]
    namePositions := d.namePositions.insert p.name d.fields.length
    fieldPositions := d.fieldPositions.insert p.field d.fields.length
    sequences := if p.multiple then d.sequences ++ [p.field] else d.sequences }

/-- Takes one more field of a type. -/
def take (typeName : String) (d : Draft) (f : Field) : Except SchemaError Draft :=
  (Schema.deriveField typeName d.seen f).map d.add

end Draft

/-- Of each run of equal neighbours one. -/
def dropRepeats : List String → List String
  | [] => []
  | [a] => [a]
  | a :: b :: r => if a = b then dropRepeats (b :: r) else a :: dropRepeats (b :: r)

/-- The schema of a draft whose fields are all there. -/
def Draft.finish (d : Draft) (key typeName : String) : Schema :=
  { key
    typeName
    fields := d.fields
    namePositions := d.namePositions
    fieldPositions := d.fieldPositions
    sequenceFields := dropRepeats (d.sequences.mergeSort fun a b => decide (a ≤ b)) }

/-- The schema of an entity under a key. -/
def Schema.derive (key : String) (e : Entity) : Except SchemaError Schema :=
  (e.exportedFields.foldlM (Draft.take e.typeName) {}).map (·.finish key e.typeName)

end StoreModel
