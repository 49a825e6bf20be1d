import StoreModel.Entity.Basic
import StoreModel.Source.Grammar
import StoreModel.Source.Type
import StoreModel.Text.Chars
import StoreModel.Text.Quoted

/-!
# Declarations of entities and their registration

An entity may be declared as a structure with named fields. The attribute `datastore` on a field
holds its tag, and on the structure the key that the entity is registered with; without it the key
is the name of the type. Fields that everyone sees are exported.

`Declaration.read` finds the entity that a text declares, or the first fault of the text. The way
back is `Declaration.registration`: the source text that makes the declared type describe itself.
-/

set_option autoImplicit false

namespace StoreModel

open StoreModel.Source

/-! ## The shape of a type

A type is judged by the last name of its path, whatever comes before; parentheses and groups around
it do not count. Scalars have no arguments. A vector has exactly one argument, a type; a vector of
bytes is a shape of its own. The time of the one zone that is stored is written with that zone as
its only argument. Every other type keeps its text. -/

/-- The scalar types by their names. -/
def Shape.scalar? (name : String) : Option Shape :=
  match name with
  | "bool" => some .bool
  | "i64" => some .i64
  | "f64" => some .f64
  | "u8" => some .u8
  | "String" => some .string
  | "ByteString" => some .byteString
  | _ => none

/-- The shape of a vector, by the shape of its elements. -/
def Shape.vectorOf : Shape → Shape
  | .u8 => .bytes
  | s => .seq s

/-- The type is a path that ends in the name of the zone. -/
def isUtc : Ty → Bool
  | .path _ segments =>
    match segments.getLast? with
    | some (.plain name) => name == "Utc"
    | _ => false
  | _ => false

mutual

/-- The shape of a type. -/
def Shape.ofType : Ty → Shape
  | .paren t => ofType t
  | .group t => ofType t
  | .path leading segments =>
    (ofSegments? segments).getD (.unsupported (Ty.path leading segments).text)
  | .bound parens ts => .unsupported (Ty.bound parens ts).text
  | .other ts => .unsupported (Ty.other ts).text

/-- The shape that the last of the names of a path gives, if it is the name of a supported type. -/
def Shape.ofSegments? : List Segment → Option Shape
  | [] => none
  | [s] => ofSegment? s
  | _ :: s :: r => ofSegments? (s :: r)

/-- The shape that a name with its arguments gives, if it is the name of a supported type. -/
def Shape.ofSegment? : Segment → Option Shape
  | .plain name => scalar? name
  | .generic name _ args _ =>
    match args with
    | [.type t] =>
      if name = "Vec" then some (ofType t).vectorOf
      else if name = "DateTime" ∧ isUtc t = true then some .timestamp
      else none
    | _ => none

end

/-! ## Declarations

`Declaration.ofItem` looks at an item in a fixed order and gives the first fault: generic
parameters, the attributes of the item, its form, and its fields, exported or not, each in the order
of the source. Attributes with other names are none of its business. -/

/-- Why an item does not declare an entity. -/
inductive DeclarationError where
  | generic
  | notStruct
  | unnamedFields
  /-- The attribute of the item has no arguments. -/
  | noArguments
  /-- The attribute of the item has a value in place of arguments. -/
  | valueForArguments
  /-- An argument that is none of the known ones. -/
  | unknownArgument
  | keyTwice
  | blankKey
  /-- The tokens of the attribute of the item are not a list of arguments. -/
  | malformed (fault : Fault)
  /-- An argument that begins with a literal. -/
  | literalArgument
  /-- An argument that begins with neither a word nor a literal. -/
  | strayArgument
  | badTag
  | tagTwice
deriving DecidableEq, Repr

/-- The text of a fault. -/
def DeclarationError.message : DeclarationError → String
  | generic => "Entity cannot be derived for generic structs"
  | notStruct => "Entity can only be derived for structs"
  | unnamedFields => "Entity requires named fields"
  | noArguments => "expected attribute arguments in parentheses: #[datastore(...)]"
  | valueForArguments => "expected parentheses: #[datastore(...)]"
  | unknownArgument => "unknown datastore attribute, expected \x60kind = \"...\"\x60"
  | keyTwice => "kind already set"
  | blankKey => "kind must not be empty"
  | malformed f => f.message
  | literalArgument => "unexpected literal in nested attribute, expected ident"
  | strayArgument => "unexpected token in nested attribute, expected ident"
  | badTag => "expected #[datastore(\"name\")] or #[datastore(\"name,noindex\")]"
  | tagTwice => "field already has a #[datastore(...)] annotation"

/-- The name of the attribute that describes how records are stored. -/
def attributeName : String := "datastore"

/-- An entity with the key it is to be registered with. -/
structure Declaration where
  key : String
  entity : Entity
deriving DecidableEq, Repr, Inhabited

namespace Declaration

/-! ### The attribute of the item -/

/-- What a reader makes of the tokens of an attribute, and the tokens that are left. -/
def readFrom {α : Type} (read : Reader α) (ts : List Tree) :
    Except DeclarationError (α × List Tree) :=
  match read ⟨ts, none⟩ with
  | .ok (a, s) => .ok (a, s.trees)
  | .error f => .error (.malformed f)

/-- The further names of the path of an argument. -/
def readMoreNames : Reader (List String) :=
  readMany (opAhead "::") do
    let _ ← readOp "::"
    readAnyWord

/-- The path of an argument: whether `::` begins it, and its names, keywords included. -/
def readArgumentPath (ts : List Tree) :
    Except DeclarationError ((Bool × List String) × List Tree) :=
  let leading := opAhead "::" ts
  match if leading then past 2 ts else ts with
  | .word w :: r => do
    let (ws, r) ← readFrom readMoreNames r
    .ok ((leading, w :: ws), r)
  | [] => .error (.malformed ⟨true, .expected ["nested attribute"]⟩)
  | ts => .error (if literalAhead ts then .literalArgument else .strayArgument)

/-- The text of a string literal. -/
def readStringLiteral : Reader String := do
  match ← ahead with
  | .literal _ (.string s) :: _ =>
    let _ ← take 1
    pure s
  | _ => refuseFor Start.stringLiteral.name

/-- The key that an argument gives, when the key given before is known. -/
def readArgument (key : Option String) (ts : List Tree) :
    Except DeclarationError (String × List Tree) := do
  let (path, ts) ← readArgumentPath ts
  if path = (false, ["kind"]) then
    if key.isSome then .error .keyTwice
    else
      let (_, ts) ← readFrom (readOp "=") ts
      let (s, ts) ← readFrom readStringLiteral ts
      if (Text.trimChars s.toList).isEmpty then .error .blankKey else .ok (s, ts)
  else .error .unknownArgument

/-- The key after arguments with commas between them. The first argument bounds their number. -/
def readArguments : Nat → Option String → List Tree → Except DeclarationError (Option String)
  | 0, key, _ => .ok key
  | n + 1, key, ts => do
    let (s, ts) ← readArgument key ts
    if ts.isEmpty then .ok (some s)
    else
      let (_, ts) ← readFrom (readOp ",") ts
      if ts.isEmpty then .ok (some s) else readArguments n (some s) ts

/-- The key after an attribute of the item. -/
def readKeyAttribute (key : Option String) (a : Attribute) :
    Except DeclarationError (Option String) :=
  match a.body with
  | .nothing => .error .noArguments
  | .value _ => .error .valueForArguments
  | .group _ [] => .ok key
  | .group _ content => readArguments content.length key content

/-- The key after the attributes of the item. -/
def readKey : Option String → List Attribute → Except DeclarationError (Option String)
  | key, [] => .ok key
  | key, a :: as =>
    if a.isNamed attributeName then do
      let key ← readKeyAttribute key a
      readKey key as
    else readKey key as

/-! ### Fields -/

/-- The tag that an attribute of a field holds: one string literal in brackets. -/
def tagOf? (a : Attribute) : Option String :=
  match a.body with
  | .group _ [.literal _ (.string s)] => some s
  | _ => none

/-- The tag after the attributes of a field. -/
def readTag : Option String → List Attribute → Except DeclarationError (Option String)
  | tag, [] => .ok tag
  | tag, a :: as =>
    if a.isNamed attributeName then
      if tag.isSome then .error .tagTwice
      else match tagOf? a with
        | some s => readTag (some s) as
        | none => .error .badTag
    else readTag tag as

/-- A field as it is described. -/
def readField (f : NamedField) : Except DeclarationError Field := do
  let tag ← readTag none f.attributes
  .ok { name := f.name
        exported := f.visibility.isPublic
        tag
        shape := Shape.ofType f.type }

/-- Fields as they are described. -/
def readFields : List NamedField → Except DeclarationError (List Field)
  | [] => .ok []
  | f :: fs => do
    let g ← readField f
    let gs ← readFields fs
    .ok (g :: gs)

/-- The fields of the body of an item. -/
def readBody : Body → Except DeclarationError (List Field)
  | .named fields => readFields fields
  | .numbered | .empty => .error .unnamedFields
  | .enumeration | .overlay => .error .notStruct

/-- The entity that an item declares. -/
def ofItem (i : Item) : Except DeclarationError Declaration :=
  if i.generic then .error .generic
  else do
    let key ← readKey none i.attributes
    let fields ← readBody i.body
    .ok { key := key.getD i.name, entity := { typeName := i.name, fields } }

/-! ### From text -/

/-- Why a text does not declare an entity. -/
inductive ReadError where
  /-- It is not one declaration of a type. -/
  | unreadable (fault : Fault)
  | refused (cause : DeclarationError)
deriving DecidableEq, Repr

/-- The entity that a text declares. -/
def read (s : String) : Except ReadError Declaration :=
  match Item.read s with
  | .error f => .error (.unreadable f)
  | .ok i => (ofItem i).mapError .refused

end Declaration

/-! ## Registrations

The key of an entity, its description, and the submission of both to the list of all entities. Every
name and text of the declaration stands in the registration as a literal. -/

open StoreModel.Text

/-- The text of a shape as an expression. -/
def Shape.expression : Shape → String
  | bool => "::propkit::model::TypeShape::Bool"
  | i64 => "::propkit::model::TypeShape::I64"
  | f64 => "::propkit::model::TypeShape::F64"
  | u8 => "::propkit::model::TypeShape::U8"
  | string => "::propkit::model::TypeShape::Str"
  | bytes => "::propkit::model::TypeShape::Bytes"
  | byteString => "::propkit::model::TypeShape::ByteString"
  | timestamp => "::propkit::model::TypeShape::Timestamp"
  | seq s => "::propkit::model::TypeShape::Seq(::std::boxed::Box::new(" ++ s.expression ++ "))"
  | unsupported t =>
    "::propkit::model::TypeShape::Unsupported(" ++ quoteLiteral t ++ ".to_string())"

/-- The text of a tag, which may be absent, as an expression. -/
def tagExpression : Option String → String
  | some a => "::std::option::Option::Some(" ++ quoteLiteral a ++ ".to_string())"
  | none => "::std::option::Option::None"

/-- The text of a field as an expression. -/
def Field.expression (f : Field) : String :=
  "::propkit::model::FieldDef \x7b name: " ++ quoteLiteral f.name ++ ".to_string(), exported: "
    ++ (if f.exported then "true" else "false") ++ ", tag: " ++ tagExpression f.tag
    ++ ", shape: " ++ f.shape.expression ++ ", \x7d"

/-- The text of an entity as an expression. -/
def Entity.expression (e : Entity) : String :=
  "::propkit::model::EntityDef \x7b type_name: " ++ quoteLiteral e.typeName
    ++ ".to_string(), fields: ::std::vec![" ++ ", ".intercalate (e.fields.map Field.expression)
    ++ "], \x7d"

/-- The source text of the registration. -/
def Declaration.registration (d : Declaration) : String :=
  let name := d.entity.typeName
  "impl ::propkit::model::EntityModel for " ++ name ++ " \x7b const KIND: &'static str = "
    ++ quoteLiteral d.key ++ "; fn entity_def() -> ::propkit::model::EntityDef \x7b "
    ++ d.entity.expression ++ " \x7d \x7d ::propkit::inventory::submit! \x7b "
    ++ "::propkit::registration::EntityRegistration \x7b kind: " ++ quoteLiteral d.key
    ++ ", type_name: " ++ quoteLiteral name ++ ", def_fn: <" ++ name
    ++ " as ::propkit::model::EntityModel>::entity_def, \x7d \x7d"

end StoreModel
