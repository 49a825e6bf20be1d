import StoreModel.Module.Basic
import StoreModel.Schema.Basic
import StoreModel.Source.Grammar
import StoreModel.Source.Lexer

/-!
# Assembling a module from schemas

For each schema the module gets a constant that names its key and, for each indexed field, seven
constants with the texts of queries for it; then the code for its records. `Module.assemble` does
this in a fixed order, and the first thing that is wrong decides the error:

1. the import path is read as a path;
2. the constants, schema by schema: no two of them may be meant to have one name, and each name has
   to be an identifier;
3. the code, schema by schema: the name of the type and the fields have to be identifiers;
4. the import path has to be one that names can be imported from.

Names are compared as they are meant, before they are read as identifiers.
-/

set_option autoImplicit false

namespace StoreModel

open StoreModel.Source

/-! ## Queries -/

/-- A query for one field: by comparison with a value, or for an order. -/
inductive Query where
  | equal
  | ascending
  | descending
  | greater
  | atLeast
  | less
  | atMost
deriving DecidableEq, Repr, Inhabited

namespace Query

/-- Every query, in the order of the constants. -/
def all : List Query := [equal, ascending, descending, greater, atLeast, less, atMost]

/-- The end of the name of the constant. -/
def suffix : Query → String
  | equal => ""
  | ascending => "_asc"
  | descending => "_desc"
  | greater => "_gt"
  | atLeast => "_gte"
  | less => "_lt"
  | atMost => "_lte"

/-- The text of the query for a stored name. -/
def text (q : Query) (name : String) : String :=
  match q with
  | equal => name ++ " ="
  | ascending => name
  | descending => "-" ++ name
  | greater => name ++ " >"
  | atLeast => name ++ " >="
  | less => name ++ " <"
  | atMost => name ++ " <="

end Query

/-! ## Constants -/

/-- A constant as it is meant, with the field that asks for it. -/
structure Intended where
  name : String
  value : String
  field : String
deriving DecidableEq, Repr, Inhabited

/-- The name of the constant that holds the key of a type. -/
def keyConstant (typeName : String) : String := Ident.dropMark typeName ++ "Kind"

/-- The name of the constant for a query. -/
def queryConstant (typeName field : String) (q : Query) : String :=
  Ident.dropMark typeName ++ "_" ++ Ident.dropMark field ++ q.suffix

/-- The constants for the queries of a field. -/
def StoredField.constants (typeName : String) (p : StoredField) : List Intended :=
  Query.all.map fun q =>
    { name := queryConstant typeName p.field q, value := q.text p.name, field := p.field }

/-- The constants of a schema. -/
def Schema.constants (s : Schema) : List Intended :=
  { name := keyConstant s.typeName, value := s.key, field := "kind" } ::
    s.indexed.flatMap (StoredField.constants s.typeName)

/-- Why no module is generated. -/
inductive GenerationError where
  | model (fault : SchemaError)
  | importPath (text : String) (cause : Fault)
  | identifier (text : String) (cause : Fault)
  /-- The pieces do not make a module. -/
  | assembly (cause : Fault)
deriving DecidableEq, Repr

/-- The text of an error. -/
def GenerationError.message : GenerationError → String
  | model f => f.message
  | importPath t c => "invalid import path " ++ Text.quoteMessage t ++ ": " ++ c.message
  | identifier t c => Text.quoteMessage t ++ " is not a valid identifier: " ++ c.message
  | assembly c => "Failed to parse generated code: " ++ c.message

/-- The identifier that a text holds. -/
def identifier (s : String) : Except GenerationError Ident :=
  (Ident.read s).mapError (.identifier s)

/-- A constant, when the names before it are known. -/
def claim (seen : List String) (typeName : String) (c : Intended) :
    Except GenerationError Constant :=
  if seen.contains c.name then .error (.model (.constantCollision c.name typeName c.field))
  else (identifier c.name).map fun name => ⟨name, c.value⟩

/-- Constants with the types they are for, when the names before them are known. -/
def claimAll : List String → List (String × Intended) → Except GenerationError (List Constant)
  | _, [] => .ok []
  | seen, (typeName, c) :: r => do
    let k ← claim seen typeName c
    let ks ← claimAll (c.name :: seen) r
    .ok (k :: ks)

/-- The constants of schemas with the types they are for, in order. -/
def intendedConstants (ss : List Schema) : List (String × Intended) :=
  ss.flatMap fun s => s.constants.map fun c => (s.typeName, c)

/-! ## Loading and saving -/

/-- What loading does with the properties of a field. -/
def Schema.arm (s : Schema) (p : StoredField) : Except GenerationError Arm :=
  (identifier p.field).map fun field =>
    { name := p.name
      field
      kind := p.kind
      push := p.multiple
      mismatch := ⟨s.typeName, p.field, p.kind.typeName, p.multiple⟩ }

/-- What saving does with a field. -/
def StoredField.saving (p : StoredField) : Except GenerationError Saving :=
  (identifier p.field).map fun field =>
    { field, name := p.name, kind := p.kind, loop := p.multiple, noIndex := p.noIndex }

/-- The code for the records of a schema. -/
def Schema.implementation (s : Schema) : Except GenerationError Implementation := do
  let typeName ← identifier s.typeName
  let resets ← s.sequenceFields.mapM identifier
  let arms ← s.byName.mapM s.arm
  let savings ← s.byField.mapM StoredField.saving
  .ok { typeName, resets, arms, savings }

/-! ## The import path -/

/-- The fault of an import that goes on with what no import can go on with. -/
def importFault : Fault := ⟨false, .expected (importStarts.map Start.name)⟩

/-- The names of a path that names can be imported from. No name may have arguments, and none may
be the word for the type at hand. -/
def importNames : List Segment → Except Fault (List String)
  | [] => .ok []
  | .plain "Self" :: _ => .error importFault
  | .plain name :: r => (importNames r).map (name :: ·)
  | .generic name separated _ _ :: _ =>
    if separated || name == "Self" then .error importFault
    else .error ⟨false, .expected [token ";"]⟩

/-- The module of schemas, with types imported from a path. -/
def Module.assemble (ss : List Schema) (path : String) : Except GenerationError Module := do
  let (leading, segments) ← (readText (readTrees path) readTypePath).mapError (.importPath path)
  let constants ← claimAll [] (intendedConstants ss)
  let implementations ← ss.mapM Schema.implementation
  let names ← (importNames segments).mapError .assembly
  .ok { importPath := ⟨leading, names⟩, constants, implementations }

end StoreModel
