import StoreModel.Module.Assembly
import StoreModel.Module.Text
import StoreModel.Schema.Registry

/-!
# From a registry to the outcome of a run

Generation derives the schemas of a registry, assembles the module and gives its text. On the way it
keeps a log: one record for each schema that is derived, and one when all are and code is going to
be made. A registry with a duplicate key leaves no record at all.

A program that prints the module either prints all of it and succeeds, or prints nothing, names the
error for the user and fails.
-/

set_option autoImplicit false

namespace StoreModel

/-! ## Generation -/

/-- A record of the log. -/
inductive LogRecord where
  | derived (key typeName : String) (properties multiValued : Nat)
  | generating (kinds : Nat)
  | generated (path : String) (kinds : Nat)
  | upToDate (path : String)
deriving DecidableEq, Repr

/-- The level and the text of a record. -/
def LogRecord.text : LogRecord → String
  | derived k t p m =>
    "DEBUG derived schema for " ++ k ++ " (" ++ t ++ "): " ++ p.repr ++ " properties, " ++ m.repr
      ++ " multi-valued"
  | generating n => "DEBUG generating code for " ++ n.repr ++ " kinds"
  | generated path n => "INFO generated " ++ path ++ " for " ++ n.repr ++ " kinds"
  | upToDate path => "DEBUG " ++ path ++ " is up to date"

/-- The record of a schema that has been derived. -/
def Schema.record (s : Schema) : LogRecord :=
  .derived s.key s.typeName s.fields.length s.sequenceFields.length

/-- The result of a generation with its log. -/
structure Generation where
  log : List LogRecord
  result : Except GenerationError String

/-- The text of the module for a registry, with types imported from a path. -/
def Registry.generate (r : Registry) (path : String) : Generation :=
  match r.sortedEntries with
  | .error f => { log := [], result := .error (.model f) }
  | .ok entries =>
    let d := deriveEach entries
    let derived := d.schemas.map Schema.record
    match d.fault with
    | some f => { log := derived, result := .error (.model f) }
    | none =>
      { log := derived ++ [.generating d.schemas.length]
        result := (Module.assemble d.schemas path).map Module.text }

/-! ## Outcomes -/

/-- What a run leaves behind. -/
structure Outcome where
  exitCode : UInt8
  output : String
  errors : String
deriving DecidableEq, Repr

/-- The outcome of a run that ends with a result. -/
def Outcome.ofResult : Except GenerationError String → Outcome
  | .ok text => { exitCode := 0, output := text, errors := "" }
  | .error e => { exitCode := 1, output := "", errors := "ERROR: " ++ e.message ++ "\n" }

/-- The outcome of printing the module for a registry, with types imported from a path. -/
def Registry.printModule (r : Registry) (importPath : String) : Outcome :=
  Outcome.ofResult (r.generate importPath).result

end StoreModel
