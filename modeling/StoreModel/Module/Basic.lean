import StoreModel.Source.Member
import StoreModel.Value.Basic

/-!
# Generated modules

A generated module holds constants and, for each type of records, the code that loads and saves its
records. This is the module as data; its text is made from it without further choices.

Loading a record first resets its sequences and then looks at the stored properties one by one: the
name of a property selects an arm, which takes its value if it is of the right kind. A value of
another kind is the one way in which loading can fail. Saving goes through the fields and makes
their properties.
-/

set_option autoImplicit false

namespace StoreModel

/-! ## Mismatched properties -/

/-- A property whose value does not fit its field. -/
structure Mismatch where
  typeName : String
  field : String
  /-- The name of the type that the field, or an element of it, has. -/
  expected : String
  /-- The field is a sequence. -/
  element : Bool
deriving DecidableEq, Repr, Inhabited

/-- The text of a mismatch. -/
def Mismatch.message (m : Mismatch) : String :=
  "model: property for " ++ m.typeName ++ "." ++ m.field ++ " " ++
    (if m.element then "element " else "") ++ "is not " ++ m.expected

/-! ## The code of a module -/

open StoreModel.Source

/-- A constant that holds a text. -/
structure Constant where
  name : Ident
  value : String
deriving DecidableEq, Repr, Inhabited

/-- What loading does with a property of one name. -/
structure Arm where
  name : String
  field : Ident
  kind : Kind
  /-- The value goes to the end of the field, which is a sequence, and not in its place. -/
  push : Bool
  /-- The fault of a value of another kind. -/
  mismatch : Mismatch
deriving DecidableEq, Repr, Inhabited

/-- What saving does with one field. -/
structure Saving where
  field : Ident
  name : String
  kind : Kind
  /-- Each element of the field makes a property, and these are marked as multiple. -/
  loop : Bool
  noIndex : Bool
deriving DecidableEq, Repr, Inhabited

/-- The code that loads and saves the records of one type. -/
structure Implementation where
  typeName : Ident
  resets : List Ident
  arms : List Arm
  savings : List Saving
deriving DecidableEq, Repr, Inhabited

/-- The path of the module that the types are imported from. -/
structure ImportPath where
  leading : Bool
  names : List String
deriving DecidableEq, Repr, Inhabited

/-- A generated module. -/
structure Module where
  importPath : ImportPath
  constants : List Constant
  implementations : List Implementation
deriving DecidableEq, Repr, Inhabited

end StoreModel
