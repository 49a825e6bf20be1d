import StoreModel.Source.Type

/-!
# Attributes and items

A declared type, as far as it matters to a description of its records: its attributes, its name,
whether it declares generic parameters, and its fields with their attributes, their visibility and
their types. The fields of anything but a structure with named fields are not kept.
-/

set_option autoImplicit false

namespace StoreModel.Source

/-! ## Attributes

An attribute is a path in brackets that may be followed by tokens in brackets of any form, or by a
value. What the tokens mean is up to whoever asks for attributes of that name. -/

/-- What follows the path of an attribute. -/
inductive AttributeBody where
  | nothing
  /-- A group in brackets of any form. -/
  | group (delimiter : Delimiter) (content : List Tree)
  /-- An equals sign and an expression. -/
  | value (tokens : List Tree)
deriving Inhabited

/-- The tokens that follow the path of an attribute. -/
def AttributeBody.trees : AttributeBody → List Tree
  | nothing => []
  | group d content => [.group d content]
  | value ts => .mark '=' :: ts

/-- An attribute. -/
structure Attribute where
  leading : Bool
  path : List String
  body : AttributeBody
deriving Inhabited

namespace Attribute

/-- The path of the attribute is one given word. -/
def isNamed (a : Attribute) (name : String) : Bool := !a.leading && a.path == [name]

/-- The tokens of an attribute between its brackets. -/
def content (a : Attribute) : List Tree :=
  pathTrees a.leading (a.path.map .plain) ++ a.body.trees

/-- The tokens of an attribute of what follows it. -/
def trees (a : Attribute) : List Tree := [.mark '#', .group .bracket a.content]

/-- The tokens of an attribute of what holds it. -/
def innerTrees (a : Attribute) : List Tree := [.mark '#', .mark '!', .group .bracket a.content]

end Attribute

/-! ## Items -/

/-- Who sees a field. -/
inductive Visibility where
  | inherited
  | everyone
  /-- Some part of the program. -/
  | restricted (place : List Tree)
deriving Inhabited

namespace Visibility

/-- Everyone sees the field. -/
def isPublic : Visibility → Bool
  | everyone => true
  | _ => false

/-- The tokens of a visibility. -/
def trees : Visibility → List Tree
  | inherited => []
  | everyone => [.word "pub"]
  | restricted place => [.word "pub", .group .paren place]

end Visibility

/-- Generic parameters, in the order they are printed in. -/
structure Generics where
  /-- They are declared, though there may be none. -/
  declared : Bool := false
  parameters : List (List Tree) := []
  comma : Bool := false
deriving Inhabited

/-- The tokens of generic parameters; none if there are no parameters. -/
def Generics.trees (g : Generics) : List Tree :=
  if g.parameters.isEmpty then []
  else
    .mark '<' :: [Tree.mark ','].intercalate g.parameters
      ++ (if g.comma then [.mark ','] else []) ++ [.mark '>']

/-- A named field. -/
structure NamedField where
  attributes : List Attribute
  visibility : Visibility
  name : String
  type : Ty
deriving Inhabited

/-- The tokens of a named field. -/
def NamedField.trees (f : NamedField) : List Tree :=
  f.attributes.flatMap Attribute.trees ++ f.visibility.trees
    ++ .word f.name :: .mark ':' :: f.type.trees

/-- The form of an item. -/
inductive Body where
  /-- A structure with named fields. -/
  | named (fields : List NamedField)
  /-- A structure with numbered fields. -/
  | numbered
  /-- A structure without fields. -/
  | empty
  | enumeration
  | overlay
deriving Inhabited

/-- A declared type. -/
structure Item where
  attributes : List Attribute
  name : String
  /-- It declares at least one generic parameter. -/
  generic : Bool
  body : Body
deriving Inhabited

end StoreModel.Source
