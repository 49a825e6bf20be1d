import StoreModel.Source.BoundReader
import StoreModel.Source.Item

/-!
# Reading the bodies of declared types

What follows the name of a structure, an enumeration or a union: generic parameters, conditions on
them, and fields or cases. Each body is read as what matters of it, and as its tokens.
-/

set_option autoImplicit false

namespace StoreModel.Source

variable (n : Nested)

/-! ## Visibility -/

/-- A visibility. A group after `pub` belongs to it only if it holds a place in the module tree. -/
def readVisibility : Reader Visibility := do
  if wordIsAhead "pub" (← ahead) then
    let _ ← take 1
    match ← ahead with
    | .group .paren content :: _ =>
      match content with
      | [.word w] =>
        if w = "crate" ∨ w = "self" ∨ w = "super" then
          let _ ← take 1
          pure (.restricted content)
        else place content
      | _ => place content
    | _ => pure .everyone
  else pure .inherited
where
  /-- A place in the module tree after `in`. -/
  place (content : List Tree) : Reader Visibility := do
    if wordIsAhead "in" content then
      let _ ← take 1
      let ts ← inside .paren content (inOrder [take 1, readModPathTrees])
      pure (.restricted ts)
    else pure .everyone

/-! ## Parameters and conditions -/

/-- A generic parameter of an item, and whether it is a lifetime. -/
def readParameter : Reader (Bool × List Tree) := do
  let attributes ← readAttributeTrees n
  let ts ← ahead
  let parameter ←
    if lifetimeAhead ts then readLifetimeParameter
    else if identAhead ts then readTypeParameter n
    else if wordIsAhead "const" ts then readConstParameter n
    else if wordIsAhead "_" ts then take 1
    else refuseOneOf [.lifetime, .ident, .word "const"]
  pure (lifetimeAhead ts, attributes ++ parameter)

/-- The generic parameters of an item. -/
def readGenerics : Reader Generics := do
  if opAhead "<" (← ahead) then
    let _ ← readOp "<"
    let (ps, comma) ← readListed (opAhead ">") (readParameter n)
    let _ ← readOp ">"
    let (parameters, comma) := lifetimesFirst ps comma
    pure { declared := true, parameters, comma }
  else pure {}

/-- The tokens of the generic parameters of an item. -/
def readGenericTrees : Reader (List Tree) := do
  let g ← readGenerics n
  pure g.trees

/-- The end of conditions, or of the bounds in one of them. -/
def conditionEnd (ts : List Tree) : Bool :=
  ts.isEmpty || groupAhead .brace ts || opAhead "," ts || opAhead ";" ts || colonAhead ts
    || opAhead "=" ts

/-- One condition on lifetimes or types. -/
def readCondition : Reader (List Tree) := do
  let ts ← ahead
  if lifetimeAhead ts && opAhead ":" (past 1 ts) then
    let stop (ts : List Tree) : Bool := conditionEnd ts || opAhead ":" ts
    inOrder [readLifetime, readOp ":", readSum stop readLifetime]
  else
    inOrder [
      readBinder n, n.typeTrees, readOp ":", readSum conditionEnd (n.boundTrees true)]

/-- Conditions with commas between them. The first argument bounds their number. -/
def readConditions : Nat → Reader (List Tree)
  | 0 => pure []
  | m + 1 => do
    if conditionEnd (← ahead) then pure []
    else
      let c ← readCondition n
      if opAhead "," (← ahead) then inOrder [pure c, readOp ",", readConditions m]
      else pure c

/-- The conditions after `where`, if there are any. -/
def readWhere : Reader (List Tree) :=
  readIf (wordIsAhead "where") do
    let word ← take 1
    let ts ← ahead
    if parametersAhead ts then refuse .parametersOfWhere
    else
      let conditions ← readConditions n (ts.length + 1)
      pure (if conditions.isEmpty then [] else word ++ conditions)

/-! ## Fields -/

/-- A named field. A field without a name may have a type that is declared in place, which is kept
as it was written. -/
def readNamedField : Reader NamedField := do
  let attributes ← readAttributes n
  let visibility ← readVisibility
  let unnamed := wordIsAhead "_" (← ahead)
  let name ← if unnamed then readAnyWord else readIdent
  let _ ← readOp ":"
  let ts ← ahead
  let inPlace :=
    wordIsAhead "struct" ts || (wordIsAhead "union" ts && groupAhead .brace (past 1 ts))
  if unnamed && inPlace then
    let written ← asWritten (inOrder [take 1, n.fields])
    pure ⟨attributes, visibility, name, .other written⟩
  else
    let type ← n.type true
    pure ⟨attributes, visibility, name, type⟩

/-- Named fields in braces, and their tokens. -/
def readNamedFields : Reader (List NamedField × List Tree) := do
  let (fields, comma) ← readInside .brace (readListed List.isEmpty (readNamedField n))
  pure (fields, [.group .brace (withCommas (fields.map NamedField.trees) comma)])

/-- The tokens of named fields in braces. -/
def readNamedFieldTrees : Reader (List Tree) := do
  let (_, ts) ← readNamedFields n
  pure ts

/-- Attributes and a visibility. -/
def readMarks : Reader (List Tree) := do
  let attributes ← readAttributeTrees n
  let visibility ← readVisibility
  pure (attributes ++ visibility.trees)

/-- Numbered fields in parentheses. -/
def readNumberedFields : Reader (List Tree) :=
  readGroup .paren (readCommas (inOrder [readMarks n, n.typeTrees]))

/-- A case of an enumeration. Its visibility is dropped. -/
def readVariant : Reader (List Tree) := do
  let attributes ← readAttributeTrees n
  let _ ← readVisibility
  let name ← readName
  let ts ← ahead
  let fields ←
    if groupAhead .brace ts then readNamedFieldTrees n
    else if groupAhead .paren ts then readNumberedFields n
    else pure []
  let value ← readIf (opAhead "=") (inOrder [readOp "=", n.exprTrees])
  pure (attributes ++ name ++ fields ++ value)

/-! ## Bodies -/

/-- What follows the conditions of a structure without numbered fields; other ways to go on may have
been open before. -/
def readFieldsOrEnd (others : List Start) : Reader (Body × List Tree) := do
  let ts ← ahead
  if groupAhead .brace ts then
    let (fields, ts) ← readNamedFields n
    pure (.named fields, ts)
  else if opAhead ";" ts then
    let mark ← readOp ";"
    pure (.empty, mark)
  else refuseOneOf (others ++ [.group .brace, .op ";"])

/-- What follows the name and the generic parameters of a structure. -/
def readStructBody : Reader (Body × List Tree) := do
  let ts ← ahead
  if wordIsAhead "where" ts then
    let conditions ← readWhere n
    let (body, ts) ← readFieldsOrEnd n []
    pure (body, conditions ++ ts)
  else if groupAhead .paren ts then
    let fields ← readNumberedFields n
    let more := wordIsAhead "where" (← ahead)
    let conditions ← readWhere n
    if opAhead ";" (← ahead) then
      let mark ← readOp ";"
      pure (.numbered, fields ++ conditions ++ mark)
    else refuseOneOf (if more then [.op ";"] else [.word "where", .op ";"])
  else readFieldsOrEnd n [.word "where", .group .paren]

/-- What follows the name and the generic parameters of an enumeration. -/
def readEnumBody : Reader (Body × List Tree) := do
  let ts ← inOrder [readWhere n, readGroup .brace (readCommas (readVariant n))]
  pure (.enumeration, ts)

/-- What follows the name and the generic parameters of a union. -/
def readUnionBody : Reader (Body × List Tree) := do
  let ts ← inOrder [readWhere n, readNamedFieldTrees n]
  pure (.overlay, ts)

end StoreModel.Source
