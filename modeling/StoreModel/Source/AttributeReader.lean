import StoreModel.Source.Item
import StoreModel.Source.Nested

/-!
# Reading paths and attributes

Attributes stand before what they belong to, or at the beginning of the block of what they belong
to. Their names are paths without arguments, as are the names of places in the module tree.
-/

set_option autoImplicit false

namespace StoreModel.Source

/-! ## Paths without arguments

Apart from identifiers only the words for places in the module tree can be names of such a path. -/

/-- The names of a path without arguments, from a name on. The first argument bounds their
number. -/
def readModNames : Nat → Reader (List String)
  | 0 => pure []
  | n + 1 => do
    let w ← readAnyWord
    if opAhead "::" (← ahead) then
      let _ ← readOp "::"
      if pathWordAhead (← ahead) then
        let ws ← readModNames n
        pure (w :: ws)
      else refuseFor ("path segment after " ++ token "::")
    else pure [w]

/-- A path without arguments: whether `::` begins it, and its names. -/
def readModPath : Reader (Bool × List String) := do
  let colons ← optionalOp "::"
  let ts ← ahead
  if pathWordAhead ts then
    let ws ← readModNames ts.length
    pure (!colons.isEmpty, ws)
  else
    let w ← readIdent
    pure (!colons.isEmpty, [w])

/-- The tokens of a path without arguments. -/
def readModPathTrees : Reader (List Tree) := do
  let (leading, ws) ← readModPath
  pure (pathTrees leading (ws.map .plain))

/-! ## Attributes

The value of an attribute is a literal or another expression; it cannot begin with an attribute of
its own. -/

variable (n : Nested)

/-- The value of an attribute, after the equals sign. -/
def readAttributeValue : Reader (List Tree) := do
  let literal ← tryRead do
    let l ← readLiteral
    if (← ahead).isEmpty then pure l else refuse (.expected [])
  match literal with
  | some l => pure l
  | none =>
    let ts ← ahead
    if opAhead "#" ts && groupAhead .bracket (past 1 ts) then refuse .attributeInAttribute
    else n.exprTrees

/-- What an attribute holds between its brackets. -/
def readAttributeContent : Reader Attribute := do
  let (leading, path) ←
    if wordIsAhead "unsafe" (← ahead) then do
      let w ← readAnyWord
      pure (false, [w])
    else readModPath
  match ← ahead with
  | .group d content :: _ =>
    let _ ← take 1
    pure ⟨leading, path, .group d content⟩
  | ts =>
    if opAhead "=" ts then
      let _ ← readOp "="
      let value ← readAttributeValue n
      pure ⟨leading, path, .value value⟩
    else pure ⟨leading, path, .nothing⟩

/-- An attribute of what follows it. -/
def readAttribute : Reader Attribute := do
  let _ ← readOp "#"
  readInside .bracket (readAttributeContent n)

/-- Attributes of what follows them. -/
def readAttributes : Reader (List Attribute) := readMany (opAhead "#") (readAttribute n)

/-- The tokens of attributes of what follows them. -/
def readAttributeTrees : Reader (List Tree) := do
  let as ← readAttributes n
  pure (as.flatMap Attribute.trees)

/-- The tokens of attributes of what holds them. -/
def readInnerAttributes : Reader (List Tree) := do
  let as ← readMany (fun ts => opAhead "#" ts && opAhead "!" (past 1 ts)) do
    let _ ← readOp "#"
    let _ ← readOp "!"
    readInside .bracket (readAttributeContent n)
  pure (as.flatMap Attribute.innerTrees)

/-- A block that may begin with attributes. -/
def readBody : Reader (List Tree) :=
  readGroup .brace (inOrder [readInnerAttributes n, n.statements])

end StoreModel.Source
