import StoreModel.Source.ItemForm
import StoreModel.Source.Lexer
import StoreModel.Source.OperandReader

/-!
# The grammar of source text

The last of the readers for forms, those for statements, and the knot that all of them make: a
reader for one form calls those for others, which are given to it for a depth of nesting.
-/

set_option autoImplicit false

namespace StoreModel.Source

/-! ## Statements

The content of a block is a sequence of statements: declarations of variables, items, calls of code
generators and expressions. A semicolon ends a statement; one that ends with a block needs none, and
neither does the last one. -/

section Statements

variable (n : Nested)

/-- The last token closes braces. -/
def endsWithBrace (ts : List Tree) : Bool :=
  match ts.getLast? with
  | some t => groupAhead .brace [t]
  | none => false

/-- A declaration of variables. A value that does not end with a brace may be followed by what is
done if it does not match. -/
def readLocal : Reader (List Tree) :=
  inOrder [
    readWord "let", n.patternTrees,
    readIf (opAhead ":") (inOrder [readOp ":", n.typeTrees]),
    readIf (opAhead "=") do
      let mark ← readOp "="
      let value ← n.exprTrees
      let other ←
        if endsWithBrace value then pure []
        else readIf (wordIsAhead "else") (inOrder [take 1, n.block])
      pure (mark ++ value ++ other),
    readOp ";"]

/-- An item begins here. -/
def itemAhead (ts : List Tree) : Bool :=
  let second := past 1 ts
  let third := past 2 ts
  let function := ["unsafe", "extern", "fn"]
  someWordAhead ["pub", "extern", "use", "fn", "mod", "type", "struct", "enum", "trait", "impl",
      "macro"] ts
    || (wordIsAhead "crate" ts && !opAhead "::" second)
    || (wordIsAhead "static" ts && (wordIsAhead "mut" second || identAhead second))
    || (wordIsAhead "const" ts
      && !(groupAhead .brace second || someWordAhead ["static", "move"] second
        || opAhead "|" second
        || (wordIsAhead "async" second && !someWordAhead function third)))
    || (wordIsAhead "unsafe" ts && !groupAhead .brace second)
    || (wordIsAhead "async" ts && someWordAhead function second)
    || (wordIsAhead "union" ts && identAhead second)
    || (wordIsAhead "auto" ts && wordIsAhead "trait" second)
    || (wordIsAhead "default" ts && someWordAhead ["unsafe", "impl"] second)

/-- What a path and an exclamation mark at the front lead to. -/
inductive CallForm where
  /-- A name follows: the call is an item. -/
  | item
  /-- Braces follow that end the statement. -/
  | statement
  | other
deriving DecidableEq

/-- What a path and an exclamation mark at the front lead to, given the tokens after the path. -/
def callForm : Option (List Tree) → CallForm
  | none => .other
  | some ts =>
    let second := past 1 ts
    let third := past 2 ts
    if !opAhead "!" ts then .other
    else if identAhead second || wordIsAhead "try" second then .item
    else if groupAhead .brace second && !pointAhead third && !opAhead "?" third then .statement
    else .other

/-- A statement, and whether a semicolon has to stand before the next one. -/
def readStatement : Reader (Bool × List Tree) := do
  let start ← ahead
  let attributes ← readAttributeTrees n
  let ts ← ahead
  let form := callForm (← aheadAfter readModPath)
  if form == .statement then
    let call ← inOrder [readModPathTrees, readOp "!", readTokens, optionalOp ";"]
    pure (false, attributes ++ call)
  else if wordIsAhead "let" ts then
    let declaration ← readLocal n
    pure (false, attributes ++ declaration)
  else if itemAhead ts || form == .item then
    let item ← readItemAfter n start attributes
    pure (false, item)
  else
    let e ← n.upToBlock
    let mark ← optionalOp ";"
    pure (mark.isEmpty && e.needsSemicolon, (e.withAttributes attributes).trees ++ mark)

/-- Statements. The first argument bounds their number. -/
def readStatementsUpTo : Nat → Reader (List Tree)
  | 0 => pure []
  | m + 1 => do
    let marks ← readAllOf (opAhead ";") (readOp ";")
    if (← ahead).isEmpty then pure marks
    else
      let (unended, statement) ← readStatement n
      if (← ahead).isEmpty then pure (marks ++ statement)
      else if unended then refuse .unendedStatement
      else
        let more ← readStatementsUpTo m
        pure (marks ++ statement ++ more)

/-- Statements. -/
def readStatements : Reader (List Tree) := do
  readStatementsUpTo n ((← ahead).length + 1)

end Statements

/-! ## Depths of nesting

`nestedAt` ties the knot for a given depth of nesting, and `nestedFor` takes a depth that no nesting
of given tokens exceeds: a reader that calls another without passing over a token does so at most
three times in a row. -/

/-- Readers for what is nested at most a given depth. -/
def nestedAt : Nat → Nested
  | 0 => .none
  | n + 1 =>
    { type := fun sum s => readTypeForm (nestedAt n) sum s
      bound := fun capture condition s => readBoundForm (nestedAt n) capture condition s
      expr := fun fields s => readExprForm (nestedAt n) fields s
      operand := fun fields s => readOperandForm (nestedAt n) fields s
      upToBlock := fun s => readUpToBlock (nestedAt n) s
      pattern := fun s => readPatternForm (nestedAt n) s
      statements := fun s => readStatements (nestedAt n) s
      fields := fun s => readNamedFieldTrees (nestedAt n) s
      item := fun s => readAnyItem (nestedAt n) s }

/-- Readers for what is nested in given tokens. -/
def nestedFor (ts : List Tree) : Nested := nestedAt (4 * Tree.sizeAll ts + 8)

/-- A type. -/
def readType : Reader Ty := fun s => (nestedFor s.trees).type true s

/-- A path with arguments where types may have them. -/
def readTypePath : Reader (Bool × List Segment) := fun s => readPath (nestedFor s.trees) false s

/-! ## Declared types

Declarations of structures, enumerations and unions that stand by themselves. `Item.read` reads a
text that holds exactly one. -/

section DeclaredTypes

variable (n : Nested)

/-- The word that a declared type begins with, and the reader for its body. -/
def declarationAhead? (ts : List Tree) : Option (Reader (Body × List Tree)) :=
  if wordIsAhead "struct" ts then some (readStructBody n)
  else if wordIsAhead "enum" ts then some (readEnumBody n)
  else if wordIsAhead "union" ts then some (readUnionBody n)
  else none

/-- A declared type. -/
def readDeclaredType : Reader Item := do
  let attributes ← readAttributes n
  let _ ← readVisibility
  match declarationAhead? n (← ahead) with
  | none => refuseOneOf [.word "struct", .word "enum", .word "union"]
  | some read =>
    let _ ← take 1
    let name ← readIdent
    let generics ← readGenerics n
    let (body, _) ← read
    pure { attributes, name, generic := !generics.parameters.isEmpty, body }

end DeclaredTypes

/-- A declared type. -/
def readItem : Reader Item := fun s => readDeclaredType (nestedFor s.trees) s

/-- The declared type that a text holds. -/
def Item.read (s : String) : Except Fault Item := readText (readTrees s) readItem

end StoreModel.Source
