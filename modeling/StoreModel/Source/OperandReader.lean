import StoreModel.Source.BlockReader

/-!
# Reading operands

An operand of an expression is an atom with what may follow it, or an operator before another
operand. Attributes may stand before each operand. A form that only a compiler knows is kept as it
was written, with the attributes before it.
-/

set_option autoImplicit false

namespace StoreModel.Source

variable (n : Nested)

/-! ## Paths -/

/-- The value of a field, which may have the name of the field. -/
def readFieldValue : Reader (List Tree) := do
  let attributes ← readAttributeTrees n
  let (named, member) ← readMember
  let value ←
    if opAhead ":" (← ahead) || !named then inOrder [readOp ":", n.exprTrees] else pure []
  pure (attributes ++ member ++ value)

/-- The values of fields, and after two points where the rest of them comes from. The first argument
bounds their number. -/
def readFieldValues : Nat → Reader (List Tree)
  | 0 => pure []
  | m + 1 => do
    let ts ← ahead
    if ts.isEmpty then pure []
    else if opAhead ".." ts then inOrder [readOp "..", readIf (!·.isEmpty) n.exprTrees]
    else
      let field ← readFieldValue n
      if (← ahead).isEmpty then pure field
      else inOrder [pure field, readOp ",", readFieldValues m]

/-- A path, a call of a code generator, or a structure. -/
def readPathExpr (fields : Bool) : Reader Expr := do
  let (generator, path) ← readExprPath n
  if generator then
    let bang ← readOp "!"
    let tokens ← readTokens
    pure { form := .call (groupAhead .brace tokens), trees := path ++ bang ++ tokens }
  else if fields && groupAhead .brace (← ahead) then
    let content ← takeGroup .brace
    let values ← inside .brace content (readFieldValues n content.length)
    pure (.plain (path ++ [.group .brace values]))
  else pure (.plain path)

/-! ## Closures -/

/-- A parameter of a closure: a pattern that may have a type. -/
def readClosureParameter : Reader (List Tree) := do
  let attributes ← readAttributeTrees n
  let p ← n.pattern
  if opAhead ":" (← ahead) then
    inOrder [pure (attributes ++ p.trees), readOp ":", n.typeTrees]
  else pure (if p.form == .written then p.trees else attributes ++ p.trees)

/-- A closure. With a type for its result its body is a block. -/
def readClosure (fields : Bool) : Reader (List Tree) :=
  inOrder [
    readBinder n, optionalWord "const", optionalWord "static", optionalWord "async",
    optionalWord "move", readOp "|", readList (opAhead "|") (readClosureParameter n), readOp "|",
    do
      if opAhead "->" (← ahead) then inOrder [readOp "->", n.typeTrees, n.block]
      else
        let e ← n.expr fields
        pure e.trees]

/-- A closure begins here, unless a block does. -/
def closureAhead (ts : List Tree) : Bool :=
  let second := past 1 ts
  opAhead "|" ts || someWordAhead ["move", "const", "static"] ts
    || (wordIsAhead "for" ts && parametersAhead second)
    || (wordIsAhead "async" ts && (opAhead "|" second || wordIsAhead "move" second))

/-! ## Other atoms -/

/-- The content of an array: its elements, or one of them and their number. -/
def readElements : Reader (List Tree) := do
  if (← ahead).isEmpty then pure []
  else
    let first ← n.exprTrees
    let ts ← ahead
    if ts.isEmpty then pure first
    else if opAhead "," ts then inOrder [pure first, readOp ",", readCommas n.exprTrees]
    else if opAhead ";" ts then inOrder [pure first, readOp ";", n.exprTrees]
    else refuse (.expected [token ",", token ";"])

/-- A jump out of a loop or a block, perhaps with a label and a value. -/
def readBreak (fields : Bool) : Reader (List Tree) := do
  let word ← readWord "break"
  let ts ← ahead
  if lifetimeAhead ts && opAhead ":" (past 1 ts) then
    let _ ← n.expr true
    fail .labelAfterBreak
  else
    inOrder [
      pure word, readIf lifetimeAhead readLifetime,
      readIf (fun ts => exprAhead ts && (fields || !groupAhead .brace ts)) n.exprTrees]

/-- A pattern that is matched with a value. -/
def readLet (fields : Bool) : Reader (List Tree) :=
  inOrder [
    readWord "let", readAlternativeTrees n, readOp "=",
    do
      let e ← n.operand fields
      let e ← readOperators n fields e .compare
      pure e.trees]

/-- An asynchronous block begins here. -/
def asyncBlockAhead (ts : List Tree) : Bool :=
  let second := past 1 ts
  wordIsAhead "async" ts
    && (groupAhead .brace second || (wordIsAhead "move" second && groupAhead .brace (past 2 ts)))

/-- A path begins here. -/
def exprPathAhead (ts : List Tree) : Bool :=
  let second := past 1 ts
  pathWordAhead ts || opAhead "::" ts || opAhead "<" ts
    || (wordIsAhead "try" ts && (opAhead "!" second || opAhead "::" second))

/-- An operand without operators before it and without what may follow it. -/
def readAtom (fields : Bool) : Reader Expr := do
  let ts ← ahead
  let plain (read : Reader (List Tree)) : Reader Expr := do
    let ts ← read
    pure (.plain ts)
  match blockReader? n ts with
  | some read =>
    let ts ← read
    pure (.block ts)
  | none =>
    if literalAhead ts then plain readLiteral
    else if asyncBlockAhead ts then plain (inOrder [take 1, optionalWord "move", n.block])
    else if closureAhead ts then plain (readClosure n fields)
    else if builtinAhead ts then
      let written ← asWritten readBuiltin
      pure (.written written)
    else if exprPathAhead ts then readPathExpr n fields
    else if groupAhead .paren ts then plain (readGroup .paren (readCommas n.exprTrees))
    else if wordIsAhead "break" ts then plain (readBreak n fields)
    else if wordIsAhead "continue" ts then
      plain (inOrder [take 1, readIf lifetimeAhead readLifetime])
    else if someWordAhead ["return", "yield"] ts then
      plain (inOrder [take 1, readIf exprAhead n.exprTrees])
    else if wordIsAhead "become" ts then
      let written ← asWritten (inOrder [take 1, n.exprTrees])
      pure (.written written)
    else if groupAhead .bracket ts then plain (readGroup .bracket (readElements n))
    else if wordIsAhead "let" ts then plain (readLet n fields)
    else if opAhead ".." ts then
      let tail ← readRangeTail fields (readRight n fields .range)
      pure (.range tail)
    else if wordIsAhead "_" ts then plain (take 1)
    else refuseFor "an expression"

/-! ## Operands -/

/-- What makes a reference of an operand. -/
def readBorrow : Reader (List Tree) := do
  let mark ← readOp "&"
  let ts ← ahead
  if wordIsAhead "raw" ts && someWordAhead ["mut", "const"] (past 1 ts) then
    let words ← take 2
    pure (mark ++ words)
  else
    let word ← optionalWord "mut"
    pure (mark ++ word)

/-- An operand. -/
def readOperandForm (fields : Bool) : Reader Expr := do
  let start ← ahead
  let attributes ← readAttributeTrees n
  let ts ← ahead
  match ["*", "!", "-"].find? (opAhead · ts) with
  | some op =>
    let op ← readOp op
    let e ← n.operand fields
    pure (.plain (attributes ++ op ++ e.trees))
  | none =>
    if opAhead "&" ts then
      let front ← readBorrow
      let e ← n.operand fields
      pure (.plain (attributes ++ front ++ e.trees))
    else
      let atom ← readAtom n fields
      let e ← readTrailers n atom
      if e.form == .written then
        let written ← writtenSince start
        pure (.written written)
      else if e.form == .range && !attributes.isEmpty then fail .attributesBeforeRange
      else pure (e.withAttributes attributes)

end StoreModel.Source
