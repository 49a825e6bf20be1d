import StoreModel.Source.OperatorReader
import StoreModel.Source.PatternReader
import StoreModel.Source.TypeForm

/-!
# Reading members, calls and blocks

An operand of an expression is an atom with what may follow it: members, calls, indices and the
question mark. This module reads what follows, and the atoms that end with a block.

An arm of `match` or a statement that begins with a block ends with it: only a member or a question
mark can make an operand of the block.
-/

set_option autoImplicit false

namespace StoreModel.Source

variable (n : Nested)

/-- An expression may begin here. -/
def exprAhead (ts : List Tree) : Bool :=
  (anyWordAhead ts && !wordIsAhead "as" ts) || literalAhead ts || lifetimeAhead ts || bangAhead ts
    || [Delimiter.paren, .bracket, .brace].any (groupAhead · ts)
    || (opAhead "-" ts && !opAhead "-=" ts && !opAhead "->" ts)
    || (opAhead "*" ts && !opAhead "*=" ts)
    || (opAhead "|" ts && !opAhead "|=" ts)
    || (opAhead "&" ts && !opAhead "&=" ts)
    || (opAhead "<" ts && !opAhead "<=" ts && !opAhead "<<=" ts)
    || ["..", "::", "#"].any (opAhead · ts)

/-! ## What follows an atom -/

/-- The arguments of a call. -/
def readCallArguments : Reader (List Tree) := readGroup .paren (readCommas n.exprTrees)

/-- What a point leads to: members, the call of a method, or the word for waiting. -/
def readAccess : Reader (List Tree) := do
  let point ← readOp "."
  match ← readFractionMembers with
  | some (members, false) => pure (point ++ members)
  | found =>
    let front := point ++ (found.map (·.1)).getD []
    if wordIsAhead "await" (← ahead) then
      let word ← take 1
      pure (front ++ word)
    else
      let (named, member) ← readMember
      if named && opAhead "::" (← ahead) then
        let (separated, args, comma) ← readArgs n
        let call ← readCallArguments n
        match member with
        | .word w :: _ => pure (front ++ (Segment.generic w separated args comma).trees ++ call)
        | _ => pure (front ++ member ++ call)
      else if named && groupAhead .paren (← ahead) then
        let call ← readCallArguments n
        pure (front ++ member ++ call)
      else pure (front ++ member)

/-- Goes on with an operand as long as members, calls, indices or question marks follow. The first
argument bounds their number. -/
def readTrailersUpTo : Nat → Expr → Reader Expr
  | 0, e => pure e
  | m + 1, e => do
    let ts ← ahead
    let goOn (read : Reader (List Tree)) : Reader Expr := do
      let ts ← read
      readTrailersUpTo m (.plain (e.trees ++ ts))
    if groupAhead .paren ts then goOn (readCallArguments n)
    else if pointAhead ts && e.form != .range then goOn (readAccess n)
    else if groupAhead .bracket ts then goOn (readGroup .bracket n.exprTrees)
    else if opAhead "?" ts && e.form != .range then goOn (readOp "?")
    else pure e

/-- Goes on with an operand as long as members, calls, indices or question marks follow. -/
def readTrailers (e : Expr) : Reader Expr := do
  readTrailersUpTo n ((← ahead).length + 1) e

/-! ## Blocks -/

/-- A condition with a block, and what is done otherwise. The first argument bounds the number of
conditions. -/
def readConditional : Nat → Reader (List Tree)
  | 0 => pure []
  | m + 1 => do
    let front ← inOrder [readWord "if", n.conditionTrees, n.block]
    if wordIsAhead "else" (← ahead) then
      let word ← take 1
      let ts ← ahead
      let back ←
        if wordIsAhead "if" ts then readConditional m
        else if groupAhead .brace ts then n.block
        else refuseOneOf [.word "if", .group .brace]
      pure (front ++ word ++ back)
    else pure front

/-- A loop with a condition. -/
def readWhile : Reader (List Tree) := inOrder [readWord "while", n.conditionTrees, readBody n]

/-- A loop over what an expression gives. -/
def readFor : Reader (List Tree) :=
  inOrder [
    readWord "for", readAlternativeTrees n, readWord "in", n.conditionTrees, readBody n]

/-- A loop without a condition. -/
def readLoop : Reader (List Tree) := inOrder [readWord "loop", readBody n]

/-- A loop or a block with a label. -/
def readLabelled : Reader (List Tree) := do
  let label ← inOrder [readLifetime, readOp ":"]
  let ts ← ahead
  let body ←
    if wordIsAhead "while" ts then readWhile n
    else if wordIsAhead "for" ts then readFor n
    else if wordIsAhead "loop" ts then readLoop n
    else if groupAhead .brace ts then readBody n
    else refuseFor "loop or block expression"
  pure (label ++ body)

/-- An arm of a choice. Between two arms a comma is needed unless the first ends with a block. -/
def readArm : Reader (List Tree) := do
  let front ← inOrder [
    readAttributeTrees n, readAlternativeTrees n,
    readIf (wordIsAhead "if") (inOrder [take 1, n.exprTrees]), readOp "=>"]
  let body ← n.upToBlock
  let comma ← if body.needsComma && !(← ahead).isEmpty then readOp "," else optionalOp ","
  pure (front ++ body.trees ++ comma)

/-- A choice between arms. -/
def readMatch : Reader (List Tree) :=
  inOrder [
    readWord "match", n.conditionTrees,
    readGroup .brace (inOrder [readInnerAttributes n, readAllOf (!·.isEmpty) (readArm n)])]

/-- The reader for a form that ends with a block, if one begins here. -/
def blockReader? (ts : List Tree) : Option (Reader (List Tree)) :=
  let braces := groupAhead .brace (past 1 ts)
  if wordIsAhead "if" ts then some (readConditional n (ts.length + 1))
  else if wordIsAhead "while" ts then some (readWhile n)
  else if wordIsAhead "for" ts && !parametersAhead (past 1 ts) then some (readFor n)
  else if wordIsAhead "loop" ts then some (readLoop n)
  else if wordIsAhead "match" ts then some (readMatch n)
  else if wordIsAhead "try" ts && braces then some (inOrder [take 1, n.block])
  else if wordIsAhead "unsafe" ts || (wordIsAhead "const" ts && braces) then
    some (inOrder [take 1, readBody n])
  else if groupAhead .brace ts then some (readBody n)
  else if lifetimeAhead ts then some (readLabelled n)
  else none

/-- An expression that ends with its block, if it begins with one. -/
def readUpToBlock : Reader Expr := do
  let attributes ← readAttributeTrees n
  match blockReader? n (← ahead) with
  | some read =>
    let block ← read
    let ts ← ahead
    if pointAhead ts || opAhead "?" ts then
      let e ← readTrailers n (.block block)
      readOperators n true (e.withAttributes attributes) .jump
    else pure ((Expr.block block).withAttributes attributes)
  | none =>
    let e ← n.operand true
    readOperators n true (e.withAttributes attributes) .jump

end StoreModel.Source
