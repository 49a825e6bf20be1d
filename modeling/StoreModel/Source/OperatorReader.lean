import StoreModel.Source.Nested

/-!
# Reading operators

An expression is an operand, or several with operators between them. What matters of how tightly
they bind is which operators may follow each other: a range ends what stands before it, comparisons
do not chain, and a conversion is followed by no member, call or index.

`readOperators` goes on with an expression whose first operand has been read, as long as operators
follow that bind no less than a given one.
-/

set_option autoImplicit false

namespace StoreModel.Source

/-! ## How tightly operators bind -/

/-- How tightly an operator binds, the loosest first. -/
inductive Precedence where
  | jump
  | assign
  | range
  | or
  | and
  | binding
  | compare
  | bitOr
  | bitXor
  | bitAnd
  | shift
  | sum
  | product
  | cast
deriving DecidableEq, Repr, Inhabited

/-- The place of a precedence in the order. -/
def Precedence.rank : Precedence → Nat
  | jump => 0
  | assign => 1
  | range => 2
  | or => 3
  | and => 4
  | binding => 5
  | compare => 6
  | bitOr => 7
  | bitXor => 8
  | bitAnd => 9
  | shift => 10
  | sum => 11
  | product => 12
  | cast => 13

/-- The operators between two operands; one that begins another comes after it. -/
def binaryOperators : List (String × Precedence) := [
  ("+=", .assign), ("-=", .assign), ("*=", .assign), ("/=", .assign), ("%=", .assign),
  ("^=", .assign), ("&=", .assign), ("|=", .assign), ("<<=", .assign), (">>=", .assign),
  ("&&", .and), ("||", .or), ("<<", .shift), (">>", .shift), ("==", .compare), ("<=", .compare),
  ("!=", .compare), (">=", .compare), ("+", .sum), ("-", .sum), ("*", .product), ("/", .product),
  ("%", .product), ("^", .bitXor), ("&", .bitAnd), ("|", .bitOr), ("<", .compare), (">", .compare)]

/-- The operator between two operands that stands at the front. -/
def binaryAhead? (ts : List Tree) : Option (String × Precedence) :=
  binaryOperators.find? fun (op, _) => opAhead op ts

/-- An equals sign stands at the front, not an arrow. -/
def assignAhead (ts : List Tree) : Bool := opAhead "=" ts && !opAhead "=>" ts

/-- How tightly the operator at the front binds. -/
def nextPrecedence (ts : List Tree) : Precedence :=
  match binaryAhead? ts with
  | some (_, p) => p
  | none =>
    if assignAhead ts then .assign
    else if opAhead ".." ts then .range
    else if wordIsAhead "as" ts then .cast
    else .jump

/-! ## What follows an operator -/

/-- A range without an end stops here. -/
def rangeStops (fields : Bool) (ts : List Tree) : Bool :=
  ts.isEmpty || pointAhead ts || (!fields && groupAhead .brace ts) || wordIsAhead "as" ts
    || [",", ";", "?", "=>", "=", "+", "/", "%", "^", ">", "<=", "!=", "-=", "*=", "&=", "|=",
        "<<="].any (opAhead · ts)

/-- The operator of a range and its end, if it has one, by the reader for an end. -/
def readRangeTail (fields : Bool) (right : Reader Expr) : Reader (List Tree) := do
  let ts ← ahead
  if opAhead "..=" ts then
    let op ← readOp "..="
    let e ← right
    pure (op ++ e.trees)
  else if opAhead "..." ts then refuseFor (token "..=")
  else
    let op ← readOp ".."
    if rangeStops fields (← ahead) then pure op
    else
      let e ← right
      pure (op ++ e.trees)

/-- What stands at the front although it cannot follow a conversion. -/
def afterCast? (ts : List Tree) : Option AfterCast :=
  if pointAhead ts then
    if wordIsAhead "await" (past 1 ts) then some .await
    else if identAhead (past 1 ts)
        && (groupAhead .paren (past 2 ts) || opAhead "::" (past 2 ts)) then some .methodCall
    else some .fieldAccess
  else if opAhead "?" ts then some .questionMark
  else if groupAhead .bracket ts then some .index
  else if groupAhead .paren ts then some .call
  else none

/-- Goes on with the right operand of an operator as long as operators follow that bind more
tightly, by the reader that goes on with an expression. The first argument bounds the number of
operators. -/
def growRight (more : Expr → Precedence → Reader Expr) (p : Precedence) : Nat → Expr → Reader Expr
  | 0, e => pure e
  | m + 1, e => do
    let ts ← ahead
    let next := nextPrecedence ts
    if p.rank < next.rank || (next == .assign && p == .assign) then
      let e ← more e next
      if (← ahead).length = ts.length then pure e else growRight more p m e
    else pure e

variable (n : Nested)

/-- Goes on with an expression as long as operators follow that bind no less than a given one. The
first natural number bounds the number of operators. -/
def readOperatorsUpTo (fields : Bool) : Nat → Expr → Precedence → Reader Expr
  | 0, e, _ => pure e
  | m + 1, e, base => do
    let ts ← ahead
    let right (p : Precedence) : Reader Expr := do
      let e ← n.operand fields
      growRight (readOperatorsUpTo fields m) p ts.length e
    if e.form == .range then pure e
    else
      match binaryAhead? ts with
      | some (op, p) =>
        if p.rank < base.rank then pure e
        else if p == .compare && e.form == .comparison then refuse .chainedComparison
        else
          let op ← readOp op
          let r ← right p
          let form := if p == .compare then .comparison else .other
          readOperatorsUpTo fields m (e.followedBy form (op ++ r.trees)) base
      | none =>
        if base.rank ≤ Precedence.assign.rank && assignAhead ts then
          let op ← readOp "="
          let r ← right .assign
          readOperatorsUpTo fields m (e.followedBy .other (op ++ r.trees)) base
        else if base.rank ≤ Precedence.range.rank && opAhead ".." ts then
          let tail ← readRangeTail fields (right .range)
          readOperatorsUpTo fields m (.range (e.trees ++ tail)) base
        else if wordIsAhead "as" ts then
          let cast ← inOrder [take 1, n.typeWithoutSum]
          match afterCast? (← ahead) with
          | some what => refuse (.afterCast what)
          | none => readOperatorsUpTo fields m (e.followedBy .other cast) base
        else pure e

/-- Goes on with an expression as long as operators follow that bind no less than a given one. -/
def readOperators (fields : Bool) (e : Expr) (base : Precedence) : Reader Expr := do
  readOperatorsUpTo n fields ((← ahead).length + 1) e base

/-- An operand, and the operators after it that bind more tightly than a given one. -/
def readRight (fields : Bool) (p : Precedence) : Reader Expr := do
  let e ← n.operand fields
  growRight (readOperators n fields) p ((← ahead).length + 1) e

/-- An expression. -/
def readExprForm (fields : Bool) : Reader Expr := do
  let e ← n.operand fields
  readOperators n fields e .jump

end StoreModel.Source
