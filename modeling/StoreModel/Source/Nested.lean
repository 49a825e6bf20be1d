import StoreModel.Source.Reader
import StoreModel.Source.Type

/-!
# What holds each other

Types, bounds, expressions, patterns, statements and items stand inside each other. The readers for
the forms of each take the readers for what stands inside as one record, `Nested`; so each form can
be read in a module of its own.

Of bounds, expressions and patterns only a little more than their tokens matters: what decides
where they may stand and how they go on.
-/

set_option autoImplicit false

namespace StoreModel.Source

/-! ## Bounds -/

/-- What can be asked of a type. -/
inductive BoundKind where
  | lifetime
  /-- What a type without a name may capture. -/
  | capture
  | trait
deriving DecidableEq, Repr, Inhabited

/-- A bound. -/
structure Bound where
  kind : BoundKind
  trees : List Tree
deriving Inhabited

/-! ## Expressions -/

/-- What matters of the form of an expression. -/
inductive ExprForm where
  | range
  | comparison
  /-- A form with a block at its end that needs nothing after it as a statement. -/
  | block
  /-- A call of a code generator, whose tokens stand in braces or in other brackets. -/
  | call (braces : Bool)
  /-- A form that is kept as it was written. -/
  | written
  | other
deriving DecidableEq, Repr, Inhabited

/-- An expression. -/
structure Expr where
  form : ExprForm
  trees : List Tree
  /-- Attributes in front of it are kept: its first operand is not kept as it was written. -/
  takesAttributes : Bool := true
deriving Inhabited

namespace Expr

/-- An expression of no special form. -/
def plain (trees : List Tree) : Expr := { form := .other, trees }

/-- An expression that ends with a block. -/
def block (trees : List Tree) : Expr := { form := .block, trees }

/-- An expression that is kept as it was written. -/
def written (trees : List Tree) : Expr := { form := .written, trees, takesAttributes := false }

/-- An expression that goes on with an operator and what follows it. -/
def followedBy (e : Expr) (form : ExprForm) (more : List Tree) : Expr :=
  { e with form, trees := e.trees ++ more }

/-- A range. -/
def range (trees : List Tree) : Expr := { form := .range, trees }

/-- An expression with attributes in front of it. -/
def withAttributes (e : Expr) (attributes : List Tree) : Expr :=
  if e.takesAttributes then { e with trees := attributes ++ e.trees } else e

/-- As a statement the expression needs a semicolon before the next one. -/
def needsSemicolon (e : Expr) : Bool := e.form != .block && e.form != .call true

/-- As an arm of `match` the expression needs a comma before the next one. -/
def needsComma (e : Expr) : Bool := e.form != .block

end Expr

/-! ## Patterns -/

/-- What matters of the form of a pattern. -/
inductive PatternForm where
  /-- Two points, which stand for the rest. -/
  | rest
  /-- A range without one of its ends. -/
  | openRange
  /-- A form that is kept as it was written. -/
  | written
  | other
deriving DecidableEq, Repr, Inhabited

/-- A pattern. -/
structure Pattern where
  form : PatternForm
  trees : List Tree
deriving Inhabited

/-! ## The readers -/

/-- Readers for what stands inside a form. -/
structure Nested where
  /-- A type, which may be a sum of bounds or not. -/
  type (sum : Bool) : Reader Ty
  /-- A bound, which may be a capture or not, and may be asked for under a condition or not. -/
  bound (capture condition : Bool) : Reader Bound
  /-- An expression, in which a path may be followed by the fields of a structure or not. -/
  expr (fields : Bool) : Reader Expr
  /-- An operand: an expression without operators between operands. -/
  operand (fields : Bool) : Reader Expr
  /-- An expression that ends with its block, if it begins with one. -/
  upToBlock : Reader Expr
  /-- A pattern without alternatives. -/
  pattern : Reader Pattern
  /-- The statements in a block. -/
  statements : Reader (List Tree)
  /-- Named fields in braces. -/
  fields : Reader (List Tree)
  item : Reader (List Tree)

namespace Nested

/-- Readers that read nothing at all. -/
def none : Nested where
  type _ := refuse (.expected [])
  bound _ _ := refuse (.expected [])
  expr _ := refuse (.expected [])
  operand _ := refuse (.expected [])
  upToBlock := refuse (.expected [])
  pattern := refuse (.expected [])
  statements := refuse (.expected [])
  fields := refuse (.expected [])
  item := refuse (.expected [])

/-- The tokens of a type, which may be a sum of bounds. -/
def typeTrees (n : Nested) : Reader (List Tree) := do
  let t ← n.type true
  pure t.trees

/-- The tokens of a type that is no sum of bounds. -/
def typeWithoutSum (n : Nested) : Reader (List Tree) := do
  let t ← n.type false
  pure t.trees

/-- The tokens of a bound, which is no capture. -/
def boundTrees (n : Nested) (condition : Bool) : Reader (List Tree) := do
  let b ← n.bound false condition
  pure b.trees

/-- The tokens of an expression. -/
def exprTrees (n : Nested) : Reader (List Tree) := do
  let e ← n.expr true
  pure e.trees

/-- The tokens of an expression that is followed by a block. -/
def conditionTrees (n : Nested) : Reader (List Tree) := do
  let e ← n.expr false
  pure e.trees

/-- The tokens of a pattern without alternatives. -/
def patternTrees (n : Nested) : Reader (List Tree) := do
  let p ← n.pattern
  pure p.trees

/-- A block. -/
def block (n : Nested) : Reader (List Tree) := readGroup .brace n.statements

end Nested

end StoreModel.Source
