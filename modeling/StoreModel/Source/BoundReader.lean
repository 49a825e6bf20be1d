import StoreModel.Source.AttributeReader

/-!
# Reading generic arguments and bounds

What can be asked of a type are bounds: traits and lifetimes, with `+` between them; a type without
a name may also capture some of the names in scope. Generic arguments are types, lifetimes,
constants, and types or bounds for the names inside a trait. A binder declares the parameters that a
bound or a function type holds for.

A path is a sequence of names with `::` between them, each of which may have generic arguments. In a
type the angle bracket may follow the name at once; in an expression `::` has to stand before it.
-/

set_option autoImplicit false

namespace StoreModel.Source

variable (n : Nested)

/-! ## Generic arguments -/

/-- Things in the order they are printed in: lifetimes first. A comma ends them if one follows the
last thing that is printed. -/
def lifetimesFirst {α : Type} (args : List (Bool × α)) (comma : Bool) : List α × Bool :=
  let lifetimes := args.filter (·.1)
  let others := args.filter (!·.1)
  let lastIsLifetime := (args.getLast?.map (·.1)).getD false
  ((lifetimes ++ others).map (·.2), comma || (lastIsLifetime && !others.isEmpty))

/-- A constant as an argument: a literal, an identifier or a block. -/
def readConstant : Reader (List Tree) := do
  let ts ← ahead
  if literalAhead ts then readLiteral
  else if identAhead ts then take 1
  else if groupAhead .brace ts then readBody n
  else refuse (.expected [])

/-- A constant without a name begins here. -/
def constantAhead (ts : List Tree) : Bool := literalAhead ts || groupAhead .brace ts

/-- The end of generic arguments or parameters, or of one of them. -/
def argumentEnd (ts : List Tree) : Bool := opAhead "," ts || opAhead ">" ts

/-- A generic argument, and whether it is a lifetime. -/
def readArg : Reader (Bool × Arg) := do
  let ts ← ahead
  if lifetimeAhead ts && !opAhead "+" (past 1 ts) then
    let l ← readLifetime
    pure (true, .other l)
  else if constantAhead ts then
    let c ← readConstant n
    pure (false, .other c)
  else
    let t ← n.type true
    let ts ← ahead
    match t with
    | .path false [s] =>
      if opAhead "=" ts then
        let mark ← readOp "="
        let value ← if constantAhead (← ahead) then readConstant n else n.typeTrees
        pure (false, .other (s.trees ++ mark ++ value))
      else if opAhead ":" ts then
        let mark ← readOp ":"
        let bounds ← readSum argumentEnd (n.boundTrees true)
        pure (false, .other (s.trees ++ mark ++ bounds))
      else pure (false, .type t)
    | t => pure (false, .type t)

/-- Arguments in angle brackets: whether `::` stands before them, the arguments, and whether a comma
ends them. -/
def readArgs : Reader (Bool × List Arg × Bool) := do
  let colons ← optionalOp "::"
  let _ ← readOp "<"
  let (args, comma) ← readListed (opAhead ">") (readArg n)
  let _ ← readOp ">"
  pure (!colons.isEmpty, lifetimesFirst args comma)

/-! ## Paths -/

/-- The words that are names of a path without arguments. -/
def bareNames : List String := ["super", "self", "crate", "try"]

/-- A name of a path with its arguments. -/
def readSegment (inExpr : Bool) : Reader Segment := do
  if someWordAhead bareNames (← ahead) then
    let w ← readAnyWord
    pure (.plain w)
  else
    let name ← if wordIsAhead "Self" (← ahead) then readAnyWord else readIdent
    let ts ← ahead
    let atOnce := !inExpr && opAhead "<" ts && !opAhead "<=" ts && !opAhead "<<=" ts
    if atOnce || (opAhead "::" ts && opAhead "<" (past 2 ts)) then
      let (separated, args, comma) ← readArgs n
      pure (.generic name separated args comma)
    else pure (.plain name)

/-- A path: whether `::` begins it, and its names. It ends before `::` and parentheses. -/
def readPath (inExpr : Bool) : Reader (Bool × List Segment) := do
  let colons ← optionalOp "::"
  let first ← readSegment n inExpr
  let more ← readMany (fun ts => opAhead "::" ts && !groupAhead .paren (past 2 ts)) do
    let _ ← readOp "::"
    readSegment n inExpr
  pure (!colons.isEmpty, first :: more)

/-- No name of a path has arguments. -/
def isModPath (ss : List Segment) : Bool :=
  ss.all fun s => match s with
    | .plain _ => true
    | .generic _ _ _ _ => false

/-- The tokens of a path whose first names belong to a type in angle brackets, perhaps as a
trait. -/
def readQualified (inExpr : Bool) : Reader (List Tree) :=
  inOrder [
    readOp "<", n.typeTrees,
    readIf (wordIsAhead "as") (inOrder [readWord "as", do
      let (leading, ss) ← readPath n false
      pure (pathTrees leading ss)]),
    readOp ">", further,
    readAllOf (opAhead "::") further]
where
  /-- A further name. -/
  further : Reader (List Tree) := inOrder [readOp "::", do
    let s ← readSegment n inExpr
    pure s.trees]

/-! ## Parameters -/

/-- A colon and what comes after it, unless nothing does. -/
def afterColon (bounds : Reader (List Tree)) : Reader (List Tree) :=
  readIf (opAhead ":") do
    let mark ← readOp ":"
    let ts ← bounds
    pure (if ts.isEmpty then [] else mark ++ ts)

/-- A lifetime as a parameter, with the lifetimes it outlives. -/
def readLifetimeParameter : Reader (List Tree) :=
  inOrder [readLifetime, afterColon (readSum argumentEnd readLifetime)]

/-- A type as a parameter, with its bounds and what it stands for if it is not given. -/
def readTypeParameter : Reader (List Tree) :=
  let stop (ts : List Tree) : Bool := ts.isEmpty || argumentEnd ts || opAhead "=" ts
  inOrder [
    readName, afterColon (readSum stop (n.boundTrees true)),
    readIf (opAhead "=") (inOrder [readOp "=", n.typeTrees])]

/-- A constant as a parameter, with its type and what it stands for if it is not given. -/
def readConstParameter : Reader (List Tree) :=
  inOrder [
    readWord "const", readName, readOp ":", n.typeTrees,
    readIf (opAhead "=") (inOrder [readOp "=", readConstant n])]

/-- A parameter of a binder. -/
def readBinderParameter : Reader (List Tree) := do
  let attributes ← readAttributeTrees n
  let ts ← ahead
  let parameter ←
    if identAhead ts then readTypeParameter n
    else if lifetimeAhead ts then readLifetimeParameter
    else if wordIsAhead "const" ts then readConstParameter n
    else refuseOneOf [.ident, .lifetime, .word "const"]
  pure (attributes ++ parameter)

/-- A binder, if there is one. -/
def readBinder : Reader (List Tree) :=
  readIf (wordIsAhead "for")
    (inOrder [
      readWord "for", readOp "<", readList (opAhead ">") (readBinderParameter n), readOp ">"])

/-! ## Bounds -/

/-- The result of a function, if it is given. -/
def readResult (type : Reader (List Tree)) : Reader (List Tree) :=
  readIf (opAhead "->") (inOrder [readOp "->", type])

/-- A name that may be followed by arguments in parentheses. -/
def Segment.takesParens : Segment → Bool
  | .plain _ => true
  | .generic _ _ args _ => args.isEmpty

/-- The path of a trait, whose last name may have arguments in parentheses and a result. -/
def readTraitPath : Reader (List Tree) := do
  let (leading, ss) ← readPath n false
  let ts ← ahead
  match ss.getLast? with
  | some s =>
    if s.takesParens && groupAhead .paren (if opAhead "::" ts then past 2 ts else ts) then
      let _ ← optionalOp "::"
      let content ← takeGroup .paren
      insideThen .paren content (readCommas n.typeTrees) fun args => do
        let result ← readResult n.typeWithoutSum
        pure (pathTrees leading (ss.dropLast ++ [.plain s.name]) ++ .group .paren args :: result)
    else pure (pathTrees leading ss)
  | none => pure []

/-- The word `const` before a trait, alone or in brackets for a condition: whether it is there. -/
def readConstMark (allowed : Bool) : Reader Bool := do
  let ts ← ahead
  if groupAhead .bracket ts then
    let _ ← readInside .bracket (readWord "const")
    if allowed then pure true else fail .conditionNotAllowed
  else if wordIsAhead "const" ts then
    let _ ← take 1
    if allowed then pure true else fail .constNotAllowed
  else pure false

/-- A trait with its binder and its modifier, and whether the word `const` stands before it. -/
def readTrait (condition : Bool) : Reader (Bool × List Tree) := do
  let binder ← readBinder n
  let isConst ← readConstMark condition
  let modifier ← optionalOp "?"
  let binder ← if binder.isEmpty && !modifier.isEmpty then readBinder n else pure binder
  let path ← readTraitPath n
  if !binder.isEmpty && !modifier.isEmpty then fail .binderBeforeModifier
  else pure (isConst, binder ++ modifier ++ path)

/-- The lifetimes and types that a type without a name captures. -/
def readCaptured : Nat → Reader (List (Bool × List Tree) × Bool)
  | 0 => pure ([], false)
  | m + 1 => do
    let ts ← ahead
    if opAhead ">" ts then pure ([], false)
    else
      let one ←
        if lifetimeAhead ts then readLifetime
        else if identAhead ts || wordIsAhead "Self" ts then take 1
        else refuseOneOf [.lifetime, .ident, .op ">"]
      let item := (lifetimeAhead ts, one)
      let ts ← ahead
      if opAhead "," ts then
        let _ ← readOp ","
        let (more, comma) ← readCaptured m
        pure (item :: more, more.isEmpty || comma)
      else if opAhead ">" ts then pure ([item], false)
      else refuseOneOf [.op ",", .op ">"]

/-- What a type without a name may capture: lifetimes and types in angle brackets. -/
def readCapture : Reader (List Tree) :=
  inOrder [
    readWord "use", readOp "<",
    do
      let (items, comma) ← readCaptured ((← ahead).length + 1)
      let (items, comma) := lifetimesFirst items comma
      pure (withCommas items comma),
    readOp ">"]

/-- A bound. A trait may stand in parentheses; one with the word `const` is kept as it was
written. -/
def readBoundForm (capture condition : Bool) : Reader Bound := do
  let start ← ahead
  if lifetimeAhead start then
    let l ← readLifetime
    pure ⟨.lifetime, l⟩
  else if wordIsAhead "use" start then
    let c ← readCapture
    if capture then pure ⟨.capture, c⟩ else fail .captureNotAllowed
  else
    let parens := groupAhead .paren start
    let (isConst, ts) ←
      if parens then readInside .paren (readTrait n condition) else readTrait n condition
    if isConst then
      let ts ← writtenSince start
      pure ⟨.trait, ts⟩
    else pure ⟨.trait, if parens then [.group .paren ts] else ts⟩

/-- A further bound of a type begins here. -/
def boundAhead (ts : List Tree) : Bool :=
  anyWordAhead ts || opAhead "::" ts || opAhead "?" ts || lifetimeAhead ts || groupAhead .paren ts

/-- Bounds with `+` between them, and whether there is a trait among them. The first argument bounds
their number. -/
def readBoundsUpTo (sum capture condition : Bool) : Nat → Reader (Bool × List Tree)
  | 0 => pure (false, [])
  | m + 1 => do
    let b ← n.bound capture condition
    let isTrait := b.kind == .trait
    if sum && opAhead "+" (← ahead) then
      let plus ← readOp "+"
      let ts ← ahead
      if boundAhead ts || (condition && (groupAhead .bracket ts || wordIsAhead "const" ts)) then
        let (others, more) ← readBoundsUpTo sum capture condition m
        pure (isTrait || others, b.trees ++ plus ++ more)
      else pure (isTrait, b.trees ++ plus)
    else pure (isTrait, b.trees)

/-- Bounds with `+` between them, and whether there is a trait among them. -/
def readBounds (sum capture condition : Bool) : Reader (Bool × List Tree) := do
  readBoundsUpTo n sum capture condition ((← ahead).length + 1)

/-- The bounds of an object, at least one of which is a trait. -/
def readObject (sum : Bool) : Reader (List Tree) := do
  let (hasTrait, ts) ← readBounds n sum false false
  if hasTrait then pure ts else fail .objectWithoutTrait

end StoreModel.Source
