import StoreModel.Source.BoundReader

/-!
# Reading the forms of types

One reader for each form of type: functions, paths, calls of code generators, sums of bounds, types
in parentheses, tuples, arrays, slices, pointers and references.
-/

set_option autoImplicit false

namespace StoreModel.Source

variable (n : Nested)

/-! ## Functions -/

/-- How a function is called from elsewhere, if it is said. -/
def readAbi : Reader (List Tree) :=
  readIf (wordIsAhead "extern") (inOrder [take 1, readIf stringAhead (take 1)])

/-- A parameter of a function type: a type that may have a name. The first one may stand for the
value that the function belongs to, and is kept as it was written if that value may be changed. -/
def readTypedParameter (first : Bool) : Reader (List Tree) := do
  let start ← ahead
  let mutSelf (ts : List Tree) : Bool :=
    first && wordIsAhead "mut" ts && wordIsAhead "self" (past 1 ts)
  let _ ← readIf mutSelf (take 1)
  let ts ← ahead
  let own := first && wordIsAhead "self" ts
  let named := (identAhead ts || wordIsAhead "_" ts || own) && colonAhead (past 1 ts)
  let name ← if named then inOrder [take 1, readOp ":"] else pure []
  let ts ← ahead
  if mutSelf ts && !(named && own) then
    let _ ← take 2
    writtenSince start
  else if mutSelf start && !named then
    let _ ← readWord "self"
    writtenSince start
  else
    let t ← n.typeTrees
    if mutSelf start then writtenSince start else pure (name ++ t)

/-- The parameters of a function type. Dots, which may have a name, can only be the last one. The
first argument bounds the number of parameters. -/
def readTypedParameters : Nat → Bool → Reader (List Tree)
  | 0, _ => pure []
  | m + 1, first => do
    if (← ahead).isEmpty then pure []
    else
      let attributes ← readAttributeTrees n
      let ts ← ahead
      if opAhead "..." ts then inOrder [pure attributes, readOp "...", optionalOp ","]
      else if (identAhead ts || wordIsAhead "_" ts) && opAhead ":" (past 1 ts)
          && opAhead "..." (past 2 ts) then
        inOrder [pure attributes, take 1, readOp ":", readOp "...", optionalOp ","]
      else
        let p ← readTypedParameter n first
        if (← ahead).isEmpty then pure (attributes ++ p)
        else
          let comma ← readOp ","
          let ps ← readTypedParameters m false
          pure (attributes ++ p ++ comma ++ ps)

/-- A function type. -/
def readFunctionType : Reader (List Tree) := do
  let front ← inOrder [optionalWord "unsafe", readAbi, readWord "fn"]
  let content ← takeGroup .paren
  insideThen .paren content (readTypedParameters n content.length true) fun ps => do
    let result ← readResult n.typeWithoutSum
    pure (front ++ .group .paren ps :: result)

/-! ## Paths -/

/-- What `+` adds to a bound that has been read, as far as bounds follow. The first argument bounds
their number. -/
def readMoreBounds : Nat → Reader (List Tree)
  | 0 => pure []
  | m + 1 => do
    if opAhead "+" (← ahead) then
      let plus ← readOp "+"
      if boundAhead (← ahead) then
        let b ← n.boundTrees false
        let more ← readMoreBounds m
        pure (plus ++ b ++ more)
      else pure plus
    else pure []

/-- A form that only a compiler knows: a word, a mark, a name and a group. -/
def readBuiltin : Reader (List Tree) := inOrder [take 1, readOp "#", readName, anyGroup .paren]

/-- The word for a form that only a compiler knows, with its mark. -/
def builtinAhead (ts : List Tree) : Bool := wordIsAhead "builtin" ts && opAhead "#" (past 1 ts)

/-- A type that begins with a path: the path, a call of a code generator, or a sum of bounds. -/
def readPathType (sum : Bool) (binder : List Tree) : Reader Ty := do
  let (leading, ss) ← readPath n false
  let ts ← ahead
  let path := pathTrees leading ss
  if bangAhead ts && isModPath ss then
    let bang ← readOp "!"
    let tokens ← readTokens
    pure (.other (path ++ bang ++ tokens))
  else if !binder.isEmpty || (sum && opAhead "+" ts) then
    let more ← if sum then readMoreBounds n (ts.length + 1) else pure []
    pure (if more.isEmpty then .bound false (binder ++ path) else .other (binder ++ path ++ more))
  else pure (.path leading ss)

/-! ## Parentheses -/

/-- The content of parentheses where a type may stand. -/
inductive Parenthesised where
  /-- What the parentheses enclose is a type with them. -/
  | whole (t : Ty)
  /-- A trait with a modifier. -/
  | modified (tokens : List Tree)
  | single (t : Ty)

/-- The content of parentheses where a type may stand. -/
def readParenthesised : Reader Parenthesised := do
  let ts ← ahead
  if ts.isEmpty then pure (.whole (.other [.group .paren []]))
  else if lifetimeAhead ts then
    let bounds ← readObject n true
    pure (.whole (.paren (.other bounds)))
  else if opAhead "?" ts then
    let (_, trait) ← readTrait n false
    pure (.modified trait)
  else
    let t ← n.type true
    if opAhead "," (← ahead) then
      let comma ← readOp ","
      let more ← readCommas n.typeTrees
      pure (.whole (.other [.group .paren (t.trees ++ comma ++ more)]))
    else pure (.single t)

/-- The tokens of a type that could also be a bound by itself, without parentheses of its own. -/
def Ty.boundTrees? : Ty → Option (List Tree)
  | .path leading ss => some (pathTrees leading ss)
  | .bound _ ts => some ts
  | _ => none

/-- What `+` adds to a bound in parentheses. -/
def readPlusBounds : Reader (List Tree) :=
  readAllOf (opAhead "+") (inOrder [readOp "+", n.boundTrees false])

/-- A type in parentheses, or what they enclose as the first bound of a sum. -/
def readParenType (sum : Bool) : Reader Ty := do
  let content ← takeGroup .paren
  insideThen .paren content (readParenthesised n) fun p => do
    match p with
    | .whole t => pure t
    | .modified b =>
      let more ← readPlusBounds n
      pure (if more.isEmpty then .bound true b else .other (.group .paren b :: more))
    | .single t =>
      match t.boundTrees? with
      | some b =>
        if sum && opAhead "+" (← ahead) then
          let more ← readPlusBounds n
          pure (.other (.group .paren b :: more))
        else pure (.paren t)
      | none => pure (.paren t)

/-! ## All forms -/

/-- The content of brackets where a type stands: an element, and the length of an array. -/
def readElementType : Reader (List Tree) :=
  inOrder [n.typeTrees, readIf (opAhead ";") (inOrder [readOp ";", n.exprTrees])]

/-- A pointer. -/
def readPointer : Reader (List Tree) :=
  inOrder [
    readOp "*",
    do
      if someWordAhead ["const", "mut"] (← ahead) then take 1
      else refuseOneOf [.word "const", .word "mut"],
    n.typeWithoutSum]

/-- A reference. -/
def readReference : Reader (List Tree) :=
  inOrder [readOp "&", readIf lifetimeAhead readLifetime, optionalWord "mut", n.typeWithoutSum]

/-- The bounds of a type without a name. -/
def readImplType (sum : Bool) : Reader (List Tree) := do
  let word ← readWord "impl"
  let (hasTrait, ts) ← readBounds n sum true true
  if hasTrait then pure (word ++ ts) else fail .implWithoutTrait

/-- The bounds of an object. With a star the form is kept as it was written. -/
def readObjectType (sum : Bool) : Reader (List Tree) := do
  let start ← ahead
  let word ← readWord "dyn"
  let star ← optionalOp "*"
  let bounds ← readObject n sum
  if star.isEmpty then pure (word ++ bounds) else writtenSince start

/-- The ways a type can begin after a binder. -/
def startsAfterBinder : List Start :=
  [.ident, .word "fn", .word "unsafe", .word "extern", .word "super", .word "self", .word "Self",
    .word "crate"]

/-- The ways a type can begin. -/
def typeStarts : List Start :=
  [.word "for", .group .paren, .word "fn", .word "unsafe", .word "extern", .ident, .op "::",
    .op "<", .word "dyn", .group .bracket, .op "*", .op "&", .op "!", .word "impl", .word "_",
    .lifetime]

/-- A type. -/
def readTypeForm (sum : Bool) : Reader Ty := do
  let start ← ahead
  if groupAhead .invisible start then
    let t ← readInside .invisible (n.type true)
    pure (.group t)
  else
    let binder ← readBinder n
    let ts ← ahead
    let other (read : Reader (List Tree)) : Reader Ty := do
      let ts ← read
      pure (.other (binder ++ ts))
    if !binder.isEmpty && !startsAfterBinder.any (·.isAhead ts) then refuseOneOf startsAfterBinder
    else if groupAhead .paren ts then readParenType n sum
    else if someWordAhead ["fn", "unsafe", "extern"] ts then other (readFunctionType n)
    else if builtinAhead ts then
      let _ ← readBuiltin
      let ts ← writtenSince start
      pure (.other ts)
    else if pathWordAhead ts || opAhead "::" ts then readPathType n sum binder
    else if opAhead "<" ts then other (readQualified n false)
    else if wordIsAhead "dyn" ts then other (readObjectType n sum)
    else if groupAhead .bracket ts then other (readGroup .bracket (readElementType n))
    else if opAhead "*" ts then other (readPointer n)
    else if opAhead "&" ts then other (readReference n)
    else if opAhead "!" ts then other (readOp "!")
    else if wordIsAhead "impl" ts then other (readImplType n sum)
    else if wordIsAhead "_" ts then other (take 1)
    else if lifetimeAhead ts then other (readObject n true)
    else refuseOneOf typeStarts

end StoreModel.Source
