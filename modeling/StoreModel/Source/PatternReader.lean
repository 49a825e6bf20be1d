import StoreModel.Source.BoundReader
import StoreModel.Source.Member

/-!
# Reading patterns

Patterns stand before the arrows of `match`, in conditions, in declarations of variables and before
the types of parameters. Alternatives are separated by `|`; `readPatternForm` reads one of them.
-/

set_option autoImplicit false

namespace StoreModel.Source

variable (n : Nested)

/-! ## Alternatives -/

/-- A bar between alternatives stands at the front, not another operator. -/
def barAhead (ts : List Tree) : Bool :=
  opAhead "|" ts && !opAhead "||" ts && !opAhead "|=" ts

/-- Alternatives with bars between them, and perhaps one before the first. -/
def readAlternatives : Reader Pattern := do
  let bar ← optionalOp "|"
  let first ← n.pattern
  let more ← readAllOf barAhead (inOrder [readOp "|", n.patternTrees])
  if bar.isEmpty && more.isEmpty then pure first
  else pure ⟨.other, bar ++ first.trees ++ more⟩

/-- The tokens of alternatives. -/
def readAlternativeTrees : Reader (List Tree) := do
  let p ← readAlternatives n
  pure p.trees

/-! ## Calls of code generators -/

/-- What may follow a path without arguments: the mark of a code generator and a group. -/
def generatorAhead (ss : List Segment) (ts : List Tree) : Bool := bangAhead ts && isModPath ss

/-- A path in an expression or a pattern: its tokens, and whether a call of a code generator may
follow. -/
def readExprPath : Reader (Bool × List Tree) := do
  if opAhead "<" (← ahead) then
    let ts ← readQualified n true
    pure (false, ts)
  else
    let (leading, ss) ← readPath n true
    pure (generatorAhead ss (← ahead), pathTrees leading ss)

/-! ## Ranges -/

/-- The operator of a range in a pattern; three points stand for a range with its end. -/
def readPatternRangeOp : Reader (List Tree) := do
  if opAhead "..." (← ahead) then
    let _ ← readOp "..."
    pure (Tree.operator "..=")
  else readOp (if opAhead "..=" (← ahead) then "..=" else "..")

/-- An end of a range, unless what follows shows that there is none. -/
def readRangeBound : Reader (List Tree) := do
  let ts ← ahead
  if ts.isEmpty || opAhead "|" ts || opAhead "=" ts || colonAhead ts || opAhead "," ts
      || opAhead ";" ts || wordIsAhead "if" ts then pure []
  else if literalAhead ts then readLiteral
  else if pathWordAhead ts || opAhead "::" ts || opAhead "<" ts then
    let (_, path) ← readExprPath n
    pure path
  else if wordIsAhead "const" ts then inOrder [take 1, readBody n]
  else
    refuseOneOf [.literal, .ident, .op "::", .op "<", .word "self", .word "Self", .word "super",
      .word "crate", .word "const"]

/-- A range whose beginning has been read. -/
def readRangeFrom (front : List Tree) : Reader Pattern := do
  let ts ← ahead
  let closed := opAhead "..=" ts || opAhead "..." ts
  let op ← readPatternRangeOp
  let back ← readRangeBound n
  if closed && back.isEmpty then refuseFor "range upper bound"
  else pure ⟨if back.isEmpty then .openRange else .other, front ++ op ++ back⟩

/-- A range without a beginning, or the two points that stand for the rest. -/
def readRangeTo : Reader Pattern := do
  let closed := opAhead "..=" (← ahead)
  let op ← if closed then readOp "..=" else readOp ".."
  let back ← readRangeBound n
  if !back.isEmpty then pure ⟨.openRange, op ++ back⟩
  else if closed then refuseFor "range upper bound"
  else pure ⟨.rest, op⟩

/-! ## Structures, tuples and slices -/

/-- A field of a structure: a member with a pattern, or the name of a variable. A boxed variable is
kept as it was written. -/
def readFieldPattern : Reader (List Tree) := do
  let start ← ahead
  let boxed ← optionalWord "box"
  let marks ← inOrder [optionalWord "ref", optionalWord "mut"]
  let plain := boxed.isEmpty && marks.isEmpty
  let (named, member) ←
    if plain then readMember
    else do
      let name ← readName
      pure (true, name)
  if (plain && opAhead ":" (← ahead)) || !named then
    inOrder [pure member, readOp ":", readAlternativeTrees n]
  else if boxed.isEmpty then pure (marks ++ member)
  else writtenSince start

/-- The fields of a structure, of which two points leave out the rest. The first argument bounds
their number. -/
def readFieldPatterns : Nat → Reader (List Tree)
  | 0 => pure []
  | m + 1 => do
    if (← ahead).isEmpty then pure []
    else
      let attributes ← readAttributeTrees n
      if opAhead ".." (← ahead) then inOrder [pure attributes, readOp ".."]
      else
        let field ← readFieldPattern n
        if (← ahead).isEmpty then pure (attributes ++ field)
        else inOrder [pure (attributes ++ field), readOp ",", readFieldPatterns m]

/-- A pattern that begins with a path: a call of a code generator, a structure, a tuple with a name,
a range or the path alone. -/
def readPathPattern : Reader Pattern := do
  let (generator, path) ← readExprPath n
  let ts ← ahead
  if generator then
    let call ← inOrder [pure path, readOp "!", readTokens]
    pure ⟨.other, call⟩
  else if groupAhead .brace ts then
    let content ← takeGroup .brace
    let fields ← inside .brace content (readFieldPatterns n content.length)
    pure ⟨.other, path ++ [.group .brace fields]⟩
  else if groupAhead .paren ts then
    let fields ← readGroup .paren (readCommas (readAlternativeTrees n))
    pure ⟨.other, path ++ fields⟩
  else if opAhead ".." ts then readRangeFrom n path
  else pure ⟨.other, path⟩

/-- An element of a slice, which is no range with an open end. -/
def readSliceElement : Reader (List Tree) := do
  let p ← readAlternatives n
  if p.form == .openRange then fail .openRangeInSlice else pure p.trees

/-- A variable, perhaps with a pattern for what it holds. -/
def readVariable : Reader (List Tree) :=
  inOrder [
    optionalWord "ref", optionalWord "mut", readNameOr ["self"],
    readIf (opAhead "@") (inOrder [readOp "@", n.patternTrees])]

/-! ## All forms -/

/-- The ways a pattern can begin. -/
def patternStarts : List Start :=
  [.ident, .op "::", .op "<", .word "_", .literal, .word "const", .word "ref", .word "mut", .op "&",
    .group .paren, .group .bracket, .op "..", .word "const"]

/-- A pattern begins with a path that is more than the name of a variable. -/
def pathPatternAhead (ts : List Tree) : Bool :=
  let second := past 1 ts
  (identAhead ts && (opAhead "::" second || opAhead "!" second || groupAhead .brace second
      || groupAhead .paren second || opAhead ".." second))
    || (wordIsAhead "self" ts && opAhead "::" second)
    || opAhead "::" ts || opAhead "<" ts || someWordAhead ["Self", "super", "crate"] ts

/-- A pattern without alternatives. -/
def readPatternForm : Reader Pattern := do
  let ts ← ahead
  let other (read : Reader (List Tree)) : Reader Pattern := do
    let ts ← read
    pure ⟨.other, ts⟩
  if pathPatternAhead ts then readPathPattern n
  else if wordIsAhead "_" ts then other (take 1)
  else if wordIsAhead "box" ts then
    let written ← asWritten (inOrder [take 1, n.patternTrees])
    pure ⟨.written, written⟩
  else if opAhead "-" ts || literalAhead ts || wordIsAhead "const" ts then
    let bound ← readRangeBound n
    if opAhead ".." (← ahead) then readRangeFrom n bound else pure ⟨.other, bound⟩
  else if identAhead ts || someWordAhead ["ref", "mut", "self"] ts then other (readVariable n)
  else if opAhead "&" ts then other (inOrder [readOp "&", optionalWord "mut", n.patternTrees])
  else if groupAhead .paren ts then other (readGroup .paren (readCommas (readAlternativeTrees n)))
  else if groupAhead .bracket ts then other (readGroup .bracket (readCommas (readSliceElement n)))
  else if opAhead ".." ts && !opAhead "..." ts then readRangeTo n
  else refuseOneOf patternStarts

end StoreModel.Source
