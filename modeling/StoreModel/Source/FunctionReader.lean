import StoreModel.Source.BodyReader
import StoreModel.Source.TypeForm

/-!
# Reading functions

What stands before the body of a function that is an item: its marks, its name, its generic
parameters, its parameters, its result and its conditions. The first parameter may stand for the
value that the function belongs to; dots, which may have a pattern, can only be the last one.
-/

set_option autoImplicit false

namespace StoreModel.Source

variable (n : Nested)

/-- The parameter for the value that a function belongs to. -/
def readReceiver : Reader (List Tree) := do
  let reference ← readIf (opAhead "&") (inOrder [readOp "&", readIf lifetimeAhead readLifetime])
  let rest ← inOrder [optionalWord "mut", readWord "self"]
  let type ←
    if reference.isEmpty then readIf (opAhead ":") (inOrder [readOp ":", n.typeTrees]) else pure []
  pure (reference ++ rest ++ type)

/-- The dots at the end of parameters. A comma has to follow them unless nothing does. -/
def readDots : Reader (List Tree) := inOrder [readOp "...", readIf (!·.isEmpty) (readOp ",")]

/-- A parameter with a pattern and a type, or dots with a pattern; whether it is dots. A parameter
that begins like a type with arguments has no pattern, and is printed with one for any value. -/
def readPatternParameter : Reader (Bool × List Tree) := do
  let ts ← ahead
  if identAhead ts && opAhead "<" (past 1 ts) then
    let t ← n.typeTrees
    pure (false, .word "_" :: .mark ':' :: t)
  else
    let front ← inOrder [n.patternTrees, readOp ":"]
    if opAhead "..." (← ahead) then
      let dots ← readDots
      pure (true, front ++ dots)
    else
      let t ← n.typeTrees
      pure (false, front ++ t)

/-- The parameters of a function, when it is known whether some have been read, and whether the
value that the function belongs to is one of them. The first argument bounds their number. -/
def readParameters : Nat → Bool → Bool → Reader (List Tree)
  | 0, _, _ => pure []
  | m + 1, later, own => do
    if (← ahead).isEmpty then pure []
    else
      let attributes ← readAttributeTrees n
      if opAhead "..." (← ahead) then inOrder [pure attributes, readDots]
      else
        let goOn (own : Bool) (parameter : List Tree) : Reader (List Tree) := do
          if (← ahead).isEmpty then pure (attributes ++ parameter)
          else inOrder [pure (attributes ++ parameter), readOp ",", readParameters m true own]
        match ← tryRead (readReceiver n) with
        | some receiver =>
          if own then fail .secondReceiver
          else if later then fail .misplacedReceiver
          else goOn true receiver
        | none =>
          let (dots, parameter) ← readPatternParameter n
          if dots then pure (attributes ++ parameter) else goOn own parameter

/-- What stands before the body of a function. Where it may be, a function can be marked safe. -/
def readSignature (safe : Bool) : Reader (List Tree) := do
  let front ← inOrder [
    optionalWord "const", optionalWord "async",
    if safe && wordIsAhead "safe" (← ahead) then take 1 else optionalWord "unsafe",
    readAbi, readWord "fn", readName, readGenericTrees n]
  let content ← takeGroup .paren
  insideThen .paren content (readParameters n content.length false false) fun parameters =>
    inOrder [pure (front ++ [.group .paren parameters]), readResult n.typeTrees, readWhere n]

/-- The tokens after a word, if it stands at the front. -/
def afterWord (w : String) (ts : List Tree) : List Tree :=
  if wordIsAhead w ts then past 1 ts else ts

/-- What stands before the body of a function begins here. -/
def signatureAhead (safe : Bool) (ts : List Tree) : Bool :=
  let ts := afterWord "async" (afterWord "const" ts)
  let ts := if safe && wordIsAhead "safe" ts then past 1 ts else afterWord "unsafe" ts
  let ts :=
    if wordIsAhead "extern" ts then
      if stringAhead (past 1 ts) then past 2 ts else past 1 ts
    else ts
  wordIsAhead "fn" ts

end StoreModel.Source
