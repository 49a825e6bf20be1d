import StoreModel.Source.Ahead

/-!
# Reading tokens

A reader takes tokens from the front of those that are left and gives what it made of them, or a
fault. Most readers give tokens again, the ones that the form they have read is printed with.

Tokens that are left over in brackets are no fault at once: a later fault comes before them, and
only `readText`, which reads a whole text, refuses them. So the state of a reader tells in which
brackets tokens were left over first.
-/

set_option autoImplicit false

namespace StoreModel.Source

/-- What a reader goes on from. -/
structure Rest where
  /-- The tokens that are left. -/
  trees : List Tree
  /-- The brackets that were the first to be left with tokens in them. -/
  stray : Option Delimiter := none
deriving Inhabited

/-- A reader of tokens. -/
abbrev Reader (α : Type) := StateT Rest (Except Fault) α

/-- The text of all tokens as a reader understands it. -/
def readText {α : Type} (trees : Option (List Tree)) (read : Reader α) : Except Fault α :=
  match trees with
  | none => .error ⟨false, .noTokens⟩
  | some ts =>
    match read ⟨ts, none⟩ with
    | .error f => .error f
    | .ok (a, ⟨[], none⟩) => .ok a
    | .ok (_, s) => .error ⟨false, .leftover s.stray⟩

/-! ## Looking and refusing -/

/-- The tokens that are left. -/
def ahead : Reader (List Tree) := fun s => .ok (s.trees, s)

/-- A fault that has to do with what has been read. -/
def fail {α : Type} (c : Cause) : Reader α := fun _ => .error ⟨false, c⟩

/-- A fault at what comes next. -/
def refuse {α : Type} (c : Cause) : Reader α := fun s => .error ⟨s.trees.isEmpty, c⟩

/-- A fault because one thing was expected next. -/
def refuseFor {α : Type} (thing : String) : Reader α := refuse (.expected [thing])

/-- A fault because none of some ways to begin is followed up. A way that would have been open, had
something else not been missing, is not named. -/
def refuseOneOf {α : Type} (starts : List Start) : Reader α := do
  let ts ← ahead
  refuse (.expected ((starts.filter fun s => !s.isAhead ts).map Start.name))

/-- What a reader makes of the tokens, if it can read them; else nothing is read. -/
def tryRead {α : Type} (read : Reader α) : Reader (Option α) := fun s =>
  match read s with
  | .ok (a, s) => .ok (some a, s)
  | .error _ => .ok (none, s)

/-- The tokens after what a reader can read, which stays unread. -/
def aheadAfter {α : Type} (read : Reader α) : Reader (Option (List Tree)) := fun s =>
  match read s with
  | .ok (_, s') => .ok (some s'.trees, s)
  | .error _ => .ok (none, s)

/-- The tokens from a point on as they were written. -/
def writtenSince (start : List Tree) : Reader (List Tree) := do
  let ts ← ahead
  pure (start.take (start.length - ts.length))

/-- What a reader passes over, as it was written. -/
def asWritten (read : Reader (List Tree)) : Reader (List Tree) := do
  let start ← ahead
  let _ ← read
  writtenSince start

/-! ## Single tokens -/

/-- The next token trees. -/
def take (n : Nat) : Reader (List Tree) := fun s =>
  .ok (s.trees.take n, { s with trees := s.trees.drop n })

/-- An operator. -/
def readOp (s : String) : Reader (List Tree) := do
  if opAhead s (← ahead) then
    let _ ← take s.length
    pure (Tree.operator s)
  else fail (.expected [token s])

/-- A given word. -/
def readWord (w : String) : Reader (List Tree) := do
  if wordIsAhead w (← ahead) then take 1 else refuseFor (token w)

/-- What a reader gives, if what comes next passes a test. -/
def readIf (test : List Tree → Bool) (read : Reader (List Tree)) : Reader (List Tree) := do
  if test (← ahead) then read else pure []

/-- An operator, if it is there. -/
def optionalOp (s : String) : Reader (List Tree) := readIf (opAhead s) (readOp s)

/-- A given word, if it is there. -/
def optionalWord (w : String) : Reader (List Tree) := readIf (wordIsAhead w) (take 1)

/-- An identifier. -/
def readIdent : Reader String := do
  match ← ahead with
  | .word v :: _ =>
    if isKeyword v then fail (.keyword v)
    else
      let _ ← take 1
      pure v
  | _ => refuseFor "identifier"

/-- Any word. -/
def readAnyWord : Reader String := do
  match ← ahead with
  | .word v :: _ =>
    let _ ← take 1
    pure v
  | _ => refuseFor "ident"

/-- An identifier, as its token. -/
def readName : Reader (List Tree) := do
  let w ← readIdent
  pure [.word w]

/-- An identifier or one of some words, as its token. -/
def readNameOr (ws : List String) : Reader (List Tree) := do
  if someWordAhead ws (← ahead) then take 1 else readName

/-- A lifetime. -/
def readLifetime : Reader (List Tree) := do
  if lifetimeAhead (← ahead) then take 2 else refuseFor "lifetime"

/-- A literal. -/
def readLiteral : Reader (List Tree) := do
  match ← ahead with
  | .punct '-' _ :: .literal s .number :: _ =>
    let _ ← take 2
    pure [.mark '-', .literal s .number]
  | ts => if literalAhead ts then take 1 else refuseFor "literal"

/-! ## Groups -/

/-- The content of a group in given brackets. -/
def takeGroup (d : Delimiter) : Reader (List Tree) := do
  match ← ahead with
  | .group e content :: _ =>
    if d = e then
      let _ ← take 1
      pure content
    else refuseFor d.name
  | _ => refuseFor d.name

/-- Records that tokens may be left over in brackets. -/
def Rest.leave (s : Rest) (d : Delimiter) (left : List Tree) : Rest :=
  if left.isEmpty then s else { s with stray := s.stray <|> some d }

/-- Reads the content of a group that has been taken, and goes on after it. What is left over in the
group counts as left over after what is left over in groups that follow. -/
def insideThen {α β : Type} (d : Delimiter) (content : List Tree) (inner : Reader α)
    (after : α → Reader β) : Reader β := fun s =>
  match inner { s with trees := content } with
  | .error f => .error f
  | .ok (a, inside) =>
    match after a { s with stray := inside.stray } with
    | .error f => .error f
    | .ok (b, s) => .ok (b, s.leave d inside.trees)

/-- What a reader makes of the content of a group that has been taken. -/
def inside {α : Type} (d : Delimiter) (content : List Tree) (inner : Reader α) : Reader α :=
  insideThen d content inner pure

/-- What a reader makes of the content of a group. -/
def readInside {α : Type} (d : Delimiter) (inner : Reader α) : Reader α := do
  let content ← takeGroup d
  inside d content inner

/-- A group, with its content as a reader gives it. -/
def readGroup (d : Delimiter) (inner : Reader (List Tree)) : Reader (List Tree) := do
  let ts ← readInside d inner
  pure [.group d ts]

/-- A group with any content. -/
def anyGroup (d : Delimiter) : Reader (List Tree) := do
  let content ← takeGroup d
  pure [.group d content]

/-- A group in brackets of any form. -/
def readTokens : Reader (List Tree) := do
  if [Delimiter.paren, .bracket, .brace].any (groupAhead · (← ahead)) then take 1
  else refuseFor "delimiter"

/-! ## Sequences -/

/-- What some readers give, one after the other. -/
def inOrder : List (Reader (List Tree)) → Reader (List Tree)
  | [] => pure []
  | read :: reads => do
    let ts ← read
    let us ← inOrder reads
    pure (ts ++ us)

/-- Items as long as a test is passed. The first argument bounds their number. -/
def readManyUpTo {α : Type} (more : List Tree → Bool) (item : Reader α) : Nat → Reader (List α)
  | 0 => pure []
  | n + 1 => do
    if more (← ahead) then
      let a ← item
      let as ← readManyUpTo more item n
      pure (a :: as)
    else pure []

/-- Items as long as a test is passed. -/
def readMany {α : Type} (more : List Tree → Bool) (item : Reader α) : Reader (List α) := do
  readManyUpTo more item ((← ahead).length + 1)

/-- The tokens of items as long as a test is passed. -/
def readAllOf (more : List Tree → Bool) (item : Reader (List Tree)) : Reader (List Tree) := do
  let items ← readMany more item
  pure items.flatten

/-- Items with separators between them up to a stop, and whether a separator ends them. The first
argument bounds their number. -/
def readSeparatedUpTo {α : Type} (sep : String) (stop : List Tree → Bool) (item : Reader α) :
    Nat → Reader (List α × Bool)
  | 0 => pure ([], false)
  | n + 1 => do
    if stop (← ahead) then pure ([], false)
    else
      let a ← item
      if stop (← ahead) then pure ([a], false)
      else
        let _ ← readOp sep
        let (as, final) ← readSeparatedUpTo sep stop item n
        pure (a :: as, as.isEmpty || final)

/-- Items with commas between them up to a stop, and whether a comma ends them. -/
def readListed {α : Type} (stop : List Tree → Bool) (item : Reader α) :
    Reader (List α × Bool) := do
  readSeparatedUpTo "," stop item ((← ahead).length + 1)

/-- Tokens with separators between them, and perhaps one at the end. -/
def withSeparators (sep : String) (items : List (List Tree)) (final : Bool) : List Tree :=
  (Tree.operator sep).intercalate items ++ if final then Tree.operator sep else []

/-- Tokens with commas between them, and perhaps one at the end. -/
def withCommas (items : List (List Tree)) (comma : Bool) : List Tree :=
  withSeparators "," items comma

/-- The tokens of items with commas between them up to a stop. -/
def readList (stop : List Tree → Bool) (item : Reader (List Tree)) : Reader (List Tree) := do
  let (items, comma) ← readListed stop item
  pure (withCommas items comma)

/-- The tokens of items with commas between them up to the end. -/
def readCommas (item : Reader (List Tree)) : Reader (List Tree) := readList List.isEmpty item

/-- The tokens of items with `+` between them up to a stop, or up to an item that no `+` follows.
The first argument bounds their number. -/
def readSumUpTo (stop : List Tree → Bool) (item : Reader (List Tree)) : Nat → Reader (List Tree)
  | 0 => pure []
  | n + 1 => do
    if stop (← ahead) then pure []
    else
      let ts ← item
      if opAhead "+" (← ahead) then
        let plus ← readOp "+"
        let us ← readSumUpTo stop item n
        pure (ts ++ plus ++ us)
      else pure ts

/-- The tokens of items with `+` between them up to a stop, or up to an item that no `+` follows. -/
def readSum (stop : List Tree → Bool) (item : Reader (List Tree)) : Reader (List Tree) := do
  readSumUpTo stop item ((← ahead).length + 1)

/-- The tokens of items with `+` between them, which go on up to a stop. -/
def readSumTo (stop : List Tree → Bool) (item : Reader (List Tree)) : Reader (List Tree) := do
  let (items, plus) ← readSeparatedUpTo "+" stop item ((← ahead).length + 1)
  pure (withSeparators "+" items plus)

end StoreModel.Source
