import StoreModel.Source.Fault

/-!
# What stands ahead

Tests on the tokens that come next, by which a reader chooses what to read. An operator of several
characters is there if its characters stand in order and each but the last is joined to the next;
whether the last one is joined to something else does not matter, so the beginning of a longer
operator counts as a shorter one.

A `Start` is a way in which something can begin, with the name that a fault gives it.
-/

set_option autoImplicit false

namespace StoreModel.Source

/-- The words that are no identifiers. -/
def keywords : List String := [
  "_", "abstract", "as", "async", "await", "become", "box", "break", "const", "continue", "crate",
  "do", "dyn", "else", "enum", "extern", "false", "final", "fn", "for", "if", "impl", "in", "let",
  "loop", "macro", "match", "mod", "move", "mut", "override", "priv", "pub", "ref", "return",
  "Self", "self", "static", "struct", "super", "trait", "true", "try", "type", "typeof", "unsafe",
  "unsized", "use", "virtual", "where", "while", "yield"]

/-- A word that is no identifier. -/
def isKeyword (w : String) : Bool := keywords.contains w

/-! ## Single tokens -/

/-- Punctuation characters stand at the front, each but the last joined to the next. -/
def joinedAhead : List Char → List Tree → Bool
  | [], _ => true
  | [c], .punct d _ :: _ => c == d
  | c :: e :: cs, .punct d joint :: ts => c == d && joint && joinedAhead (e :: cs) ts
  | _ :: _, _ => false

/-- An operator stands at the front. -/
def opAhead (s : String) (ts : List Tree) : Bool := joinedAhead s.toList ts

/-- A given word stands at the front. -/
def wordIsAhead (w : String) : List Tree → Bool
  | .word v :: _ => v == w
  | _ => false

/-- One of some words stands at the front. -/
def someWordAhead (ws : List String) : List Tree → Bool
  | .word v :: _ => ws.contains v
  | _ => false

/-- Any word stands at the front. -/
def anyWordAhead : List Tree → Bool
  | .word _ :: _ => true
  | _ => false

/-- An identifier stands at the front. -/
def identAhead : List Tree → Bool
  | .word v :: _ => !isKeyword v
  | _ => false

/-- A lifetime stands at the front. -/
def lifetimeAhead : List Tree → Bool
  | .punct '\'' true :: .word _ :: _ => true
  | _ => false

/-- A group in given brackets stands at the front. -/
def groupAhead (d : Delimiter) : List Tree → Bool
  | .group e _ :: _ => d == e
  | _ => false

/-- A literal stands at the front; a truth value is one, and a number with a minus sign. -/
def literalAhead : List Tree → Bool
  | .literal _ _ :: _ => true
  | .word v :: _ => v == "true" || v == "false"
  | .punct '-' _ :: .literal _ .number :: _ => true
  | _ => false

/-- A string literal stands at the front. -/
def stringAhead : List Tree → Bool
  | .literal _ (.string _) :: _ => true
  | _ => false

/-- The tokens after some trees; a lifetime counts as one. -/
def past : Nat → List Tree → List Tree
  | 0, ts => ts
  | n + 1, .punct '\'' true :: .word _ :: ts => past n ts
  | n + 1, _ :: ts => past n ts
  | _ + 1, [] => []

/-- A single point stands at the front, not the beginning of a range. -/
def pointAhead (ts : List Tree) : Bool := opAhead "." ts && !opAhead ".." ts

/-- A single colon stands at the front, not the separator of a path. -/
def colonAhead (ts : List Tree) : Bool := opAhead ":" ts && !opAhead "::" ts

/-- An exclamation mark stands at the front, not an inequality. -/
def bangAhead (ts : List Tree) : Bool := opAhead "!" ts && !opAhead "!=" ts

/-- A word that may begin a path without arguments stands at the front. -/
def pathWordAhead (ts : List Tree) : Bool :=
  identAhead ts || someWordAhead ["super", "self", "Self", "crate"] ts

/-- Generic parameters begin with what stands at the front; a qualified path would go on in another
way after the angle bracket. -/
def parametersAhead (ts : List Tree) : Bool :=
  let second := past 1 ts
  let third := past 2 ts
  opAhead "<" ts
    && (opAhead ">" second || opAhead "#" second || wordIsAhead "const" second
      || (lifetimeAhead second || identAhead second)
        && (opAhead ">" third || opAhead "," third || colonAhead third || opAhead "=" third))

/-! ## Ways to begin -/

/-- A way in which something can begin. -/
inductive Start where
  | word (w : String)
  | op (s : String)
  | ident
  | lifetime
  | literal
  | stringLiteral
  | group (d : Delimiter)
deriving DecidableEq, Repr, Inhabited

namespace Start

/-- The name that faults use. -/
def name : Start → String
  | word w => token w
  | op s => token s
  | ident => "identifier"
  | lifetime => "lifetime"
  | literal => "literal"
  | stringLiteral => "string literal"
  | group d => d.name

/-- It stands at the front. -/
def isAhead : Start → List Tree → Bool
  | word w => wordIsAhead w
  | op s => opAhead s
  | ident => identAhead
  | lifetime => lifetimeAhead
  | literal => literalAhead
  | stringLiteral => stringAhead
  | group d => groupAhead d

end Start

end StoreModel.Source
