import StoreModel.Source.Lexer
import StoreModel.Source.Reader
import StoreModel.Text.Chars

/-!
# Identifiers, numbers and members

The names of source text that stand by themselves: identifiers, and the members of structures and
tuples, which are identifiers or numbers.
-/

set_option autoImplicit false

namespace StoreModel.Source

/-! ## Identifiers

An identifier is one word of source text that is not a keyword; a word marked as raw by `r#` is
never a keyword. `Ident.read` finds the identifier that a text holds. Gaps and comments around it
vanish, so different texts may hold one identifier; the mark stays. -/

/-- An identifier as it stands in source text. -/
structure Ident where
  text : String
deriving DecidableEq, Repr, Inhabited

namespace Ident

/-- The identifier that a text holds. -/
def read (s : String) : Except Fault Ident := (readText (readTrees s) readIdent).map Ident.mk

/-- A text without the mark of raw identifiers. -/
def dropMark (s : String) : String :=
  match s.toList with
  | 'r' :: '#' :: r => String.ofList r
  | _ => s

end Ident

/-! ## Numbers

A literal with digits is a whole number unless it has a point or an exponent. A whole number may
have a base, gaps between its digits and a suffix. -/

open StoreModel.Text

/-- The base that a number is written in, and what follows the mark of the base. -/
def numberBase : List Char → Nat × List Char
  | '0' :: 'x' :: r => (16, r)
  | '0' :: 'o' :: r => (8, r)
  | '0' :: 'b' :: r => (2, r)
  | cs => (10, cs)

/-- A digit of a base. -/
def digitOf? (base : Nat) (c : Char) : Option Nat :=
  if base ≤ 10 then if c.isDigit then hexValue? c else none else hexValue? c

/-- The value of the digits at the front, and what follows them. -/
def splitDigits (base : Nat) : Nat → List Char → Nat × List Char
  | value, [] => (value, [])
  | value, c :: r =>
    if c = '_' then splitDigits base value r
    else match digitOf? base c with
      | some d => splitDigits base (value * base + d) r
      | none => (value, c :: r)

/-- What follows the digits of a number makes it a number with a point or an exponent: a point, or
the letter of an exponent with a sign or a digit after it. -/
def isFraction : List Char → Bool
  | '.' :: _ => true
  | c :: r =>
    (c == 'e' || c == 'E') &&
      match r.dropWhile (· == '_') with
      | d :: _ => d.isDigit || d == '+' || d == '-'
      | [] => false
  | [] => false

/-- The value of a whole number, and its suffix. -/
def wholeNumber? (cs : List Char) : Option (Nat × List Char) :=
  let (base, digits) := numberBase cs
  let (value, rest) := splitDigits base 0 digits
  if base = 10 ∧ isFraction rest = true then none else some (value, rest)

/-! ## Members

The number of a member is printed with decimal digits, whatever it was written with; it has no
suffix and fits into 32 bits. Two numbers with a point between them look like one number with a
fraction and are taken apart again. -/

/-- The number of a member, whose text and sign are given. -/
def memberNumber (negative : Bool) (text : String) : Reader (List Tree) :=
  match wholeNumber? text.toList with
  | some (value, []) =>
    if negative then fail .invalidDigit
    else if value < 0x100000000 then pure [.literal (toString value) .number]
    else fail .numberTooLarge
  | some (_, _ :: _) => fail (.expected ["unsuffixed integer"])
  | none => fail (.expected ["integer literal"])

/-- A number at the front, with its sign and the number of tokens it takes. -/
def numberAhead? : List Tree → Option (Bool × String × Nat)
  | .literal s .number :: _ => some (false, s, 1)
  | .punct '-' _ :: .literal s .number :: _ => some (true, s, 2)
  | _ => none

/-- A number without a fraction at the front. -/
def wholeAhead? (ts : List Tree) : Option (Bool × String × Nat) :=
  (numberAhead? ts).filter fun (_, s, _) => (wholeNumber? s.toList).isSome

/-- A number with a fraction at the front. -/
def fractionAhead? (ts : List Tree) : Option (Bool × String × Nat) :=
  (numberAhead? ts).filter fun (_, s, _) => (wholeNumber? s.toList).isNone

/-- A member, and whether it is an identifier. -/
def readMember : Reader (Bool × List Tree) := do
  let ts ← ahead
  if identAhead ts then
    let name ← take 1
    pure (true, name)
  else
    match wholeAhead? ts with
    | some (negative, s, width) =>
      let _ ← take width
      let number ← memberNumber negative s
      pure (false, number)
    | none => refuse (.expected ["identifier", "integer"])

/-- A part of a number with a fraction, as the number of a member. -/
def readNumberPart (cs : List Char) : Reader (List Tree) :=
  match readTrees (String.ofList cs) with
  | none => fail .noTokens
  | some ts =>
    match numberAhead? ts with
    | some (negative, s, width) =>
      if width = ts.length then memberNumber negative s else fail (.leftover none)
    | none => fail (.expected ["integer literal"])

/-- The parts of a number with a fraction, with points between them. -/
def readNumberParts : List (List Char) → Reader (List Tree)
  | [] => pure []
  | [cs] => readNumberPart cs
  | cs :: rest => inOrder [readNumberPart cs, pure [.mark '.'], readNumberParts rest]

/-- The members that a number with a fraction at the front stands for, and whether a point at its
end leads to one more; nothing without such a number. -/
def readFractionMembers : Reader (Option (List Tree × Bool)) := do
  match fractionAhead? (← ahead) with
  | none => pure none
  | some (negative, s, width) =>
    let _ ← take width
    let text := (if negative then "-" else "") ++ s
    let parts := Text.splitAt '.' text.toList
    let openEnd := parts.getLast? == some []
    let members ← readNumberParts (if openEnd then parts.dropLast else parts)
    pure (some (if openEnd then members ++ [.mark '.'] else members, openEnd))

end StoreModel.Source
