import StoreModel.Source.Token

/-!
# Why source text is refused

A reader of tokens gives the cause of a fault and whether the tokens had come to an end there. Most
causes name what was expected; the others are rules that tokens break although each of them could
stand where it stands.

A fault at the end of the tokens says so before its cause.
-/

set_option autoImplicit false

namespace StoreModel.Source

/-- A text in the quotes that faults use for tokens. -/
def token (s : String) : String := "\x60" ++ s ++ "\x60"

/-- The name of a group in given brackets. -/
def Delimiter.name : Delimiter → String
  | paren => "parentheses"
  | bracket => "square brackets"
  | brace => "curly braces"
  | invisible => "group"

/-- What cannot follow a conversion without parentheses around it. -/
inductive AfterCast where
  | await
  | methodCall
  | fieldAccess
  | questionMark
  | index
  | call
deriving DecidableEq, Repr, Inhabited

/-- The text of what cannot follow a conversion. -/
def AfterCast.text : AfterCast → String
  | await => token ".await"
  | methodCall => "a method call"
  | fieldAccess => "a field access"
  | questionMark => token "?"
  | index => "indexing"
  | call => "a function call"

/-- What is wrong with a text. -/
inductive Cause where
  /-- The text has no tokens. -/
  | noTokens
  /-- One of some things was expected; with none, nothing at all can stand there. -/
  | expected (things : List String)
  /-- A keyword stands where an identifier was expected. -/
  | keyword (word : String)
  /-- Tokens are left over, in brackets or outside of all. -/
  | leftover (within : Option Delimiter)
  /-- A statement is not ended by a semicolon before the next one. -/
  | unendedStatement
  /-- An attribute stands where the value of one was expected. -/
  | attributeInAttribute
  /-- Attributes stand before a range without a beginning. -/
  | attributesBeforeRange
  | chainedComparison
  | afterCast (what : AfterCast)
  /-- A labelled loop or block after `break` without parentheses. -/
  | labelAfterBreak
  /-- The number of a member is not written with digits alone. -/
  | invalidDigit
  /-- The number of a member does not fit into 32 bits. -/
  | numberTooLarge
  | captureNotAllowed
  | constNotAllowed
  /-- The word `const` in brackets where no condition may be asked for. -/
  | conditionNotAllowed
  | binderBeforeModifier
  | objectWithoutTrait
  | implWithoutTrait
  | parametersOfWhere
  | openRangeInSlice
  | secondReceiver
  | misplacedReceiver
  | negativeInherent
deriving DecidableEq, Repr, Inhabited

/-- The text of a cause. -/
def Cause.text : Cause → String
  | noTokens => "cannot parse string into token stream"
  | expected [] => "unexpected token"
  | expected [a] => "expected " ++ a
  | expected [a, b] => "expected " ++ a ++ " or " ++ b
  | expected things => "expected one of: " ++ ", ".intercalate things
  | keyword w => "expected identifier, found keyword " ++ token w
  | leftover (some .paren) => "unexpected token, expected " ++ token ")"
  | leftover (some .bracket) => "unexpected token, expected " ++ token "]"
  | leftover (some .brace) => "unexpected token, expected " ++ token "\x7d"
  | leftover _ => "unexpected token"
  | unendedStatement => "unexpected token, expected " ++ token ";"
  | attributeInAttribute => "unexpected attribute inside of attribute"
  | attributesBeforeRange =>
    "attributes are not allowed on range expressions starting with " ++ token ".."
  | chainedComparison => "comparison operators cannot be chained"
  | afterCast what => "casts cannot be followed by " ++ what.text
  | labelAfterBreak => "parentheses required"
  | invalidDigit => "invalid digit found in string"
  | numberTooLarge => "number too large to fit in target type"
  | captureNotAllowed => token "use<...>" ++ " precise capturing syntax is not allowed here"
  | constNotAllowed => token "const" ++ " is not allowed here"
  | conditionNotAllowed => token "[const]" ++ " is not allowed here"
  | binderBeforeModifier =>
    token "for<...>" ++ " binder not allowed with " ++ token "?" ++ " trait polarity modifier"
  | objectWithoutTrait => "at least one trait is required for an object type"
  | implWithoutTrait => "at least one trait must be specified"
  | parametersOfWhere =>
    "generic parameters on " ++ token "where" ++ " clauses are reserved for future use"
  | openRangeInSlice => "range pattern is not allowed unparenthesized inside slice pattern"
  | secondReceiver => "unexpected second method receiver"
  | misplacedReceiver => "unexpected method receiver"
  | negativeInherent => "inherent impls cannot be negative"

/-- Why a text is not what it should be. -/
structure Fault where
  /-- The tokens had come to an end. -/
  atEnd : Bool
  cause : Cause
deriving DecidableEq, Repr, Inhabited

/-- The text of a fault. -/
def Fault.message (f : Fault) : String :=
  match f.atEnd, f.cause with
  | false, c => c.text
  | true, .expected [] => "unexpected end of input"
  | true, c => "unexpected end of input, " ++ c.text

end StoreModel.Source
