/-!
# Tokens of source text

Source text is a sequence of token trees: words, single punctuation characters, literals, and groups
in brackets. An operator of several characters is a sequence of punctuation characters each of which
but the last is joined to the next one.

`printTrees` gives tokens as text again, with one space between neighbours that are not joined.
-/

set_option autoImplicit false

namespace StoreModel.Source

/-- The brackets of a group. -/
inductive Delimiter where
  | paren
  | bracket
  | brace
  /-- A group that leaves no trace in the text. -/
  | invisible
deriving DecidableEq, Repr, Inhabited

/-- What matters of a literal beyond its text. -/
inductive LiteralKind where
  /-- A string literal, with the text that it stands for. -/
  | string (content : String)
  | number
  /-- A character, a byte, or a string of bytes. -/
  | other
deriving DecidableEq, Repr, Inhabited

/-- A token tree. -/
inductive Tree where
  | word (text : String)
  | punct (char : Char) (joint : Bool)
  | literal (text : String) (kind : LiteralKind)
  | group (delimiter : Delimiter) (content : List Tree)
deriving Repr, Inhabited

namespace Tree

/-- A punctuation character that is not joined to the next one. -/
def mark (c : Char) : Tree := punct c false

/-- Punctuation characters, each joined to the next one. -/
def joined : List Char → List Tree
  | [] => []
  | [c] => [punct c false]
  | c :: d :: r => punct c true :: joined (d :: r)

/-- An operator, as the sequence of its characters. -/
def operator (s : String) : List Tree := joined s.toList

mutual

/-- The number of tokens of a tree. -/
def size : Tree → Nat
  | word _ | punct _ _ | literal _ _ => 1
  | group _ ts => 2 + sizeAll ts

/-- The number of tokens of trees. -/
def sizeAll : List Tree → Nat
  | [] => 0
  | t :: ts => t.size + sizeAll ts

end

end Tree

/-! ## Printing -/

/-- The text before the content of a group. -/
def Delimiter.opening : Delimiter → List Char
  | paren => ['(']
  | bracket => ['[']
  | brace => ['{', ' ']
  | invisible => []

/-- The text after the content of a group. -/
def Delimiter.closing (d : Delimiter) (isEmpty : Bool) : List Char :=
  match d with
  | paren => [')']
  | bracket => [']']
  | brace => if isEmpty then ['}'] else [' ', '}']
  | invisible => []

mutual

/-- The text of a tree. -/
def printTree : Tree → List Char
  | .word s => s.toList
  | .punct c _ => [c]
  | .literal s _ => s.toList
  | .group d ts => d.opening ++ printTrees ts ++ d.closing ts.isEmpty

/-- The text of trees: a space between two neighbours unless the first is joined to the second. -/
def printTrees : List Tree → List Char
  | [] => []
  | [t] => printTree t
  | .punct c true :: t :: ts => c :: printTrees (t :: ts)
  | t :: u :: ts => printTree t ++ ' ' :: printTrees (u :: ts)

end

end StoreModel.Source
