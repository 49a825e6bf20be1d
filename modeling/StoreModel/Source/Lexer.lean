import StoreModel.Source.Token
import StoreModel.Text.Chars
import StoreModel.Text.Quoted
import StoreModel.Text.WordChar

/-!
# From text to tokens

Each scanner takes the text and gives what it found at the front and the rest, or nothing. Blanks
and comments separate tokens and vanish; a documentation comment stands for the attribute that holds
its text. A literal is looked for before punctuation, and punctuation before a word, because `b"x"`
and `'a'` begin like a word and like a lifetime.

Main definition: `readTrees`, which scans a whole text and nests its groups. A text that cannot be
scanned to its end, or whose brackets do not match, has no tokens at all.
-/

set_option autoImplicit false

namespace StoreModel.Source

open StoreModel.Text

/-! ## Blanks and comments -/

/-- White space, and the two marks of writing direction. -/
def isGap (c : Char) : Bool := isBlank c || c == '\u200e' || c == '\u200f'

/-- The rest of a line and what follows, its end included. A carriage return that belongs to the
line end is dropped. -/
def splitLine : List Char → List Char × List Char
  | [] => ([], [])
  | '\n' :: r => ([], '\n' :: r)
  | '\r' :: '\n' :: r => ([], '\n' :: r)
  | c :: r =>
    let (line, rest) := splitLine r
    (c :: line, rest)

/-- The text after a block comment, at whose beginning no comment or an outer one is open. Block
comments nest. -/
def skipBlock : Nat → List Char → Option (List Char)
  | _, [] => none
  | depth, '/' :: '*' :: r => skipBlock (depth + 1) r
  | depth, '*' :: '/' :: r => if depth ≤ 1 then some r else skipBlock (depth - 1) r
  | depth, _ :: r => skipBlock depth r

/-- The text after a comment at the front that documents nothing. -/
def skipComment (cs : List Char) : Option (List Char) :=
  match cs with
  | '/' :: '/' :: '!' :: _ => none
  | '/' :: '/' :: '/' :: '/' :: r => some (splitLine r).2
  | '/' :: '/' :: '/' :: _ => none
  | '/' :: '/' :: r => some (splitLine r).2
  | '/' :: '*' :: '*' :: '/' :: r => some r
  | '/' :: '*' :: '!' :: _ => none
  | '/' :: '*' :: '*' :: '*' :: _ => skipBlock 0 cs
  | '/' :: '*' :: '*' :: _ => none
  | '/' :: '*' :: _ => skipBlock 0 cs
  | _ => none

/-- The text without gaps and comments in front. The first argument bounds the number of steps. -/
def skipGaps : Nat → List Char → List Char
  | 0, cs => cs
  | n + 1, cs =>
    match cs.dropWhile isGap with
    | '/' :: r =>
      match skipComment ('/' :: r) with
      | some rest => skipGaps n rest
      | none => '/' :: r
    | r => r

/-- Each carriage return stands before a line feed. -/
def wholeLineEnds : List Char → Bool
  | [] => true
  | '\r' :: '\n' :: r => wholeLineEnds r
  | '\r' :: _ => false
  | _ :: r => wholeLineEnds r

/-- The text between the marks of a block comment. -/
def blockContent (comment : List Char) : List Char :=
  (comment.drop 3).take (comment.length - 5)

/-- A documentation comment: whether it documents what holds it, its text, and the rest. -/
def docComment (cs : List Char) : Option (Bool × List Char × List Char) :=
  let block (inner : Bool) : Option (Bool × List Char × List Char) :=
    (skipBlock 0 cs).map fun rest =>
      (inner, blockContent (cs.take (cs.length - rest.length)), rest)
  match cs with
  | '/' :: '/' :: '!' :: r => some (true, splitLine r)
  | '/' :: '/' :: '/' :: '/' :: _ => none
  | '/' :: '/' :: '/' :: r => some (false, splitLine r)
  | '/' :: '*' :: '!' :: _ => block true
  | '/' :: '*' :: '*' :: '*' :: _ => none
  | '/' :: '*' :: '*' :: _ => block false
  | _ => none

/-- The attribute that a documentation comment stands for. -/
def docAttribute (inner : Bool) (content : List Char) : List Tree :=
  let text := String.ofList content
  let body : Tree := .group .bracket
    [.word "doc", .mark '=', .literal (quoteLiteral text) (.string text)]
  if inner then [.mark '#', .mark '!', body] else [.mark '#', body]

/-! ## Words -/

/-- A word without a mark in front. -/
def scanPlainWord (cs : List Char) : Option (List Char × List Char) :=
  match cs with
  | [] => none
  | c :: r =>
    if isWordStart c then some (c :: r.takeWhile isWordContinue, r.dropWhile isWordContinue)
    else none

/-- The words that cannot be marked as raw. -/
def neverRaw : List (List Char) :=
  ["_", "super", "self", "Self", "crate"].map String.toList

/-- A word, which may be marked as raw by `r#`. -/
def scanAnyWord (cs : List Char) : Option (List Char × List Char) :=
  match cs with
  | 'r' :: '#' :: r =>
    match scanPlainWord r with
    | some (w, rest) => if neverRaw.contains w then none else some ('r' :: '#' :: w, rest)
    | none => none
  | cs => scanPlainWord cs

/-- The beginnings of literals that a word cannot have. -/
def literalStarts : List (List Char) :=
  ["r\"", "r#\"", "r##", "b\"", "b'", "br\"", "br#", "c\"", "cr\"", "cr#"].map String.toList

/-- A word that does not begin like a literal. -/
def scanWord (cs : List Char) : Option (List Char × List Char) :=
  if literalStarts.any fun w => w.isPrefixOf cs then none else scanAnyWord cs

/-- The text after the suffix of a literal. -/
def skipSuffix (cs : List Char) : List Char :=
  match scanPlainWord cs with
  | some (_, rest) => rest
  | none => cs

/-! ## Literals with quotes -/

/-- What a literal in quotes holds, which decides what may stand in it. -/
inductive Flavour where
  | text
  | bytes
  /-- A text without the character NUL. -/
  | terminated
deriving DecidableEq

/-- A character that may stand for itself. -/
def Flavour.allows : Flavour → Char → Bool
  | text, _ => true
  | bytes, c => decide (c.toNat < 0x80)
  | terminated, c => c != '\x00'

/-- The character with a number in braces, after the opening brace: up to six digits, with
underscores after the first. -/
def scanScalar : Nat → Nat → List Char → Option (Char × List Char)
  | _, _, [] => none
  | value, digits, c :: r =>
    if c = '}' then
      if digits ≠ 0 ∧ value.isValidChar then some (Char.ofNat value, r) else none
    else if c = '_' then
      if digits ≠ 0 then scanScalar value digits r else none
    else match hexValue? c with
      | some d => if digits = 6 then none else scanScalar (value * 16 + d) (digits + 1) r
      | none => none

/-- The character that an escape stands for, after the backslash. -/
def scanEscape (f : Flavour) (cs : List Char) : Option (Char × List Char) :=
  match cs with
  | 'n' :: r => some ('\n', r)
  | 'r' :: r => some ('\r', r)
  | 't' :: r => some ('\t', r)
  | '\\' :: r => some ('\\', r)
  | '\'' :: r => some ('\'', r)
  | '"' :: r => some ('"', r)
  | '0' :: r => if f = .terminated then none else some ('\x00', r)
  | 'x' :: a :: b :: r =>
    match hexValue? a, hexValue? b with
    | some a, some b =>
      let n := a * 16 + b
      match f with
      | .text => if n < 0x80 then some (Char.ofNat n, r) else none
      | .bytes => some (Char.ofNat n, r)
      | .terminated => if n ≠ 0 then some (Char.ofNat n, r) else none
    | _, _ => none
  | 'u' :: '{' :: r =>
    match f, scanScalar 0 0 r with
    | .text, some (c, rest) => some (c, rest)
    | .terminated, some (c, rest) => if c = '\x00' then none else some (c, rest)
    | _, _ => none
  | _ => none

/-- The text after a line end and the blanks at the beginning of the next lines. Something has to
follow. -/
def skipLineBlanks : List Char → Option (List Char)
  | [] => none
  | '\r' :: '\n' :: r => skipLineBlanks r
  | '\r' :: _ => none
  | c :: r => if c = ' ' ∨ c = '\t' ∨ c = '\n' then skipLineBlanks r else some (c :: r)

/-- What a literal with escapes stands for, up to its closing quote. Line ends become line feeds; a
backslash at the end of a line joins it to the next. The first argument bounds the number of
characters. -/
def scanQuoted (f : Flavour) : Nat → List Char → Option (List Char × List Char)
  | 0, _ => none
  | _ + 1, [] => none
  | n + 1, c :: r =>
    let followed (c : Char) (r : List Char) : Option (List Char × List Char) :=
      (scanQuoted f n r).map fun (cs, rest) => (c :: cs, rest)
    if c = '"' then some ([], r)
    else if c = '\r' then
      match r with
      | '\n' :: r => followed '\n' r
      | _ => none
    else if c = '\\' then
      match r with
      | '\n' :: _ | '\r' :: _ =>
        match skipLineBlanks r with
        | some r => scanQuoted f n r
        | none => none
      | _ =>
        match scanEscape f r with
        | some (c, r) => followed c r
        | none => none
    else if f.allows c then followed c r
    else none

/-- What a literal without escapes holds, up to its closing quote and hash marks. -/
def scanRaw (f : Flavour) (hashes : Nat) : List Char → Option (List Char × List Char)
  | [] => none
  | '\r' :: '\n' :: r =>
    (scanRaw f hashes r).map fun (cs, rest) => ('\r' :: '\n' :: cs, rest)
  | '\r' :: _ => none
  | c :: r =>
    if c = '"' ∧ r.take hashes = List.replicate hashes '#' then some ([], r.drop hashes)
    else if f.allows c then (scanRaw f hashes r).map fun (cs, rest) => (c :: cs, rest)
    else none

/-- A literal without escapes from its hash marks on; at most 255 of them. -/
def scanHashed (f : Flavour) (cs : List Char) : Option (List Char × List Char) :=
  let hashes := (cs.takeWhile (· == '#')).length
  match cs.drop hashes with
  | '"' :: r => if hashes ≤ 255 then scanRaw f hashes r else none
  | _ => none

/-- A string literal: what it stands for, and the rest after its suffix. -/
def scanString (cs : List Char) : Option (List Char × List Char) :=
  let found := match cs with
    | '"' :: r => scanQuoted .text (r.length + 1) r
    | 'r' :: r => scanHashed .text r
    | _ => none
  found.map fun (content, rest) => (content, skipSuffix rest)

/-- The text after a literal that holds bytes or a terminated text. -/
def skipByteString (cs : List Char) : Option (List Char) :=
  let found := match cs with
    | 'b' :: '"' :: r => scanQuoted .bytes (r.length + 1) r
    | 'b' :: 'r' :: r => scanHashed .bytes r
    | 'c' :: '"' :: r => scanQuoted .terminated (r.length + 1) r
    | 'c' :: 'r' :: r => scanHashed .terminated r
    | _ => none
  found.map fun (_, rest) => skipSuffix rest

/-- The text after one character or escape and the closing quote. -/
def skipSingle (f : Flavour) (cs : List Char) : Option (List Char) :=
  let found := match cs with
    | '\\' :: r => scanEscape f r
    | c :: r => if f.allows c then some (c, r) else none
    | [] => none
  match found with
  | some (_, '\'' :: rest) => some (skipSuffix rest)
  | _ => none

/-- The text after a character or a byte. -/
def skipCharacter (cs : List Char) : Option (List Char) :=
  match cs with
  | 'b' :: '\'' :: r => skipSingle .bytes r
  | '\'' :: r => skipSingle .text r
  | _ => none

/-! ## Numbers -/

/-- A digit, or the underscore that may stand between digits. -/
def isDigitOrGap (c : Char) : Bool := c.isDigit || c == '_'

/-- A word may begin here. -/
def wordAhead (cs : List Char) : Bool := (cs.head?.map isWordStart).getD false

/-- The text after an exponent, whose letter has been read: a sign at most, and digits. -/
def skipExponent : Bool → Bool → List Char → Option (List Char)
  | _, digit, [] => if digit then some [] else none
  | sign, digit, c :: r =>
    if c.isDigit then skipExponent sign true r
    else if c = '_' then skipExponent sign digit r
    else if (c = '+' ∨ c = '-') ∧ digit = false then
      if sign then none else skipExponent true digit r
    else if digit then some (c :: r)
    else none

/-- The text after a number with a point or an exponent. A point that begins a range or a member
access does not belong to the number. -/
def skipFloat (cs : List Char) : Option (List Char) :=
  let whole := cs.dropWhile isDigitOrGap
  let exponent (fallback : Option (List Char)) (rest : List Char) : Option (List Char) :=
    match rest with
    | 'e' :: r | 'E' :: r => (skipExponent false false r).orElse fun _ => fallback
    | _ => fallback
  if digitAhead cs then
    match whole with
    | '.' :: r =>
      if wordAhead r || r.head? == some '.' then none
      else
        let rest := r.dropWhile isDigitOrGap
        exponent (some rest) rest
    | rest => exponent none rest
  else none

/-- The text after digits of a base. A decimal digit that the base lacks is a fault. -/
def skipDigits (base : Nat) : Bool → List Char → Option (List Char)
  | found, [] => if found then some [] else none
  | found, c :: r =>
    if c = '_' then
      if !found && base == 10 then none else skipDigits base found r
    else match hexValue? c with
      | some d =>
        if d < base then skipDigits base true r
        else if c.isDigit || !found then none
        else some (c :: r)
      | none => if found then some (c :: r) else none

/-- The text after a whole number. -/
def skipWhole (cs : List Char) : Option (List Char) :=
  match cs with
  | '0' :: 'x' :: r => skipDigits 16 false r
  | '0' :: 'o' :: r => skipDigits 8 false r
  | '0' :: 'b' :: r => skipDigits 2 false r
  | cs => skipDigits 10 false cs

/-- The text after the suffix of a number, which has to end like a word. -/
def endNumber (rest : List Char) : Option (List Char) :=
  let rest := skipSuffix rest
  if (rest.head?.map isWordContinue).getD false then none else some rest

/-- The text after a number. -/
def skipNumber (cs : List Char) : Option (List Char) :=
  ((skipFloat cs).bind endNumber).orElse fun _ => (skipWhole cs).bind endNumber

/-! ## Single tokens -/

/-- A literal. -/
def scanLiteral (cs : List Char) : Option (Tree × List Char) :=
  let upTo (kind : LiteralKind) (rest : List Char) : Tree × List Char :=
    (.literal (String.ofList (cs.take (cs.length - rest.length))) kind, rest)
  match scanString cs with
  | some (content, rest) => some (upTo (.string (String.ofList content)) rest)
  | none =>
    match (skipByteString cs).orElse fun _ => skipCharacter cs with
    | some rest => some (upTo .other rest)
    | none => (skipNumber cs).map (upTo .number)

/-- The punctuation characters. -/
def punctuation : List Char := "~!@#$%^&*-=+|;:,<.>/?'".toList

/-- A punctuation character stands at the front; the beginning of a comment is none. -/
def punctAhead : List Char → Bool
  | '/' :: '/' :: _ => false
  | '/' :: '*' :: _ => false
  | c :: _ => punctuation.contains c
  | [] => false

/-- A punctuation character. A single quote is one only as the beginning of a lifetime. -/
def scanPunct (cs : List Char) : Option (Tree × List Char) :=
  if punctAhead cs then
    match cs with
    | '\'' :: r =>
      match scanAnyWord r with
      | none => none
      | some (_, '\'' :: _) => none
      | some (_, '#' :: _) =>
        if ['r', '#'].isPrefixOf r then some (.punct '\'' true, r) else none
      | some _ => some (.punct '\'' true, r)
    | c :: r => some (.punct c (punctAhead r), r)
    | [] => none
  else none

/-- A parenthesised comment that marks a fault of an earlier tool; it counts as one literal. -/
def faultMark : List Char := "(/*ERROR*/)".toList

/-- A token other than a bracket. -/
def scanLeaf (cs : List Char) : Option (Tree × List Char) :=
  match scanLiteral cs with
  | some found => some found
  | none =>
    match scanPunct cs with
    | some found => some found
    | none =>
      match scanWord cs with
      | some (w, rest) => some (.word (String.ofList w), rest)
      | none =>
        if faultMark.isPrefixOf cs then
          some (.literal (String.ofList faultMark) .other, cs.drop faultMark.length)
        else none

/-! ## Whole texts -/

/-- A token before groups are nested. -/
inductive Lexeme where
  | leaf (t : Tree)
  | opening (d : Delimiter)
  | closing (d : Delimiter)
deriving Repr, Inhabited

/-- The bracket that a character is. -/
def bracket? (cs : List Char) : Option (Lexeme × List Char) :=
  match cs with
  | '(' :: r => if faultMark.isPrefixOf cs then none else some (.opening .paren, r)
  | '[' :: r => some (.opening .bracket, r)
  | '{' :: r => some (.opening .brace, r)
  | ')' :: r => some (.closing .paren, r)
  | ']' :: r => some (.closing .bracket, r)
  | '}' :: r => some (.closing .brace, r)
  | _ => none

/-- The next tokens of a text that begins with no gap: one, or those of a documentation comment. -/
def scanLexemes (cs : List Char) : Option (List Lexeme × List Char) :=
  match bracket? cs with
  | some (l, rest) => some ([l], rest)
  | none =>
    match docComment cs with
    | some (inner, content, rest) =>
      if wholeLineEnds content then some ((docAttribute inner content).map .leaf, rest) else none
    | none => (scanLeaf cs).map fun (t, rest) => ([.leaf t], rest)

/-- The tokens of a text. The first argument bounds their number. -/
def lexemes : Nat → List Char → Option (List Lexeme)
  | 0, _ => none
  | n + 1, cs =>
    match skipGaps (cs.length + 1) cs with
    | [] => some []
    | c :: r =>
      match scanLexemes (c :: r) with
      | none => none
      | some (ls, rest) => (lexemes n rest).map (ls ++ ·)

/-- Nests groups. The second argument holds the trees of the innermost open group, the third the
groups around it, all in reverse. -/
def nest : List Lexeme → List Tree → List (Delimiter × List Tree) → Option (List Tree)
  | [], ts, [] => some ts.reverse
  | [], _, _ :: _ => none
  | .leaf t :: ls, ts, outer => nest ls (t :: ts) outer
  | .opening d :: ls, ts, outer => nest ls [] ((d, ts) :: outer)
  | .closing _ :: _, _, [] => none
  | .closing d :: ls, ts, (d', us) :: outer =>
    if d = d' then nest ls (.group d ts.reverse :: us) outer else none

/-- The text without a byte order mark in front. -/
def dropByteOrderMark : List Char → List Char
  | [] => []
  | c :: r => if c = '\uFEFF' then r else c :: r

/-- The token trees of a text. -/
def readTrees (s : String) : Option (List Tree) :=
  let cs := dropByteOrderMark s.toList
  match lexemes (cs.length + 1) cs with
  | none => none
  | some ls => nest ls [] []

end StoreModel.Source
