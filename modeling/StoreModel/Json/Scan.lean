import StoreModel.Json.Error

/-!
# Scanning JSON text

The parts of JSON that do not depend on what is expected: blanks, words, strings and numbers, and
values that are skipped because nobody asked for them. Every reader takes the text and gives what it
read and the rest.

A string that is read has to be text: an escaped half of a surrogate pair needs its other half. A
string that is skipped only has to end, and a number that is skipped may be too large for any type.
-/

set_option autoImplicit false

namespace StoreModel.Json

open StoreModel.Text

/-- The four blank characters of JSON. -/
def isSpace (c : Char) : Bool := c == ' ' || c == '\n' || c == '\t' || c == '\r'

/-- Without the blanks in front. -/
def skipSpace (cs : List Char) : List Char := cs.dropWhile isSpace

/-- The given characters. -/
def expectWord : List Char → List Char → Except ReadError (List Char)
  | [], cs => .ok cs
  | _ :: _, [] => .error .endOfText
  | w :: ws, c :: cs => if c = w then expectWord ws cs else .error .malformed

/-- A colon, with blanks in front. -/
def expectColon (cs : List Char) : Except ReadError (List Char) :=
  match skipSpace cs with
  | [] => .error .endOfText
  | c :: r => if c = ':' then .ok r else .error .malformed

/-! ## Strings -/

/-- Four hexadecimal digits, and the rest. The text ends too early if fewer than four bytes are
left. -/
def readUnit (cs : List Char) : Except ReadError (Nat × List Char) :=
  match cs with
  | a :: b :: c :: d :: r =>
    match hexValue? a, hexValue? b, hexValue? c, hexValue? d with
    | some a, some b, some c, some d => .ok (((a * 16 + b) * 16 + c) * 16 + d, r)
    | _, _, _, _ => .error .malformed
  | cs => if (String.ofList cs).utf8ByteSize < 4 then .error .endOfText else .error .malformed

/-- The character that a letter after a backslash stands for. -/
def simpleEscape? : Char → Option Char
  | '"' => some '"'
  | '\\' => some '\\'
  | '/' => some '/'
  | 'b' => some '\x08'
  | 'f' => some '\x0c'
  | 'n' => some '\n'
  | 'r' => some '\r'
  | 't' => some '\t'
  | _ => none

/-- A character by its number, after the `u`: one unit, or the two halves of a pair. -/
def readNumbered (cs : List Char) : Except ReadError (Char × List Char) := do
  let (high, cs) ← readUnit cs
  if 0xDC00 ≤ high ∧ high ≤ 0xDFFF then .error .malformed
  else if high < 0xD800 ∨ 0xDBFF < high then .ok (Char.ofNat high, cs)
  else
    let cs ← expectWord ['\\', 'u'] cs
    let (low, cs) ← readUnit cs
    if low < 0xDC00 ∨ 0xDFFF < low then .error .malformed
    else .ok (Char.ofNat ((high - 0xD800) * 0x400 + (low - 0xDC00) + 0x10000), cs)

/-- The characters of a string up to its closing quote, after the opening one. The first argument
bounds the number of characters. -/
def readStringChars : Nat → List Char → Except ReadError (List Char × List Char)
  | 0, _ => .error .endOfText
  | _ + 1, [] => .error .endOfText
  | n + 1, c :: cs =>
    if c = '"' then .ok ([], cs)
    else if c = '\\' then
      match cs with
      | [] => .error .endOfText
      | e :: cs => do
        let (ch, cs) ← if e = 'u' then readNumbered cs
          else match simpleEscape? e with
            | some ch => Except.ok (ch, cs)
            | none => Except.error ReadError.malformed
        let (chs, rest) ← readStringChars n cs
        .ok (ch :: chs, rest)
    else if c.toNat < 0x20 then .error .malformed
    else do
      let (chs, rest) ← readStringChars n cs
      .ok (c :: chs, rest)

/-- A string after its opening quote. -/
def readString (cs : List Char) : Except ReadError (String × List Char) := do
  let (chs, rest) ← readStringChars (cs.length + 1) cs
  .ok (String.ofList chs, rest)

/-- The rest after a string that is skipped, after its opening quote. -/
def skipStringChars : Nat → List Char → Except ReadError (List Char)
  | 0, _ => .error .endOfText
  | _ + 1, [] => .error .endOfText
  | n + 1, c :: cs =>
    if c = '"' then .ok cs
    else if c = '\\' then
      match cs with
      | [] => .error .endOfText
      | e :: cs =>
        if e = 'u' then do
          let (_, cs) ← readUnit cs
          skipStringChars n cs
        else if (simpleEscape? e).isSome then skipStringChars n cs
        else .error .malformed
    else if c.toNat < 0x20 then .error .malformed
    else skipStringChars n cs

/-- The rest after a string that is skipped, after its opening quote. -/
def skipString (cs : List Char) : Except ReadError (List Char) :=
  skipStringChars (cs.length + 1) cs

/-! ## Numbers -/

/-- A number, with its sign. -/
def readSigned (cs : List Char) : Except ReadError (Number × List Char) :=
  let r := match cs with
    | '-' :: cs => readNumber false cs
    | cs => readNumber true cs
  match r with
  | .ok x => .ok x
  | .error .endOfText => .error .endOfText
  | .error .malformed => .error .malformed

/-- At least one digit, skipped. -/
def skipDigits (cs : List Char) : Except ReadError (List Char) :=
  if digitAhead cs then .ok (cs.dropWhile Char.isDigit)
  else .error .malformed

/-- The rest after a number that is skipped, after its sign. One that stops too early is malformed
here, even at the end of the text. -/
def skipNumber (cs : List Char) : Except ReadError (List Char) := do
  let cs ← match cs with
    | '0' :: r =>
      if digitAhead r then .error .malformed else .ok r
    | cs => skipDigits cs
  let cs ← match cs with
    | '.' :: r => skipDigits r
    | cs => .ok cs
  match cs with
  | 'e' :: r | 'E' :: r =>
    match r with
    | '+' :: r | '-' :: r => skipDigits r
    | r => skipDigits r
  | cs => .ok cs

/-! ## Skipped values -/

/-- An array or an object that is open. -/
inductive Frame where
  | array
  | object
deriving DecidableEq

/-- Where a skipping reader stands: before a value, or inside the innermost open frame, at its
beginning or after one of its values. -/
inductive Place where
  | value
  | inside (fresh : Bool)
deriving DecidableEq

/-- The character that closes a frame. -/
def Frame.close : Frame → Char
  | .array => ']'
  | .object => '}'

/-- Goes to the next value of a frame: over its name and the colon, if the frame is an object. -/
def toValue (f : Frame) (cs : List Char) : Except ReadError (List Char) :=
  match f with
  | .array => .ok cs
  | .object =>
    match skipSpace cs with
    | [] => .error .endOfText
    | '"' :: r => do
      let r ← skipString r
      expectColon r
    | _ :: _ => .error .malformed

/-- The rest after a value of any form, however deeply it is nested. The first argument bounds the
number of steps. -/
def skipFrom : Nat → Place → List Frame → List Char → Except ReadError (List Char)
  | 0, _, _, _ => .error .malformed
  | n + 1, .value, open_, cs =>
    match skipSpace cs with
    | [] => .error .endOfText
    | '[' :: r => skipFrom n (.inside true) (.array :: open_) r
    | '{' :: r => skipFrom n (.inside true) (.object :: open_) r
    | c :: r => do
      let r ←
        if c = 'n' then expectWord ['u', 'l', 'l'] r
        else if c = 't' then expectWord ['r', 'u', 'e'] r
        else if c = 'f' then expectWord ['a', 'l', 's', 'e'] r
        else if c = '"' then skipString r
        else if c = '-' then skipNumber r
        else if c.isDigit then skipNumber (c :: r)
        else .error .malformed
      skipFrom n (.inside false) open_ r
  | _ + 1, .inside _, [], cs => .ok cs
  | n + 1, .inside fresh, f :: open_, cs =>
    match skipSpace cs with
    | [] => .error .endOfText
    | c :: r =>
      if c = f.close then skipFrom n (.inside false) open_ r
      else if fresh then do
        let r ← toValue f (c :: r)
        skipFrom n .value (f :: open_) r
      else if c = ',' then do
        let r ← toValue f r
        skipFrom n .value (f :: open_) r
      else .error .malformed

/-- The rest after a value of any form. -/
def skipValue (cs : List Char) : Except ReadError (List Char) :=
  skipFrom (2 * cs.length + 2) .value [] cs

end StoreModel.Json
