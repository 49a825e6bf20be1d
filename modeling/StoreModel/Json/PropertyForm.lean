import StoreModel.Json.Scan

/-!
# Properties as JSON

A property is an object with its name, its value and its two marks, written in this order. A value
is an object with one member, named for the kind. When reading, the members may come in any order,
marks that are absent are off, and members with other names are skipped; an array of the parts in
order is read as well.

Main definitions: `Property.toJson` and `Property.ofJson?`.
-/

set_option autoImplicit false

namespace StoreModel

open StoreModel.Json

/-! ## Writing -/

namespace Json

/-- One character of a string. Only the quote, the backslash and control characters need an
escape. -/
def stringChar (c : Char) : List Char :=
  if c = '"' then ['\\', '"']
  else if c = '\\' then ['\\', '\\']
  else if c = '\n' then ['\\', 'n']
  else if c = '\r' then ['\\', 'r']
  else if c = '\t' then ['\\', 't']
  else if c = '\x08' then ['\\', 'b']
  else if c = '\x0c' then ['\\', 'f']
  else if c.toNat < 0x20 then
    ['\\', 'u', '0', '0', Nat.digitChar (c.toNat / 16), Nat.digitChar (c.toNat % 16)]
  else [c]

/-- A string in quotes. -/
def stringText (s : String) : String :=
  String.ofList ('"' :: (s.toList.flatMap stringChar ++ ['"']))

def boolText (b : Bool) : String := if b then "true" else "false"

/-- Bytes as an array of numbers. -/
def bytesText (bs : List UInt8) : String :=
  "[" ++ ",".intercalate (bs.map fun b => intText b.toNat) ++ "]"

end Json

/-- A kind, by the name of its variant. -/
def Kind.toJson (k : Kind) : String := stringText k.variant

/-- The content of a value, without its kind. -/
def Value.contentText : Value → String
  | .bool b => boolText b
  | .int64 n => intText n.toInt
  | .float64 x => floatText x
  | .string s => stringText s
  | .bytes bs => bytesText bs
  | .byteString s => bytesText s.bytes
  | .timestamp t => stringText t.text

/-- A value as an object with one member. -/
def Value.toJson (v : Value) : String :=
  "\x7b" ++ v.kind.toJson ++ ":" ++ v.contentText ++ "\x7d"

/-- A property as an object with four members. -/
def Property.toJson (p : Property) : String :=
  "\x7b\"name\":" ++ stringText p.name ++ ",\"value\":" ++ p.value.toJson ++
    ",\"multiple\":" ++ boolText p.multiple ++ ",\"no_index\":" ++ boolText p.noIndex ++ "\x7d"

/-! ## Reading -/

namespace Json

/-- The fault of text that is not what is expected, from its first character on. A word, a number or
a string is read to its end before it is called wrong. -/
def wrongType (expected : Expected) (cs : List Char) : ReadError :=
  let wrong (f : Found) : ReadError := .data (.wrongType f expected)
  let word (w : List Char) (f : Found) (r : List Char) : ReadError :=
    match expectWord w r with
    | .ok _ => wrong f
    | .error e => e
  match cs with
  | [] => .endOfText
  | c :: r =>
    if c = 'n' then word ['u', 'l', 'l'] .null r
    else if c = 't' then word ['r', 'u', 'e'] (.boolean true) r
    else if c = 'f' then word ['a', 'l', 's', 'e'] (.boolean false) r
    else if c = '"' then
      match readString r with
      | .ok (s, _) => wrong (.string s)
      | .error e => e
    else if c = '[' then wrong .sequence
    else if c = '{' then wrong .map
    else if c = '-' ∨ c.isDigit then
      match readSigned cs with
      | .ok (.whole n, _) => wrong (.integer n)
      | .ok (.floating x, _) => wrong (.floating x)
      | .error e => e
    else .malformed

/-- A string. -/
def readText (expected : Expected) (cs : List Char) : Except ReadError (String × List Char) :=
  match skipSpace cs with
  | '"' :: r => readString r
  | cs => .error (wrongType expected cs)

/-- A truth value. -/
def readBool (cs : List Char) : Except ReadError (Bool × List Char) :=
  match skipSpace cs with
  | 't' :: r => do
    let r ← expectWord ['r', 'u', 'e'] r
    .ok (true, r)
  | 'f' :: r => do
    let r ← expectWord ['a', 'l', 's', 'e'] r
    .ok (false, r)
  | cs => .error (wrongType .boolean cs)

/-- A number. -/
def readAnyNumber (expected : Expected) (cs : List Char) :
    Except ReadError (Number × List Char) :=
  match skipSpace cs with
  | [] => .error .endOfText
  | c :: r =>
    if c = '-' ∨ c.isDigit then readSigned (c :: r) else .error (wrongType expected (c :: r))

/-- A whole number between two bounds. -/
def readWhole (expected : Expected) (lo hi : Int) (cs : List Char) :
    Except ReadError (Int × List Char) := do
  let (n, r) ← readAnyNumber expected cs
  match n with
  | .whole n =>
    if lo ≤ n ∧ n ≤ hi then .ok (n, r) else .error (.data (.outOfRange n expected))
  | .floating x => .error (.data (.wrongType (.floating x) expected))

/-- A floating-point number; whole numbers are taken as such. -/
def readFloat (cs : List Char) : Except ReadError (Binary64 × List Char) := do
  let (n, r) ← readAnyNumber .float64 cs
  match n with
  | .whole n =>
    let f := Binary64.ofFloat (UInt64.ofNat n.natAbs).toFloat
    .ok (if n < 0 then f.negate else f, r)
  | .floating x => .ok (x, r)

/-- Goes to the next element of an array: the text from there on, or nothing if the array ends
here. -/
def nextElement (first : Bool) (cs : List Char) : Except ReadError (Option (List Char)) :=
  match skipSpace cs with
  | [] => .error .endOfText
  | c :: r =>
    if c = ']' then .ok none
    else if first then .ok (some (c :: r))
    else if c = ',' then
      match skipSpace r with
      | [] => .error .endOfText
      | d :: r => if d = ']' then .error .malformed else .ok (some (d :: r))
    else .error .malformed

/-- The end of an array. -/
def endArray (cs : List Char) : Except ReadError (List Char) :=
  match skipSpace cs with
  | [] => .error .endOfText
  | c :: r => if c = ']' then .ok r else .error .malformed

/-- The bytes of an array, up to its closing bracket. The first argument bounds their number. -/
def readByteElements : Nat → Bool → List Char → Except ReadError (List UInt8 × List Char)
  | 0, _, _ => .error .malformed
  | n + 1, first, cs => do
    match ← nextElement first cs with
    | none => .ok ([], cs)
    | some cs =>
      let (b, cs) ← readWhole .byte 0 255 cs
      let (bs, cs) ← readByteElements n false cs
      .ok (UInt8.ofNat b.toNat :: bs, cs)

/-- An array of bytes. -/
def readBytes (cs : List Char) : Except ReadError (List UInt8 × List Char) :=
  match skipSpace cs with
  | '[' :: r => do
    let (bs, r) ← readByteElements (r.length + 1) true r
    let r ← endArray r
    .ok (bs, r)
  | cs => .error (wrongType .sequence cs)

/-- A timestamp in its written form. -/
def readTimestamp (cs : List Char) : Except ReadError (Timestamp × List Char) := do
  let (s, r) ← readText .timestamp cs
  match Timestamp.read s with
  | .ok t => .ok (t, r)
  | .error e => .error (.data (.badTimestamp e))

/-- The content of a value of a kind. -/
def readContent (k : Kind) (cs : List Char) : Except ReadError (Value × List Char) :=
  match k with
  | .bool => (readBool cs).map fun (b, r) => (.bool b, r)
  | .int64 =>
    (readWhole .int64 Int64.minValue.toInt Int64.maxValue.toInt cs).map fun (n, r) =>
      (.int64 (Int64.ofInt n), r)
  | .float64 => (readFloat cs).map fun (x, r) => (.float64 x, r)
  | .string => (readText .string cs).map fun (s, r) => (.string s, r)
  | .bytes => (readBytes cs).map fun (bs, r) => (.bytes bs, r)
  | .byteString => (readBytes cs).map fun (bs, r) => (.byteString ⟨bs⟩, r)
  | .timestamp => (readTimestamp cs).map fun (t, r) => (.timestamp t, r)

/-- The kind that a variant name selects. -/
def kindNamed (s : String) : Except ReadError Kind :=
  match Kind.ofVariant? s with
  | some k => .ok k
  | none => .error (.data (.unknownVariant s))

/-- A value: an object with one member. A name alone lacks its content, and nothing else can stand
for a value. -/
def readValue (cs : List Char) : Except ReadError (Value × List Char) :=
  match skipSpace cs with
  | [] => .error .endOfText
  | '{' :: r => do
    let (name, r) ← readText .variantName r
    let k ← kindNamed name
    let r ← expectColon r
    let (v, r) ← readContent k r
    match skipSpace r with
    | [] => .error .endOfText
    | c :: r => if c = '}' then .ok (v, r) else .error .malformed
  | '"' :: r => do
    let (name, _) ← readString r
    let _ ← kindNamed name
    .error (.data (.wrongType .bareVariant .fullVariant))
  | _ :: _ => .error .malformed

/-- The members of a property that have been read. -/
structure Members where
  name : Option String := none
  value : Option Value := none
  multiple : Option Bool := none
  noIndex : Option Bool := none

/-- A member with a given name has been read. -/
def Members.has (m : Members) (name : String) : Bool :=
  (name == "name" && m.name.isSome) || (name == "value" && m.value.isSome)
    || (name == "multiple" && m.multiple.isSome) || (name == "no_index" && m.noIndex.isSome)

/-- Reads the value of the member with a name into its place. -/
def Members.readValue (m : Members) (name : String) (cs : List Char) :
    Except ReadError (Members × List Char) :=
  if name = "name" then (readText .string cs).map fun (s, r) => ({ m with name := some s }, r)
  else if name = "value" then
    (Json.readValue cs).map fun (v, r) => ({ m with value := some v }, r)
  else if name = "multiple" then
    (readBool cs).map fun (b, r) => ({ m with multiple := some b }, r)
  else if name = "no_index" then (readBool cs).map fun (b, r) => ({ m with noIndex := some b }, r)
  else (skipValue cs).map fun r => (m, r)

/-- Reads the colon and the value of the member with a name. A second member with the name of one of
the four is a fault, even before its colon is looked at. -/
def Members.read (m : Members) (name : String) (cs : List Char) :
    Except ReadError (Members × List Char) :=
  if m.has name then .error (.data (.duplicateField name))
  else do
    let cs ← expectColon cs
    m.readValue name cs

/-- The property of the members, if the two necessary ones are there. -/
def Members.property (m : Members) : Except ReadError Property :=
  match m.name, m.value with
  | none, _ => .error (.data (.missingField "name"))
  | some _, none => .error (.data (.missingField "value"))
  | some name, some value =>
    .ok { name, value, multiple := m.multiple.getD false, noIndex := m.noIndex.getD false }

/-- Goes to the name of the next member of an object, after its opening quote: the text from there
on, or nothing if the object ends here. -/
def nextMember (first : Bool) (cs : List Char) : Except ReadError (Option (List Char)) :=
  match skipSpace cs with
  | [] => .error .endOfText
  | c :: r =>
    if c = '}' then .ok none
    else if first then
      if c = '"' then .ok (some r) else .error .malformed
    else if c = ',' then
      match skipSpace r with
      | [] => .error .endOfText
      | d :: r => if d = '"' then .ok (some r) else .error .malformed
    else .error .malformed

/-- The members of an object, up to its closing brace. The first argument bounds their number. -/
def readMembers : Nat → Bool → Members → List Char → Except ReadError (Members × List Char)
  | 0, _, _, _ => .error .malformed
  | n + 1, first, m, cs => do
    match ← nextMember first cs with
    | none => .ok (m, cs)
    | some cs =>
      let (name, cs) ← readString cs
      let (m, cs) ← m.read name cs
      readMembers n false m cs

/-- An element of an array that holds the parts of a property, or nothing if the array ends. -/
def readElement {α : Type} (first : Bool) (read : List Char → Except ReadError (α × List Char))
    (cs : List Char) : Except ReadError (Option α × List Char) := do
  match ← nextElement first cs with
  | none => .ok (none, cs)
  | some cs =>
    let (a, cs) ← read cs
    .ok (some a, cs)

/-- The parts of a property as an array, after its opening bracket. -/
def readParts (cs : List Char) : Except ReadError (Property × List Char) := do
  let (name, cs) ← readElement true (readText .string) cs
  let some name := name | .error (.data (.tooShort 0))
  let (value, cs) ← readElement false readValue cs
  let some value := value | .error (.data (.tooShort 1))
  let (multiple, cs) ← readElement false readBool cs
  let (noIndex, cs) ← readElement false readBool cs
  let cs ← endArray cs
  .ok ({ name, value, multiple := multiple.getD false, noIndex := noIndex.getD false }, cs)

/-- A property at the front of a text. -/
def readProperty (cs : List Char) : Except ReadError (Property × List Char) :=
  match skipSpace cs with
  | '[' :: r => readParts r
  | '{' :: r => do
    let (m, r) ← readMembers (r.length + 1) true {} r
    let p ← m.property
    .ok (p, (skipSpace r).drop 1)
  | cs => .error (wrongType .property cs)

end Json

/-- The property that a whole text holds. -/
def Property.ofJson? (s : String) : Except ReadError Property := do
  let (p, r) ← readProperty s.toList
  if (skipSpace r).isEmpty then .ok p else .error .malformed

end StoreModel
