import StoreModel.Module.Basic
import StoreModel.Module.Layout
import StoreModel.Text.Quoted

/-!
# The text of a module

A module as source text, for a compiler and for readers. Imports and constants are one line each.
The code of an implementation has one statement on a line; statements that are too long are broken
inside their calls, and every body is indented by four.
-/

set_option autoImplicit false

namespace StoreModel

open StoreModel.Layout

namespace ModuleText

/-! ## Expressions -/

/-- Arguments, each on a line of its own if they do not fit on one. -/
def arguments : List (List Piece) → List Piece
  | [] => []
  | as => cbox 4 (zero ++ (word "," ++ space).intercalate as
      ++ [.stop { offset := -4, last := "," }])

/-- A call of a function. -/
def call (function : String) (as : List (List Piece)) : List Piece :=
  word function ++ word "(" ++ arguments as ++ word ")"

/-- A call of a method, without what it is called on. -/
def method (name : String) (as : List (List Piece)) : List Piece :=
  word ("." ++ name) ++ cbox 0 (word "(" ++ arguments as ++ word ")")

/-- A field of the record. -/
def selfField (field : String) : List Piece :=
  cbox 4 (word "self" ++ zero ++ word ("." ++ field))

/-- A text as a literal. -/
def literal (s : String) : List Piece := word (Text.quoteLiteral s)

/-! ## Statements -/

/-- A statement that is an expression. -/
def statement (e : List Piece) : List Piece := ibox 0 (e ++ word ";")

/-- An assignment to a field of the record. -/
def assignment (field value : String) : List Piece :=
  statement (ibox 0 (selfField field ++ word " = " ++ never ++ word value))

/-- A body in braces, one item on a line. -/
def body (items : List (List Piece)) : List Piece :=
  cbox 4 (hard ++ hard.intercalate items ++ [.stop { blank := wide, offset := -4 }])
    ++ word "\x7d"

/-- An item that begins with a line and has a body. -/
def braced (line : String) (items : List (List Piece)) : List Piece :=
  word (line ++ " \x7b") ++ body items

/-! ## Loading -/

/-- The statement that empties a sequence. -/
def reset (field : String) : List Piece := assignment field "::std::vec::Vec::new()"

/-- The statement that gives a mismatch as the result. -/
def refusal (m : Mismatch) : List Piece :=
  let function :=
    "::propkit::PropertyError::" ++ (if m.element then "element_mismatch" else "mismatch")
  statement (word "return " ++ call "::std::result::Result::Err"
    [call function [literal m.typeName, literal m.field, literal m.expected]])

/-- The arm for the properties of one name. -/
def arm (a : Arm) : List Piece :=
  let field := a.field.text
  let take :=
    if a.push then
      statement (cbox 4 (word "self" ++ word ("." ++ field) ++ zero ++ method "push" [word "val"]))
    else assignment field "val"
  braced (Text.quoteLiteral a.name ++ " =>") [
    braced ("let ::propkit::Value::" ++ a.kind.variant ++ "(val) = value else") [refusal a.mismatch]
      ++ word ";",
    take]

/-- The function that loads a record. -/
def load (i : Implementation) : List Piece :=
  cbox 4 (word "fn load(" ++ hard ++ word "&mut self," ++ hard
      ++ word "props: ::std::vec::Vec<::propkit::Property>,"
      ++ [.stop { blank := wide, offset := -4 }])
    ++ braced ") -> ::propkit::PropertyResult<()>"
      (i.resets.map (fun f => reset f.text) ++ [
        braced "for prop in props" [
          word "let ::propkit::Property \x7b name, value, .. \x7d = prop;",
          braced "match name.as_str()" (i.arms.map arm ++ [word "_ => \x7b\x7d"])],
        word "::std::result::Result::Ok(())"])

/-! ## Saving -/

/-- The content of a field or an element, cloned unless it is copied by being read. -/
def content (s : Saving) : List Piece :=
  if s.loop then
    if s.kind.isCopy then word "*elem" else cbox 4 (word "elem" ++ zero ++ method "clone" [])
  else if s.kind.isCopy then selfField s.field.text
  else cbox 4 (word "self" ++ zero ++ word ("." ++ s.field.text) ++ zero ++ method "clone" [])

/-- The property of a field or an element, with its marks. -/
def property (s : Saving) : List Piece :=
  let plain := call "::propkit::Property::new"
    [literal s.name, call ("::propkit::Value::" ++ s.kind.variant) [content s]]
  let marks := (if s.loop then zero ++ method "multiple" [] else [])
    ++ (if s.noIndex then zero ++ method "no_index" [] else [])
  if marks.isEmpty then plain else cbox 4 (plain ++ marks)

/-- The statement that saves a field. -/
def saving (s : Saving) : List Piece :=
  let push := statement (cbox 4 (word "props" ++ zero ++ method "push" [property s]))
  if s.loop then
    ibox 0 (word "for elem in " ++ never ++ cbox 0 (word "&" ++ selfField s.field.text ++ space)
      ++ word "\x7b" ++ never ++ body [push])
  else push

/-- The function that saves a record. -/
def save (i : Implementation) : List Piece :=
  braced "fn save(&self) -> ::propkit::PropertyResult<::std::vec::Vec<::propkit::Property>>"
    (word "let mut props = ::std::vec::Vec::new();" :: i.savings.map saving
      ++ [word "::std::result::Result::Ok(props)"])

/-! ## Items -/

/-- An implementation. -/
def implementation (i : Implementation) : List Piece :=
  cbox 4 (ibox (-4) (word "impl ::propkit::PropertyLoadSaver" ++ space
      ++ word ("for " ++ i.typeName.text))
    ++ word " \x7b" ++ hard ++ load i ++ hard ++ save i
    ++ [.stop { blank := wide, offset := -4 }]) ++ word "\x7d"

/-- A constant. -/
def constant (c : Constant) : List Piece :=
  word ("pub const " ++ c.name.text ++ ": &str = " ++ Text.quoteLiteral c.value ++ ";")

/-- The import of the types. -/
def importLine (p : ImportPath) : List Piece :=
  word ("use " ++ (if p.leading then "::" else "") ++ "::".intercalate p.names ++ "::*;")

/-- The lines that begin every module. -/
def header : List String := [
  "//! Auto-generated by propkit-build. Do not edit manually.",
  "//!",
  "//! Regenerate with the \x60genmodel\x60 binary or from a build script.",
  "#![allow(",
  "    dead_code,",
  "    non_upper_case_globals,",
  "    unused_imports,",
  "    unused_mut,",
  "    unused_variables,",
  "    clippy::all",
  ")]"]

/-- The items of a module in order. -/
def items (m : Module) : List (List Piece) :=
  header.map word ++ importLine m.importPath :: m.constants.map constant
    ++ m.implementations.map implementation

end ModuleText

/-- A module as pieces of text: each item ends a line. -/
def Module.pieces (m : Module) : List Piece :=
  (ModuleText.items m).flatMap fun item => item ++ hard

/-- The text of a module. -/
def Module.text (m : Module) : String := render m.pieces

end StoreModel
