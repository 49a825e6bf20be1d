import StoreModel.Source.Token

/-!
# Types

Types as far as they matter: paths with their arguments, and the parentheses and groups around them.
A path is a sequence of names, each of which may have arguments in angle brackets. Every other form
of type is kept as its tokens, so that it can be printed again; so are the generic arguments that
are no types.

The order of generic arguments is the one they are printed in: lifetimes come first.
-/

set_option autoImplicit false

namespace StoreModel.Source

mutual

/-- A type. -/
inductive Ty where
  /-- A path, which may begin with `::`. -/
  | path (leading : Bool) (segments : List Segment)
  | paren (inner : Ty)
  /-- A type in a group that leaves no trace in the text. -/
  | group (inner : Ty)
  /-- A trait that stands for a type by itself, because of what is written before its path; the
  parentheses that may stand around it are its own. -/
  | bound (parens : Bool) (tokens : List Tree)
  | other (tokens : List Tree)

/-- A name of a path with its arguments, if it has any. -/
inductive Segment where
  | plain (name : String)
  /-- Arguments in angle brackets, with `::` before them or not, and with a comma after the last or
  not. -/
  | generic (name : String) (separated : Bool) (args : List Arg) (comma : Bool)

/-- A generic argument. -/
inductive Arg where
  | type (t : Ty)
  | other (tokens : List Tree)

end

instance : Inhabited Ty := ⟨.other []⟩
instance : Inhabited Segment := ⟨.plain ""⟩

/-- A type is a path, which could also be that of a trait. -/
def Ty.isPath : Ty → Bool
  | path _ _ => true
  | _ => false

/-- The name of a segment. -/
def Segment.name : Segment → String
  | plain n => n
  | generic n _ _ _ => n

/-- The separator of the names of a path. -/
def pathSeparator : List Tree := Tree.operator "::"

mutual

/-- The tokens of a type. -/
def Ty.trees : Ty → List Tree
  | .path leading segments =>
    (if leading then pathSeparator else []) ++ segmentTrees segments
  | .paren t => [.group .paren t.trees]
  | .group t => [.group .invisible t.trees]
  | .bound parens ts => if parens then [.group .paren ts] else ts
  | .other ts => ts

/-- The tokens of names with separators between them. -/
def segmentTrees : List Segment → List Tree
  | [] => []
  | [s] => s.trees
  | s :: t :: r => s.trees ++ pathSeparator ++ segmentTrees (t :: r)

/-- The tokens of a name with its arguments. -/
def Segment.trees : Segment → List Tree
  | .plain name => [.word name]
  | .generic name separated args comma =>
    .word name :: (if separated then pathSeparator else []) ++
      .mark '<' :: argTrees args ++ (if comma then [.mark ','] else []) ++ [.mark '>']

/-- The tokens of arguments with commas between them. -/
def argTrees : List Arg → List Tree
  | [] => []
  | [a] => a.trees
  | a :: b :: r => a.trees ++ .mark ',' :: argTrees (b :: r)

/-- The tokens of an argument. -/
def Arg.trees : Arg → List Tree
  | .type t => t.trees
  | .other ts => ts

end

/-- The tokens of a path: whether `::` begins it, and its names. -/
def pathTrees (leading : Bool) (segments : List Segment) : List Tree :=
  (Ty.path leading segments).trees

/-! ## The text of a type -/

/-- Replaces each occurrence of a text, from left to right; the number given first says how many
characters of the last match are still to be passed over. -/
def replaceFrom (old new : List Char) : Nat → List Char → List Char
  | _, [] => []
  | skip + 1, _ :: r => replaceFrom old new skip r
  | 0, c :: r =>
    if old.isPrefixOf (c :: r) then new ++ replaceFrom old new (old.length - 1) r
    else c :: replaceFrom old new 0 r

/-- Replaces each occurrence of a text, from left to right. -/
def replaceAll (old new cs : List Char) : List Char := replaceFrom old new 0 cs

/-- The changes that tighten the spacing of printed tokens, in order. -/
def tightenings : List (List Char × List Char) :=
  [(" :: ", "::"), (":: ", "::"), (" <", "<"), ("< ", "<"), (" >", ">"), (" ,", ","),
    ("& ", "&")].map fun (old, new) => (old.toList, new.toList)

/-- Printed tokens with fewer spaces, roughly as the type was written. -/
def tighten (cs : List Char) : List Char :=
  tightenings.foldl (fun cs (old, new) => replaceAll old new cs) cs

/-- The text of a type. -/
def Ty.text (t : Ty) : String := String.ofList (tighten (printTrees t.trees))

end StoreModel.Source
