/-!
# Layout of text in boxes

Text is laid out from a sequence of words, of breaks, at which a line may end, and of boxes that
hold both. A box fits if it can stand on the rest of the line, together with what follows it up to
the next break. In a box that fits no line ends; in a consistent box that does not fit a line ends
at every break; in another one that does not fit a line ends only where the text up to the next
break does not fit. A line that ends inside a box that does not fit goes on indented by what the box
asks for.

Lines have 89 bytes, but deep inside boxes at least 60 bytes after the indentation.
-/

set_option autoImplicit false

namespace StoreModel.Layout

/-- A place where a line may end. -/
structure Break where
  /-- The number of blanks if the line does not end. -/
  blank : Nat := 0
  /-- A change of the indentation if it does. -/
  offset : Int := 0
  /-- A text that ends the line. -/
  last : String := ""
  /-- The line never ends here. -/
  never : Bool := false
deriving DecidableEq, Repr, Inhabited

/-- A part of a text. -/
inductive Piece where
  | word (s : String)
  | stop (b : Break)
  /-- The beginning of a box: whether it is consistent, and its indentation. -/
  | opening (consistent : Bool) (indent : Int)
  | closing
deriving DecidableEq, Repr, Inhabited

/-! ## Parts -/

def word (s : String) : List Piece := [.word s]

/-- A break without a blank. -/
def zero : List Piece := [.stop {}]

/-- A break with a blank. -/
def space : List Piece := [.stop { blank := 1 }]

/-- A break at which no line ends. -/
def never : List Piece := [.stop { never := true }]

/-- The blanks of a break that fits on no line. -/
def wide : Nat := 65535

/-- A break at which a line always ends. -/
def hard : List Piece := [.stop { blank := wide }]

/-- A consistent box. -/
def cbox (indent : Int) (content : List Piece) : List Piece :=
  .opening true indent :: content ++ [.closing]

/-- An inconsistent box. -/
def ibox (indent : Int) (content : List Piece) : List Piece :=
  .opening false indent :: content ++ [.closing]

/-- The words of a text, without its breaks and boxes. -/
def words : List Piece → List String
  | [] => []
  | .word s :: r => s :: words r
  | _ :: r => words r

/-! ## Layout -/

/-- The number of bytes from here to the next break outside the given number of open boxes. A box
that opens on the way hides its breaks. -/
def extent : Nat → List Piece → Nat
  | _, [] => 0
  | depth, .word s :: r => s.utf8ByteSize + extent depth r
  | depth, .opening _ _ :: r => extent (depth + 1) r
  | depth, .closing :: r => extent (depth - 1) r
  | 0, .stop _ :: _ => 0
  | depth + 1, .stop b :: r => b.blank + extent (depth + 1) r

/-- A box that is open. -/
inductive Frame where
  | fits
  /-- A box that does not fit: whether it is consistent, and the indentation around it. -/
  | broken (consistent : Bool) (outer : Int)
deriving DecidableEq, Repr, Inhabited

/-- The bytes of a line. -/
def margin : Int := 89

/-- The bytes that a line has after its indentation at least. -/
def leastSpace : Int := 60

/-- The line goes on at a break in the given boxes, with so much space left. -/
def stays (b : Break) (frames : List Frame) (room : Int) (rest : List Piece) : Bool :=
  b.never ||
    match frames with
    | .fits :: _ => true
    | .broken true _ :: _ => false
    | .broken false _ :: _ | [] => decide ((b.blank + extent 0 rest : Nat) ≤ room)

/-- Blanks. -/
def blanks (n : Nat) : String := "".pushn ' ' n

/-- The texts of pieces in order. The state is the space left on the line, the indentation, the open
boxes, and the blanks to be written before the next word; blanks at the end of a line are not
written. -/
def chunks : Int → Int → List Frame → Nat → List Piece → List String
  | _, _, _, _, [] => []
  | room, indent, frames, pending, .word s :: r =>
    blanks pending :: s :: chunks (room - s.utf8ByteSize) indent frames 0 r
  | room, indent, frames, pending, .opening consistent n :: r =>
    if (extent 1 r : Int) > room then
      chunks room (indent + n) (.broken consistent indent :: frames) pending r
    else chunks room indent (.fits :: frames) pending r
  | room, _, .broken _ outer :: frames, pending, .closing :: r =>
    chunks room outer frames pending r
  | room, indent, _ :: frames, pending, .closing :: r => chunks room indent frames pending r
  | room, indent, [], pending, .closing :: r => chunks room indent [] pending r
  | room, indent, frames, pending, .stop b :: r =>
    if stays b frames room r then
      chunks (room - b.blank) indent frames (pending + b.blank) r
    else
      let start := indent + b.offset
      (if b.last.isEmpty then "\n" else blanks pending ++ b.last ++ "\n") ::
        chunks (max (margin - start) leastSpace) indent frames start.toNat r

/-- The text of pieces. -/
def render (ps : List Piece) : String := String.join (chunks margin 0 [] 0 ps)

end StoreModel.Layout
