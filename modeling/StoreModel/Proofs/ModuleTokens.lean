import Mathlib.Data.List.Forall2
import StoreModel.Module.Text
import StoreModel.Proofs.Lexing
import StoreModel.Proofs.Printing

/-!
# The tokens of a module

The layout of a module decides where its lines end, and where a line ends inside of arguments it
adds a comma. So the text of a part of a module is not known before its surroundings are; its tokens
are. This file gives the pieces of every part (`constantAtoms`, `implementationAtoms`), which stand
in the text of the part in every layout (`Holds.filled`).

`Holds` says that a part of a layout puts pieces on the page. It looks at the words of the part
only, and at the few blanks that keep words apart. Fixed words are cut into pieces by `atomsOf`, so
that what is written here can be compared with what is printed.
-/

set_option autoImplicit false

namespace StoreModel

open StoreModel.Layout StoreModel.Source StoreModel.Text

/-! ## Pieces of fixed texts -/

/-- The characters of a piece. -/
def Source.Atom.chars : Atom → List Char
  | .gap => [' ']
  | .word s => s.toList
  | .sign c => [c]
  | .literal s => '"' :: (escapeLiteral s.toList ++ ['"'])

/-- The text that pieces make without any layout. -/
def spelled (as : List Atom) : List Char := as.flatMap Atom.chars

theorem spelled_cons (a : Atom) (as : List Atom) : spelled (a :: as) = a.chars ++ spelled as := rfl

theorem spelled_append (as bs : List Atom) : spelled (as ++ bs) = spelled as ++ spelled bs :=
  List.flatMap_append

/-- The pieces behind a word that has been read in reverse. -/
def afterWord (w : List Char) (as : List Atom) : List Atom :=
  if w.isEmpty then as else .word (String.ofList w.reverse) :: as

/-- The words and signs of a text, of whose first word a beginning has been read in reverse. -/
def splitAtoms (w : List Char) : List Char → List Atom
  | [] => afterWord w []
  | c :: r =>
    if c.isAlphanum || c == '_' then splitAtoms (c :: w) r
    else afterWord w ((if c = ' ' then .gap else .sign c) :: splitAtoms [] r)

/-- The words and signs of a fixed text. A blank in it is a place where a gap has to stand, so it is
kept as a piece. -/
def atomsOf (s : String) : List Atom := splitAtoms [] s.toList

/-- A literal is evaluated on its characters: decoding it would be most of the work. -/
theorem atomsOf_eq {s : String} {cs : List Char} (hs : s = String.ofList cs) :
    atomsOf s = splitAtoms [] cs := by
  rw [atomsOf, hs, String.toList_ofList]

theorem spelled_afterWord (w : List Char) (as : List Atom) :
    spelled (afterWord w as) = w.reverse ++ spelled as := by
  unfold afterWord
  cases w with
  | nil => rfl
  | cons c w =>
    rw [List.isEmpty_cons, if_neg (by simp), spelled, List.flatMap_cons, Atom.chars,
      String.toList_ofList]
    rfl

/-- Cutting a text into pieces loses no character. The word that is being read is a part of the
statement, since the induction passes through the middle of words. -/
theorem spelled_splitAtoms (w cs : List Char) : spelled (splitAtoms w cs) = w.reverse ++ cs := by
  induction cs generalizing w with
  | nil => exact spelled_afterWord w []
  | cons c r ih =>
    rw [splitAtoms]
    split
    · rw [ih, List.reverse_cons, List.append_assoc]
      rfl
    · have hsign : spelled ((if c = ' ' then Atom.gap else .sign c) :: splitAtoms [] r) =
          c :: r := by
        rw [spelled, List.flatMap_cons, ← spelled, ih]
        by_cases hblank : c = ' '
        · rw [if_pos hblank, hblank]
          rfl
        · rw [if_neg hblank]
          rfl
      rw [spelled_afterWord, hsign]

/-- A fixed text is spelled by its pieces, so a word of the layout may be compared with the pieces
that are written for it here. -/
theorem spelled_atomsOf (s : String) : spelled (atomsOf s) = s.toList := spelled_splitAtoms [] _

/-- Evaluates whether pieces can be told from each other. -/
def soundCheck : List Atom → Bool
  | [] => true
  | .gap :: r => soundCheck r
  | .word s :: r =>
    scanAnyWord s.toList == some (s.toList, []) && startsApart r && soundCheck r
  | .sign c :: r => signs.contains c && soundCheck r
  | .literal _ :: r => startsApart r && soundCheck r

/-- Pieces that pass the check are sound. For fixed texts the check is evaluated, and its part on
words runs the scanner itself. -/
theorem sound_of_check {as : List Atom} (h : soundCheck as = true) : Sound as := by
  induction as with
  | nil => trivial
  | cons a as ih =>
    cases a with
    | gap => exact ih h
    | word s =>
      rw [soundCheck, Bool.and_eq_true, Bool.and_eq_true, beq_iff_eq] at h
      exact ⟨scanAnyWord_ok h.1.1, h.1.2, ih h.2⟩
    | sign c =>
      rw [soundCheck, Bool.and_eq_true] at h
      exact ⟨List.contains_iff_mem.mp h.1, ih h.2⟩
    | literal s =>
      rw [soundCheck, Bool.and_eq_true] at h
      exact ⟨h.1, ih h.2⟩

/-! ## Pieces in a layout -/

/-- A part of a layout puts pieces on the page. -/
inductive Holds : List Piece → List Atom → Prop where
  | nil : Holds [] []
  | word {s : String} {x as : List Atom} {r : List Piece} : s.toList = spelled x → Holds r as →
      Holds (.word s :: r) (x ++ as)
  | stop {b : Break} {as : List Atom} {r : List Piece} : b.last = "" ∨ b.last = "," → Holds r as →
      Holds (.stop b :: r) as
  /-- A break with a blank keeps the next word apart. -/
  | apart {b : Break} {s : String} {x as : List Atom} {r : List Piece} : 0 < b.blank →
      b.last = "" → s.toList = spelled x → Holds r as →
      Holds (.stop b :: .word s :: r) (.gap :: (x ++ as))
  | opening {c : Bool} {n : Int} {as : List Atom} {r : List Piece} : Holds r as →
      Holds (.opening c n :: r) as
  | closing {as : List Atom} {r : List Piece} : Holds r as → Holds (.closing :: r) as

variable {p q : List Piece} {as bs : List Atom} {cs : List Char}

/-- Parts of a layout one after the other put their pieces on the page one after the other. A break
at the front of the second part cannot take a word from it, since breaks with words are one step. -/
theorem Holds.append (hp : Holds p as) (hq : Holds q bs) : Holds (p ++ q) (as ++ bs) := by
  induction hp with
  | nil => exact hq
  | word hs _ ih =>
    rw [List.append_assoc]
    exact .word hs ih
  | stop hb _ ih => exact .stop hb ih
  | apart hblank hlast hs _ ih =>
    rw [List.cons_append, List.cons_append, List.cons_append, List.append_assoc]
    exact .apart hblank hlast hs ih
  | opening _ ih => exact .opening ih
  | closing _ ih => exact .closing ih

theorem Holds.of_eq (h : Holds p as) (he : as = bs) : Holds p bs := he ▸ h

/-- Pieces may stand in front of a filled text just as they are spelled; a gap is then one blank. -/
theorem Source.Filled.spelled (h : Filled as cs) (x : List Atom) :
    Filled (x ++ as) (spelled x ++ cs) := by
  induction x with
  | nil => exact h
  | cons a x ih =>
    rw [StoreModel.spelled, List.flatMap_cons, List.append_assoc]
    cases a with
    | gap => exact .gap (Or.inl rfl) ih
    | word s => exact .word s ih
    | sign c => exact .sign c ih
    | literal s =>
      rw [Atom.chars, List.cons_append, List.cons_append, List.append_assoc]
      exact .literal s ih

theorem toList_blanks (n : Nat) : (blanks n).toList = List.replicate n ' ' := by
  induction n with
  | zero => rfl
  | succ n ih =>
    show ((Layout.blanks n).push ' ').toList = _
    rw [String.toList_push, ih, ← List.replicate_succ']

/-- Blanks in front of a filled text fill it too. They come from the indentation, or from a break
that does not end its line. -/
theorem Source.Filled.blanks (h : Filled as cs) (n : Nat) :
    Filled as ((blanks n).toList ++ cs) := by
  rw [toList_blanks]
  induction n with
  | zero => exact h
  | succ n ih => exact .filler (by simp [fillers]) ih

/-- The end of a line holds nothing but fillers: the blanks that were left over, the comma behind a
last argument, and the line end. -/
theorem Source.Filled.lineEnd (h : Filled as cs) {b : Break} (hb : b.last = "" ∨ b.last = ",")
    (pending : Nat) :
    Filled as ((if b.last.isEmpty then "\n" else Layout.blanks pending ++ b.last ++ "\n").toList
      ++ cs) := by
  have hline : Filled as ('\n' :: cs) := .filler (by simp [fillers]) h
  rcases hb with hlast | hlast
  · rw [hlast, if_pos (by decide)]
    exact hline
  · rw [hlast, if_neg (by decide), String.toList_append, String.toList_append, List.append_assoc,
      List.append_assoc]
    have hcomma : ',' ∈ fillers := by simp [fillers]
    exact Filled.blanks (.filler hcomma hline) _

/-- **Whatever the layout, the text holds the pieces.** The induction is on how a part puts its
pieces on the page, for all states of the layout at once, since a break changes the state for
everything behind it. At a break the line either goes on or ends, and both leave fillers; where a
word has to keep apart, both leave a gap. -/
theorem Holds.filled (h : Holds p as) (room indent : Int) (frames : List Frame) (pending : Nat) :
    Filled as (String.join (chunks room indent frames pending p)).toList := by
  induction h generalizing room indent frames pending with
  | nil => exact .nil
  | @word s x as r hs _ ih =>
    rw [chunks, String.join_cons, String.join_cons, String.toList_append, String.toList_append, hs]
    exact ((ih _ _ _ _).spelled x).blanks _
  | @stop b as r hb _ ih =>
    rw [chunks]
    split
    · exact ih _ _ _ _
    · dsimp only
      rw [String.join_cons, String.toList_append]
      exact (ih _ _ _ _).lineEnd hb _
  | @apart b s x as r hblank hlast hs _ ih =>
    -- the word behind the break, wherever its line begins
    have hword : ∀ room pending, Filled (x ++ as)
        (String.join (chunks room indent frames pending (.word s :: r))).toList := by
      intro room pending
      rw [chunks, String.join_cons, String.join_cons, String.toList_append, String.toList_append,
        hs]
      exact ((ih _ _ _ _).spelled x).blanks _
    rw [chunks]
    split
    · obtain ⟨k, hk⟩ : ∃ k, pending + b.blank = k + 1 := ⟨pending + b.blank - 1, by omega⟩
      rw [hk, chunks, String.join_cons, String.join_cons, String.toList_append,
        String.toList_append, hs, toList_blanks, List.replicate_succ, List.cons_append,
        ← toList_blanks]
      exact .gap (Or.inl rfl) (((ih _ _ _ _).spelled x).blanks k)
    · dsimp only
      rw [String.join_cons, String.toList_append, hlast, if_pos (by decide)]
      exact .gap (Or.inr rfl) (hword _ _)
  | @opening c n as r _ ih =>
    rw [chunks]
    split
    · exact ih _ _ _ _
    · exact ih _ _ _ _
  | @closing as r _ ih =>
    -- a box that fits is closed without a trace, one that does not restores the indentation
    cases frames with
    | nil =>
      rw [chunks]
      exact ih _ _ _ _
    | cons f frames =>
      cases f with
      | fits =>
        rw [chunks]
        · exact ih _ _ _ _
        · exact fun _ _ he => by cases he
      | broken c outer =>
        rw [chunks]
        exact ih _ _ _ _

/-! ## Parts of a layout -/

section Parts

variable {x y : List Atom}

/-- A word of the layout puts those pieces on the page that spell it. -/
theorem holds_spelled {s : String} (h : s.toList = spelled x) : Holds (word s) x := by
  have hword : Holds (word s) (x ++ []) := .word h .nil
  rwa [List.append_nil] at hword

theorem holds_fixed (s : String) : Holds (word s) (atomsOf s) :=
  holds_spelled (spelled_atomsOf s).symm

theorem holds_literal (s : String) : Holds (word (quoteLiteral s)) [.literal s] :=
  holds_spelled (by rw [quoteLiteral, String.toList_ofList]; simp [spelled, Atom.chars])

/-- A word between fixed texts. The layout joins the three into one word, so that no line can end
inside; the scanner tells them apart again. -/
theorem holds_between (a s b : String) :
    Holds (word (a ++ s ++ b)) (atomsOf a ++ .word s :: atomsOf b) := by
  apply holds_spelled
  rw [String.toList_append, String.toList_append, spelled_append, spelled_atomsOf, spelled,
    List.flatMap_cons, List.append_assoc]
  exact congrArg (fun r => a.toList ++ (s.toList ++ r)) (spelled_atomsOf b).symm

theorem holds_zero : Holds zero [] := .stop (Or.inl rfl) .nil

theorem holds_space : Holds space [] := .stop (Or.inl rfl) .nil

theorem holds_never : Holds never [] := .stop (Or.inl rfl) .nil

theorem holds_hard : Holds hard [] := .stop (Or.inl rfl) .nil

/-- A box puts on the page what is in it. Whether its breaks end their lines is up to the layout. -/
theorem Holds.cbox (h : Holds p x) (n : Int) : Holds (cbox n p) x := by
  have hclosing : Holds [.closing] [] := .closing .nil
  have hbox := Holds.opening (c := true) (n := n) (h.append hclosing)
  rwa [List.append_nil] at hbox

theorem Holds.ibox (h : Holds p x) (n : Int) : Holds (ibox n p) x := by
  have hclosing : Holds [.closing] [] := .closing .nil
  have hbox := Holds.opening (c := false) (n := n) (h.append hclosing)
  rwa [List.append_nil] at hbox

end Parts

/-! ## Parts of a module -/

namespace ModuleText

/-- The pieces of lines that stand in each other. -/
abbrev HoldsAll : List (List Piece) → List (List Atom) → Prop := List.Forall₂ Holds

variable {ps : List (List Piece)} {xs : List (List Atom)} {x : List Atom}

/-- Parts with a separator between them put their pieces on the page with the pieces of the
separator between them. -/
theorem holds_intercalate {sep : List Piece} {s : List Atom} (hsep : Holds sep s)
    (h : HoldsAll ps xs) : Holds (sep.intercalate ps) (s.intercalate xs) := by
  induction h with
  | nil => exact .nil
  | @cons p x ps xs hp hps ih =>
    cases hps with
    | nil =>
      rw [List.intercalate_singleton, List.intercalate_singleton]
      exact hp
    | cons hq hqs =>
      rw [List.intercalate_cons_cons, List.intercalate_cons_cons]
      exact (hp.append hsep).append ih

/-- Arguments, with commas between them. -/
def listed (xs : List (List Atom)) : List Atom := (atomsOf ",").intercalate xs

/-- Arguments with commas between them. The comma that a broken line puts behind the last one is a
filler and no piece, so one list of pieces stands for both layouts. -/
theorem holds_arguments (h : HoldsAll ps xs) : Holds (arguments ps) (listed xs) := by
  cases h with
  | nil => exact .nil
  | cons hp hps =>
    have hcomma : Holds (word "," ++ space) (atomsOf "," ++ []) :=
      (holds_fixed ",").append holds_space
    have hlast : Holds [.stop { offset := -4, last := "," }] [] := .stop (Or.inr rfl) .nil
    have hall := ((holds_zero.append (holds_intercalate hcomma (.cons hp hps))).append hlast).cbox 4
    rwa [List.nil_append, List.append_nil] at hall

/-- A call is its function, a parenthesis, the arguments and a parenthesis, in every layout. -/
theorem holds_call {f : String} (hf : Holds (word f) x) (h : HoldsAll ps xs) :
    Holds (call f ps) (x ++ atomsOf "(" ++ listed xs ++ atomsOf ")") :=
  ((hf.append (holds_fixed "(")).append (holds_arguments h)).append (holds_fixed ")")

theorem holds_method (f : String) (h : HoldsAll ps xs) :
    Holds (method f ps) (atomsOf ("." ++ f) ++ (atomsOf "(" ++ listed xs ++ atomsOf ")")) :=
  (holds_fixed _).append
    ((((holds_fixed "(").append (holds_arguments h)).append (holds_fixed ")")).cbox 0)

theorem holds_field (f : String) : Holds (word ("." ++ f)) [.sign '.', .word f] := by
  have hfield := holds_between "." f ""
  rwa [String.append_empty] at hfield

theorem holds_selfField (f : String) : Holds (selfField f) (atomsOf "self." ++ [.word f]) :=
  (((holds_fixed "self").append holds_zero).append (holds_field f)).cbox 4

theorem holds_statement (h : Holds p x) : Holds (statement p) (x ++ atomsOf ";") :=
  (h.append (holds_fixed ";")).ibox 0

theorem holds_assignment (f : String) {v : String} (hv : Holds (word v) x) :
    Holds (assignment f v) (atomsOf "self." ++ .word f :: atomsOf " = " ++ x ++ atomsOf ";") := by
  have hassign := holds_statement
    (((((holds_selfField f).append (holds_fixed " = ")).append holds_never).append hv).ibox 0)
  refine hassign.of_eq ?_
  simp only [List.append_assoc, List.nil_append, List.cons_append]

/-- The lines of a body, and the brace that closes it. The brace that opens it is the end of the
line in front, so it belongs to whatever has the body. -/
theorem holds_body (h : HoldsAll ps xs) : Holds (body ps) (xs.flatten ++ atomsOf "\x7d") := by
  have hlast : Holds [.stop { blank := wide, offset := -4 }] [] := .stop (Or.inl rfl) .nil
  have hlines := ((holds_hard.append (holds_intercalate holds_hard h)).append hlast).cbox 4
  rw [List.nil_append, List.append_nil] at hlines
  have hflatten : ([] : List Atom).intercalate xs = xs.flatten := by
    clear hlines h
    induction xs with
    | nil => rfl
    | cons x xs ih =>
      cases xs with
      | nil => simp
      | cons y xs => rw [List.intercalate_cons_cons, ih]; simp
  rw [hflatten] at hlines
  exact hlines.append (holds_fixed "\x7d")

theorem holds_braced {line : String} (hline : Holds (word (line ++ " \x7b")) x)
    (h : HoldsAll ps xs) :
    Holds (braced line ps) (x ++ (xs.flatten ++ atomsOf "\x7d")) :=
  hline.append (holds_body h)

/-! ## Constants and imports -/

/-- The pieces of a constant. -/
def constantAtoms (c : Constant) : List Atom :=
  atomsOf "pub const " ++
    .word c.name.text :: atomsOf ": &str = " ++ .literal c.value :: atomsOf ";"

theorem holds_constant (c : Constant) : Holds (constant c) (constantAtoms c) := by
  apply holds_spelled
  simp only [constantAtoms, spelled_append, spelled_cons, spelled_atomsOf, Atom.chars,
    quoteLiteral, String.toList_append, String.toList_ofList, List.append_assoc, List.cons_append,
    List.nil_append]

/-! ## Loading -/

/-- The pieces of the statement that empties a sequence. -/
def resetAtoms (f : Ident) : List Atom :=
  atomsOf "self." ++ .word f.text :: atomsOf " = ::std::vec::Vec::new();"

theorem holds_reset (f : Ident) : Holds (reset f.text) (resetAtoms f) := by
  have hreset := holds_assignment f.text (holds_fixed "::std::vec::Vec::new()")
  exact hreset

/-- The pieces of the statement that refuses a value of a wrong kind. -/
def refusalAtoms (m : Mismatch) : List Atom :=
  atomsOf "return ::std::result::Result::Err(::propkit::PropertyError::" ++
    .word (if m.element then "element_mismatch" else "mismatch") :: atomsOf "(" ++
    .literal m.typeName :: atomsOf "," ++ .literal m.field :: atomsOf "," ++
    .literal m.expected :: atomsOf "));"

/-- The statement that refuses a value names the type, the field and what was expected, each as a
literal; whether the field is a sequence is seen from the function that makes the error. -/
theorem holds_refusal (m : Mismatch) : Holds (refusal m) (refusalAtoms m) := by
  have hfunction := holds_between "::propkit::PropertyError::"
    (if m.element then "element_mismatch" else "mismatch") ""
  rw [String.append_empty] at hfunction
  have hargs : HoldsAll [literal m.typeName, literal m.field, literal m.expected]
      [[.literal m.typeName], [.literal m.field], [.literal m.expected]] :=
    .cons (holds_literal _) (.cons (holds_literal _) (.cons (holds_literal _) .nil))
  have hcall := holds_call (holds_fixed "::std::result::Result::Err")
    (.cons (holds_call hfunction hargs) .nil)
  exact holds_statement ((holds_fixed "return ").append hcall)

/-- The pieces of the statement that takes a value. -/
def takeAtoms (a : Arm) : List Atom :=
  atomsOf "self." ++
    .word a.field.text :: if a.push then atomsOf ".push(val);" else atomsOf " = val;"

/-- The pieces of the arm for the properties of a name. -/
def armAtoms (a : Arm) : List Atom :=
  .literal a.name :: atomsOf " => \x7blet ::propkit::Value::" ++
    .word a.kind.variant :: atomsOf "(val) = value else \x7b" ++
    (refusalAtoms a.mismatch ++ (atomsOf "\x7d;" ++ (takeAtoms a ++ atomsOf "\x7d")))

/-- An arm asks for a value of its kind, refuses others, and puts the value into its field or behind
its elements. The proof follows the printer from the outside in and compares the pieces at the end.
-/
theorem holds_arm (a : Arm) : Holds (arm a) (armAtoms a) := by
  have hname : Holds (word (quoteLiteral a.name ++ " =>" ++ " \x7b"))
      (.literal a.name :: atomsOf " => \x7b") := by
    apply holds_spelled
    simp only [spelled_cons, spelled_atomsOf, Atom.chars, quoteLiteral, String.toList_append,
      String.toList_ofList, List.append_assoc]
    rfl
  have hlet := holds_between "let ::propkit::Value::" a.kind.variant "(val) = value else \x7b"
  have hline : Holds (word ("let ::propkit::Value::" ++ a.kind.variant ++ "(val) = value else" ++
      " \x7b")) (atomsOf "let ::propkit::Value::" ++
        .word a.kind.variant :: atomsOf "(val) = value else \x7b") := by
    rwa [String.append_assoc]
  have htake : Holds (if a.push then statement (cbox 4 (word "self" ++ word ("." ++ a.field.text) ++
      zero ++ method "push" [word "val"])) else assignment a.field.text "val") (takeAtoms a) := by
    unfold takeAtoms
    split
    · exact holds_statement (((((holds_fixed "self").append (holds_field a.field.text)).append
        holds_zero).append (holds_method "push" (.cons (holds_fixed "val") .nil))).cbox 4)
    · exact holds_assignment a.field.text (holds_fixed "val")
  -- the refusal stands in braces of its own, the assignment or push beside it
  have hrefusal := (holds_braced hline (.cons (holds_refusal a.mismatch) .nil)).append
    (holds_fixed ";")
  refine (holds_braced hname (.cons hrefusal (.cons htake .nil))).of_eq ?_
  simp only [armAtoms, List.flatten_cons, List.flatten_nil, List.append_assoc, List.append_nil,
    List.cons_append]
  rfl

/-- Lines that are made one for each element of a list, and their pieces. -/
theorem holdsAll_map {α : Type} {f : α → List Piece} {g : α → List Atom} (l : List α)
    (h : ∀ a, Holds (f a) (g a)) : HoldsAll (l.map f) (l.map g) :=
  List.forall₂_map_left_iff.mpr (List.forall₂_map_right_iff.mpr
    (List.forall₂_same.mpr fun a _ => h a))

/-- The pieces of a line that a body follows. -/
def opensBody (line : String) : List Atom := atomsOf (line ++ " \x7b")

theorem opensBody_eq {s : String} {cs : List Char} (hs : s = String.ofList cs) :
    opensBody s = splitAtoms [] (cs ++ [' ', '\x7b']) :=
  atomsOf_eq (by rw [hs, String.ofList_append])

/-- The pieces of the function that loads a record: its line, the resets, and the loop over
properties with one arm for each stored name and one for all others. -/
def loadAtoms (i : Implementation) : List Atom :=
  atomsOf "fn load(" ++ (atomsOf "&mut self," ++
    (atomsOf "props: ::std::vec::Vec<::propkit::Property>," ++
  (opensBody ") -> ::propkit::PropertyResult<()>" ++ (i.resets.flatMap resetAtoms ++
  (opensBody "for prop in props" ++
    (atomsOf "let ::propkit::Property \x7b name, value, .. \x7d = prop;" ++
  (opensBody "match name.as_str()" ++ (i.arms.flatMap armAtoms ++ (atomsOf "_ => \x7b\x7d" ++
  (atomsOf "\x7d" ++ (atomsOf "\x7d" ++ (atomsOf "::std::result::Result::Ok(())" ++
    atomsOf "\x7d"))))))))))))

/-- The function that loads a record puts its resets and its arms on the page in their order,
between lines that are the same for every type. -/
theorem holds_load (i : Implementation) : Holds (load i) (loadAtoms i) := by
  have hlast : Holds [.stop { blank := wide, offset := -4 }] [] := .stop (Or.inl rfl) .nil
  have hhead := ((((((holds_fixed "fn load(").append holds_hard).append
    (holds_fixed "&mut self,")).append holds_hard).append
    (holds_fixed "props: ::std::vec::Vec<::propkit::Property>,")).append hlast).cbox 4
  have harms : HoldsAll (i.arms.map arm ++ [word "_ => \x7b\x7d"])
      (i.arms.map armAtoms ++ [atomsOf "_ => \x7b\x7d"]) :=
    List.rel_append (holdsAll_map i.arms holds_arm) (.cons (holds_fixed _) .nil)
  have hmatch := holds_braced (holds_fixed ("match name.as_str()" ++ " \x7b")) harms
  have hlet := holds_fixed "let ::propkit::Property \x7b name, value, .. \x7d = prop;"
  have hloop := holds_braced (holds_fixed ("for prop in props" ++ " \x7b"))
    (.cons hlet (.cons hmatch .nil))
  have hlines := List.rel_append (holdsAll_map i.resets fun f => holds_reset f)
    (.cons hloop (.cons (holds_fixed "::std::result::Result::Ok(())") .nil))
  have hload := hhead.append
    (holds_braced (holds_fixed (") -> ::propkit::PropertyResult<()>" ++ " \x7b")) hlines)
  refine hload.of_eq ?_
  simp only [loadAtoms, opensBody, List.flatten_append, List.flatten_cons, List.flatten_nil,
    List.flatMap_def, List.append_assoc, List.append_nil]

/-! ## Saving -/

/-- The content of a field or an element, and the parenthesis after it. -/
def contentAtoms (s : Saving) : List Atom :=
  if s.loop then
    if s.kind.isCopy then atomsOf "*elem)" else atomsOf "elem.clone())"
  else if s.kind.isCopy then atomsOf "self." ++ .word s.field.text :: atomsOf ")"
  else atomsOf "self." ++ .word s.field.text :: atomsOf ".clone())"

/-- The pieces of the calls that mark a property. -/
def markAtoms (s : Saving) : List Atom :=
  (if s.loop then atomsOf ".multiple()" else []) ++ if s.noIndex then atomsOf ".no_index()" else []

/-- The pieces of the statement that adds a property. -/
def pushAtoms (s : Saving) : List Atom :=
  atomsOf "props.push(::propkit::Property::new(" ++
    .literal s.name :: atomsOf ",::propkit::Value::" ++
    .word s.kind.variant :: atomsOf "(" ++
    (contentAtoms s ++ (atomsOf ")" ++ (markAtoms s ++ atomsOf ");")))

/-- The pieces of the statement that saves a field, with a loop around it for a sequence. -/
def savingAtoms (s : Saving) : List Atom :=
  if s.loop then
    atomsOf "for elem in &self." ++
      .word s.field.text :: atomsOf "\x7b" ++ (pushAtoms s ++ atomsOf "\x7d")
  else pushAtoms s

/-- What is saved is the field or the element at hand, cloned unless it is copied by being read. The
parenthesis behind it is counted in, since it makes one fixed text with the end of the content. -/
theorem holds_content (s : Saving) :
    ∃ x, Holds (content s) x ∧ x ++ atomsOf ")" = contentAtoms s := by
  unfold content contentAtoms
  split
  · split
    · exact ⟨_, holds_fixed _, rfl⟩
    · exact ⟨_, (((holds_fixed "elem").append holds_zero).append
        (holds_method "clone" .nil)).cbox 4, rfl⟩
  · split
    · exact ⟨_, holds_selfField _, rfl⟩
    · exact ⟨_, (((((holds_fixed "self").append holds_zero).append
        (holds_field s.field.text)).append holds_zero).append (holds_method "clone" .nil)).cbox 4,
        rfl⟩

theorem holds_marks (s : Saving) :
    Holds ((if s.loop then zero ++ method "multiple" [] else [])
      ++ (if s.noIndex then zero ++ method "no_index" [] else [])) (markAtoms s) := by
  have hmark : ∀ (b : Bool) (f : String) (x : List Atom),
      atomsOf ("." ++ f) ++ (atomsOf "(" ++ listed [] ++ atomsOf ")") = x →
      Holds (if b then zero ++ method f [] else []) (if b then x else []) := by
    rintro b f x rfl
    cases b with
    | false => exact .nil
    | true => exact holds_zero.append (holds_method f .nil)
  exact (hmark _ _ _ rfl).append (hmark _ _ _ rfl)

/-- Marks are put behind a property in a box of their own, which is not there if there are no marks.
-/
theorem holds_marked {marks : List Piece} {y : List Atom} (hp : Holds p x) (hm : Holds marks y) :
    Holds (if marks.isEmpty then p else cbox 4 (p ++ marks)) (x ++ y) := by
  cases marks with
  | nil =>
    cases hm
    show Holds p (x ++ [])
    rw [List.append_nil]
    exact hp
  | cons m marks => exact (hp.append hm).cbox 4

theorem holds_property (s : Saving) : ∃ x, Holds (property s) x ∧
    atomsOf "props.push(" ++ (x ++ atomsOf ");") = pushAtoms s := by
  obtain ⟨x, hx, hcontent⟩ := holds_content s
  have hvariant := holds_between "::propkit::Value::" s.kind.variant ""
  rw [String.append_empty] at hvariant
  have hvalue := holds_call hvariant (.cons hx .nil)
  have hplain := holds_call (holds_fixed "::propkit::Property::new")
    (.cons (holds_literal s.name) (.cons hvalue .nil))
  refine ⟨_, holds_marked hplain (holds_marks s), ?_⟩
  simp only [pushAtoms, ← hcontent, listed, List.append_assoc, List.cons_append,
    List.intercalate_singleton, List.intercalate_cons_cons]
  rfl

theorem holds_saving (s : Saving) : Holds (saving s) (savingAtoms s) := by
  obtain ⟨x, hx, hpush⟩ := holds_property s
  have hstatement : Holds (statement (cbox 4 (word "props" ++ zero ++ method "push" [property s])))
      (pushAtoms s) := by
    refine (holds_statement ((((holds_fixed "props").append holds_zero).append
      (holds_method "push" (.cons hx .nil))).cbox 4)).of_eq ?_
    rw [← hpush]
    simp only [listed, List.append_assoc, List.intercalate_singleton]
    rfl
  unfold saving savingAtoms
  dsimp only
  split
  · have hfield := (((holds_fixed "&").append (holds_selfField s.field.text)).append
      holds_space).cbox 0
    refine (((((((holds_fixed "for elem in ").append holds_never).append hfield).append
      (holds_fixed "\x7b")).append holds_never).append (holds_body (.cons hstatement .nil))).ibox
        0).of_eq ?_
    simp only [List.flatten_cons, List.flatten_nil, List.append_assoc, List.append_nil,
      List.cons_append]
    rfl
  · exact hstatement

/-- The pieces of the function that saves a record. -/
def saveAtoms (i : Implementation) : List Atom :=
  opensBody "fn save(&self) -> ::propkit::PropertyResult<::std::vec::Vec<::propkit::Property>>" ++
  (atomsOf "let mut props = ::std::vec::Vec::new();" ++ (i.savings.flatMap savingAtoms ++
    (atomsOf "::std::result::Result::Ok(props)" ++ atomsOf "\x7d")))

theorem holds_save (i : Implementation) : Holds (save i) (saveAtoms i) := by
  have hlines := List.rel_append
    (.cons (holds_fixed "let mut props = ::std::vec::Vec::new();")
      (holdsAll_map i.savings holds_saving))
    (.cons (holds_fixed "::std::result::Result::Ok(props)") .nil)
  have hsave := holds_braced (holds_fixed
    ("fn save(&self) -> ::propkit::PropertyResult<::std::vec::Vec<::propkit::Property>>" ++
      " \x7b")) hlines
  refine hsave.of_eq ?_
  simp only [saveAtoms, opensBody, List.flatten_append, List.flatten_cons, List.flatten_nil,
    List.flatMap_def, List.append_assoc, List.append_nil]

/-! ## Items -/

/-- The pieces of an implementation: its line, the function that loads and the one that saves. -/
def implementationAtoms (i : Implementation) : List Atom :=
  atomsOf "impl ::propkit::PropertyLoadSaver" ++ .gap :: atomsOf "for " ++
    .word i.typeName.text :: atomsOf " \x7b" ++ (loadAtoms i ++ (saveAtoms i ++ atomsOf "\x7d"))

/-- An implementation puts the pieces of its two functions on the page. Its first line may be broken
in front of the type, and that is the one place where a gap is not a part of a fixed text. -/
theorem holds_implementation (i : Implementation) :
    Holds (implementation i) (implementationAtoms i) := by
  have hlast : Holds [.stop { blank := wide, offset := -4 }] [] := .stop (Or.inl rfl) .nil
  -- the line may be broken in front of the name, and then no blank is left there
  have hfor : Holds (space ++ word ("for " ++ i.typeName.text))
      (.gap :: (atomsOf "for " ++ [.word i.typeName.text] ++ [])) := by
    refine .apart (by decide) rfl ?_ .nil
    rw [String.toList_append, spelled_append, spelled_atomsOf]
    simp [spelled, Atom.chars]
  have hline : Holds (ibox (-4) (word "impl ::propkit::PropertyLoadSaver" ++
      (space ++ word ("for " ++ i.typeName.text))))
      (atomsOf "impl ::propkit::PropertyLoadSaver" ++
        .gap :: (atomsOf "for " ++ [.word i.typeName.text] ++ [])) :=
    ((holds_fixed "impl ::propkit::PropertyLoadSaver").append hfor).ibox (-4)
  have hbody := (((((hline.append (holds_fixed " \x7b")).append holds_hard).append
    (holds_load i)).append holds_hard).append (holds_save i)).append hlast
  unfold implementation
  rw [List.append_assoc (word "impl ::propkit::PropertyLoadSaver")]
  refine ((hbody.cbox 4).append (holds_fixed "\x7d")).of_eq ?_
  simp only [implementationAtoms, List.append_assoc, List.append_nil, List.cons_append,
    List.nil_append]

end ModuleText

end StoreModel
