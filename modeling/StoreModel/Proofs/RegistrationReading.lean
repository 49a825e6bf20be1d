import StoreModel.Entity.Registration
import StoreModel.Proofs.ModuleDecoding

/-!
# A registration is read as its pieces

The registration of a declared entity is one line of source text in which the name of the type
stands as a word, and the key, the names of the fields, their tags and the texts of unsupported
types stand as literals. Whatever these texts hold, the line can be scanned, its groups close, and
the tokens are the pieces of the declaration (`Declaration.readTrees_registration`).

One token of the line is not among the pieces that are told by themselves: the quote before
`static`, which could also begin a character. So the line is scanned in two parts, from the quote on
and up to it.
-/

set_option autoImplicit false

namespace StoreModel

open StoreModel.Source StoreModel.Text StoreModel.ModuleText

/-! ## Lifetimes -/

namespace Source

variable {w rest : List Char}

/-- The first letter of a lifetime is not a character: no other quote stands behind it. -/
theorem skipCharacter_lifetime (h : PlainWord w) (hr : EndsWord rest) :
    skipCharacter ('\'' :: (w ++ rest)) = none := by
  obtain ⟨c, r, rfl, hc, hcontinues⟩ := h
  show skipSingle .text (c :: (r ++ rest)) = none
  unfold skipSingle
  dsimp only
  split
  case h_1 hfound =>
    split at hfound
    case h_1 heq =>
      obtain ⟨rfl, -⟩ := List.cons.inj heq
      exact absurd hc (by decide +kernel)
    case h_2 heq =>
      cases heq
      simp only [Flavour.allows, if_true, Option.some.injEq, Prod.mk.injEq] at hfound
      exact absurd rfl (hr.ne_append hcontinues hfound.2).2.1
    case h_3 => cases hfound
  case h_2 => rfl

/-- A quote before a word is punctuation, joined to the word, if what ends the word is neither a
second quote nor a number sign. -/
theorem scanPunct_lifetime (h : PlainWord w) (hr : EndsWord rest) :
    scanPunct ('\'' :: (w ++ rest)) = some (.punct '\'' true, w ++ rest) := by
  have hword := scanAnyWord_append (Or.inl h) hr
  have hahead : punctAhead ('\'' :: (w ++ rest)) = true := rfl
  simp only [scanPunct, hahead, if_true, hword]
  split
  case h_1 hnone => cases hnone
  case h_2 hquote =>
    cases hquote
    exact absurd rfl (hr.ne rfl).2.1
  case h_3 hhash =>
    cases hhash
    exact absurd rfl (hr.ne rfl).2.2
  case h_4 => rfl

/-- A quote before a word is scanned as that of a lifetime. All readers of literals have a look at
it first, and only the one for characters gets as far as the word. -/
theorem scanLexemes_lifetime (h : PlainWord w) (hr : EndsWord rest) :
    scanLexemes ('\'' :: (w ++ rest)) = some ([.leaf (.punct '\'' true)], w ++ rest) := by
  have hliteral : scanLiteral ('\'' :: (w ++ rest)) = none := by
    have hstring : scanString ('\'' :: (w ++ rest)) = none := rfl
    have hbytes : skipByteString ('\'' :: (w ++ rest)) = none := rfl
    have hnumber : skipNumber ('\'' :: (w ++ rest)) = none := rfl
    unfold scanLiteral
    rw [hstring, hbytes, skipCharacter_lifetime h hr, hnumber]
    rfl
  have hleaf : scanLeaf ('\'' :: (w ++ rest)) = some (.punct '\'' true, w ++ rest) := by
    unfold scanLeaf
    rw [hliteral, scanPunct_lifetime h hr]
  have hbracket : bracket? ('\'' :: (w ++ rest)) = none := rfl
  have hdoc : docComment ('\'' :: (w ++ rest)) = none := rfl
  unfold scanLexemes
  rw [hbracket, hdoc, hleaf]
  rfl

end Source

/-! ## The pieces of a registration -/

/-- The name of a form of shapes. -/
def Shape.form : Shape → String
  | .bool => "Bool"
  | .i64 => "I64"
  | .f64 => "F64"
  | .u8 => "U8"
  | .string => "Str"
  | .bytes => "Bytes"
  | .byteString => "ByteString"
  | .timestamp => "Timestamp"
  | .seq _ => "Seq"
  | .unsupported _ => "Unsupported"

namespace RegistrationText

/-- The pieces of a text in parentheses. -/
def textAtoms (s : String) : List Atom := atomsOf "(" ++ .literal s :: atomsOf ".to_string())"

/-- The pieces of a form of shapes with its part. -/
def formAtoms (form : String) (part : List Atom) : List Atom :=
  atomsOf "::propkit::model::TypeShape::" ++ .word form :: part

/-- The pieces of what a shape holds beyond its form. -/
def partAtoms : Shape → List Atom
  | .seq s =>
    atomsOf "(::std::boxed::Box::new(" ++ (formAtoms s.form (partAtoms s) ++ atomsOf "))")
  | .unsupported t => textAtoms t
  | _ => []

def shapeAtoms (s : Shape) : List Atom := formAtoms s.form (partAtoms s)

def tagAtoms (tag : Option String) : List Atom :=
  atomsOf "::std::option::Option::" ++
    match tag with
    | some a => .word "Some" :: textAtoms a
    | none => [.word "None"]

def fieldAtoms (f : Field) : List Atom :=
  atomsOf "::propkit::model::FieldDef \x7b name: " ++
    .literal f.name :: (atomsOf ".to_string(), exported: " ++
      .word (if f.exported then "true" else "false") :: (atomsOf ", tag: " ++
        (tagAtoms f.tag ++ (atomsOf ", shape: " ++ (shapeAtoms f.shape ++ atomsOf ", \x7d")))))

def entityAtoms (e : Entity) : List Atom :=
  atomsOf "::propkit::model::EntityDef \x7b type_name: " ++
    .literal e.typeName :: (atomsOf ".to_string(), fields: ::std::vec![" ++
      ((atomsOf ", ").intercalate (e.fields.map fieldAtoms) ++ atomsOf "], \x7d"))

/-- The pieces in front of the quote. -/
def frontAtoms (d : Declaration) : List Atom :=
  atomsOf "impl ::propkit::model::EntityModel for " ++
    .word d.entity.typeName :: atomsOf " \x7b const KIND: &"

def submitAtoms (d : Declaration) : List Atom :=
  atomsOf "::propkit::registration::EntityRegistration \x7b kind: " ++
    .literal d.key :: (atomsOf ", type_name: " ++
      .literal d.entity.typeName :: (atomsOf ", def_fn: <" ++
        .word d.entity.typeName ::
          atomsOf " as ::propkit::model::EntityModel>::entity_def, \x7d \x7d"))

/-- The pieces behind the quote. -/
def backAtoms (d : Declaration) : List Atom :=
  atomsOf "static str = " ++
    .literal d.key :: (atomsOf "; fn entity_def() -> ::propkit::model::EntityDef \x7b " ++
      (entityAtoms d.entity ++
        (atomsOf " \x7d \x7d ::propkit::inventory::submit! \x7b " ++ submitAtoms d)))

theorem toList_quoteLiteral (s : String) :
    (quoteLiteral s).toList = '"' :: (escapeLiteral s.toList ++ ['"']) := by
  rw [quoteLiteral, String.toList_ofList]

theorem spelled_textAtoms (s : String) :
    spelled (textAtoms s) = ("(" ++ quoteLiteral s ++ ".to_string())").toList := by
  simp only [textAtoms, spelled_append, spelled_cons, spelled_atomsOf, Atom.chars,
    String.toList_append, toList_quoteLiteral, List.append_assoc]

theorem spelled_formAtoms (form : String) (part : List Atom) :
    spelled (formAtoms form part) =
      "::propkit::model::TypeShape::".toList ++ (form.toList ++ spelled part) := by
  simp only [formAtoms, spelled_append, spelled_cons, spelled_atomsOf, Atom.chars]

theorem expression_seq (s : Shape) : (Shape.seq s).expression =
    "::propkit::model::TypeShape::Seq(::std::boxed::Box::new(" ++ s.expression ++ "))" := rfl

theorem expression_unsupported (t : String) : (Shape.unsupported t).expression =
    "::propkit::model::TypeShape::Unsupported(" ++ quoteLiteral t ++ ".to_string())" := rfl

theorem tagExpression_some (a : String) : tagExpression (some a) =
    "::std::option::Option::Some(" ++ quoteLiteral a ++ ".to_string())" := rfl

/-- The pieces of a shape spell its expression. The induction is along nested sequences; forms
without a part are finitely many and are evaluated. -/
theorem spelled_shapeAtoms (s : Shape) : spelled (shapeAtoms s) = s.expression.toList := by
  induction s with
  | seq s ih =>
    have hfront : "::propkit::model::TypeShape::Seq(::std::boxed::Box::new(".toList =
        "::propkit::model::TypeShape::".toList ++ ("Seq".toList ++
          "(::std::boxed::Box::new(".toList) := by decide +kernel
    rw [shapeAtoms, spelled_formAtoms, partAtoms, spelled_append, spelled_append, ← shapeAtoms, ih]
    simp only [Shape.form, expression_seq, spelled_atomsOf, String.toList_append, hfront,
      List.append_assoc]
  | unsupported t =>
    have hfront : "::propkit::model::TypeShape::Unsupported(".toList =
        "::propkit::model::TypeShape::".toList ++ ("Unsupported".toList ++ "(".toList) := by
      decide +kernel
    rw [shapeAtoms, spelled_formAtoms, partAtoms, spelled_textAtoms]
    simp only [Shape.form, expression_unsupported, String.toList_append, hfront, List.append_assoc]
  | _ =>
    rw [shapeAtoms, spelled_formAtoms]
    decide +kernel

theorem spelled_tagAtoms (tag : Option String) :
    spelled (tagAtoms tag) = (tagExpression tag).toList := by
  cases tag with
  | none =>
    rw [tagAtoms, spelled_append, spelled_atomsOf]
    decide +kernel
  | some a =>
    have hfront : "::std::option::Option::Some(".toList =
        "::std::option::Option::".toList ++ ("Some".toList ++ "(".toList) := by decide +kernel
    simp only [tagAtoms, tagExpression_some, spelled_append, spelled_cons, spelled_atomsOf,
      spelled_textAtoms, Atom.chars, String.toList_append, hfront, List.append_assoc]

theorem spelled_fieldAtoms (f : Field) : spelled (fieldAtoms f) = f.expression.toList := by
  unfold fieldAtoms Field.expression
  simp only [spelled_append, spelled_cons, spelled_atomsOf, spelled_tagAtoms, spelled_shapeAtoms,
    Atom.chars, String.toList_append, toList_quoteLiteral, List.append_assoc]

theorem spelled_entityAtoms (e : Entity) : spelled (entityAtoms e) = e.expression.toList := by
  have hfields : spelled ((atomsOf ", ").intercalate (e.fields.map fieldAtoms)) =
      (", ".intercalate (e.fields.map Field.expression)).toList := by
    have hmap : (e.fields.map fieldAtoms).map spelled =
        (e.fields.map Field.expression).map String.toList := by
      rw [List.map_map, List.map_map]
      exact List.map_congr_left fun f _ => spelled_fieldAtoms f
    rw [spelled_intercalate, spelled_atomsOf, String.toList_intercalate, hmap]
  unfold entityAtoms Entity.expression
  simp only [spelled_append, spelled_cons, spelled_atomsOf, hfields, Atom.chars,
    String.toList_append, toList_quoteLiteral, List.append_assoc]

/-- The line is its pieces, with the quote between them. -/
theorem toList_registration (d : Declaration) :
    d.registration.toList = spelled (frontAtoms d) ++ '\'' :: spelled (backAtoms d) := by
  have hquote : " \x7b const KIND: &'static str = ".toList =
      " \x7b const KIND: &".toList ++ '\'' :: "static str = ".toList := by decide +kernel
  unfold frontAtoms backAtoms submitAtoms Declaration.registration
  simp only [spelled_append, spelled_cons, spelled_atomsOf, spelled_entityAtoms, Atom.chars,
    String.toList_append, toList_quoteLiteral, hquote, List.append_assoc, List.cons_append]

/-! ## Reading the pieces -/

variable {g g' : List Delimiter} {rest : List Atom}

theorem proper_text (s : String) : Proper [] (textAtoms s) [] := by
  have hopen : Proper [] (atomsOf "(") [.paren] := .fixed rfl rfl
  have hclose : Proper [.paren] (atomsOf ".to_string())") [] := .fixed rfl rfl
  exact hopen.append (.literal hclose (by decide))

theorem word_form (s : Shape) : Word s.form.toList := by
  cases s
  all_goals exact word_of_scan rfl (by decide +kernel)

/-- A form without a part ends in a word, so it takes what stands behind it to tell where it
ends. -/
theorem proper_form (s : Shape) {part : List Atom} (h : Proper g part g')
    (hapart : startsApart part = true) : Proper g (formAtoms s.form part) g' := by
  have hfront : Proper [] (atomsOf "::propkit::model::TypeShape::") [] := .fixed rfl rfl
  exact hfront.within.append (.word (word_form s) h hapart)

theorem shapeAtoms_append (s : Shape) (rest : List Atom) :
    shapeAtoms s ++ rest = formAtoms s.form (partAtoms s ++ rest) := by
  simp only [shapeAtoms, formAtoms, List.append_assoc, List.cons_append]

/-- The pieces of a shape can be read with whatever follows, if it stands apart from a word. That is
asked because most forms have no part, and then the last piece is a word. -/
theorem proper_shape (s : Shape) (h : Proper g rest g') (hapart : startsApart rest = true) :
    Proper g (shapeAtoms s ++ rest) g' := by
  induction s generalizing g g' rest with
  | seq s ih =>
    have hopen : Proper [] (atomsOf "(::std::boxed::Box::new(") [.paren, .paren] := .fixed rfl rfl
    have hclose : Proper [.paren, .paren] (atomsOf "))") [] := .fixed rfl rfl
    have hpart := (hopen.under g).append (ih ((hclose.under g).append h) rfl)
    rw [shapeAtoms_append, partAtoms, ← shapeAtoms]
    simp only [List.append_assoc]
    exact proper_form (.seq s) hpart rfl
  | unsupported t =>
    rw [shapeAtoms_append]
    exact proper_form _ ((proper_text t).within.append h) rfl
  | _ =>
    rw [shapeAtoms_append]
    exact proper_form _ h hapart

theorem proper_tag (tag : Option String) (h : Proper g rest g') (hapart : startsApart rest = true) :
    Proper g (tagAtoms tag ++ rest) g' := by
  have hfront : Proper [] (atomsOf "::std::option::Option::") [] := .fixed rfl rfl
  cases tag with
  | none =>
    rw [tagAtoms, List.append_assoc]
    exact hfront.within.append (.word (word_of_scan rfl rfl) h hapart)
  | some a =>
    rw [tagAtoms, List.append_assoc]
    exact hfront.within.append
      (.word (word_of_scan rfl rfl) ((proper_text a).within.append h) rfl)

/-- The pieces of a field close the brace that they open, so those of several fields can stand in a
row. -/
theorem proper_field (f : Field) : Proper [] (fieldAtoms f) [] := by
  have hname : Proper [] (atomsOf "::propkit::model::FieldDef \x7b name: ") [.brace] :=
    .fixed rfl rfl
  have hexported : Proper [.brace] (atomsOf ".to_string(), exported: ") [.brace] := .fixed rfl rfl
  have hbool : Word (if f.exported then "true" else "false").toList := by
    split
    all_goals exact word_of_scan rfl rfl
  have htag : Proper [.brace] (atomsOf ", tag: ") [.brace] := .fixed rfl rfl
  have hshape : Proper [.brace] (atomsOf ", shape: ") [.brace] := .fixed rfl rfl
  have hend : Proper [.brace] (atomsOf ", \x7d") [] := .fixed rfl rfl
  have hrest := htag.append (proper_tag f.tag
    (hshape.append (proper_shape f.shape hend rfl)) rfl)
  exact hname.append (.literal (hexported.append (.word hbool hrest rfl)) rfl)

theorem proper_intercalate {sep : List Atom} {xs : List (List Atom)} (hsep : Proper [] sep [])
    (h : ∀ x ∈ xs, Proper [] x []) : Proper [] (sep.intercalate xs) [] := by
  induction xs with
  | nil => exact .nil
  | cons x xs ih =>
    obtain ⟨hx, hxs⟩ := List.forall_mem_cons.mp h
    cases xs with
    | nil =>
      rw [List.intercalate_singleton]
      exact hx
    | cons y xs =>
      rw [List.intercalate_cons_cons]
      exact (hx.append hsep).append (ih hxs)

/-- The pieces of an entity close all they open, however many fields there are. The commas between
fields have a piece of their own, and there is none behind the last field. -/
theorem proper_entity (e : Entity) : Proper [] (entityAtoms e) [] := by
  have hname : Proper [] (atomsOf "::propkit::model::EntityDef \x7b type_name: ") [.brace] :=
    .fixed rfl rfl
  have hopen : Proper [.brace] (atomsOf ".to_string(), fields: ::std::vec![")
    [.bracket, .brace] := .fixed rfl rfl
  have hsep : Proper [] (atomsOf ", ") [] := .fixed rfl rfl
  have hfields : Proper [] ((atomsOf ", ").intercalate (e.fields.map fieldAtoms)) [] := by
    apply proper_intercalate hsep
    intro x hx
    obtain ⟨f, -, rfl⟩ := List.mem_map.mp hx
    exact proper_field f
  have hend : Proper [.bracket, .brace] (atomsOf "], \x7d") [] := .fixed rfl rfl
  exact hname.append (.literal (hopen.append (hfields.within.append hend)) rfl)

variable {d : Declaration}

theorem proper_front (h : Word d.entity.typeName.toList) : Proper [] (frontAtoms d) [.brace] := by
  have himpl : Proper [] (atomsOf "impl ::propkit::model::EntityModel for ") [] := .fixed rfl rfl
  have hconst : Proper [] (atomsOf " \x7b const KIND: &") [.brace] := .fixed rfl rfl
  exact himpl.append (.word h hconst rfl)

theorem proper_submit (h : Word d.entity.typeName.toList) : Proper [.brace] (submitAtoms d) [] := by
  have hkind : Proper [.brace]
      (atomsOf "::propkit::registration::EntityRegistration \x7b kind: ") [.brace, .brace] :=
    .fixed rfl rfl
  have htype : Proper [.brace, .brace] (atomsOf ", type_name: ") [.brace, .brace] := .fixed rfl rfl
  have hfn : Proper [.brace, .brace] (atomsOf ", def_fn: <") [.brace, .brace] := .fixed rfl rfl
  have hend : Proper [.brace, .brace]
      (atomsOf " as ::propkit::model::EntityModel>::entity_def, \x7d \x7d") [] := .fixed rfl rfl
  exact hkind.append (.literal (htype.append (.literal (hfn.append (.word h hend rfl)) rfl)) rfl)

/-- The pieces behind the quote close the brace that those in front have opened, so the two halves
can be scanned one by one and nested together. -/
theorem proper_back (h : Word d.entity.typeName.toList) : Proper [.brace] (backAtoms d) [] := by
  have hstatic : Proper [.brace] (atomsOf "static str = ") [.brace] := .fixed rfl rfl
  have hbody : Proper [.brace]
      (atomsOf "; fn entity_def() -> ::propkit::model::EntityDef \x7b ") [.brace, .brace] :=
    .fixed rfl rfl
  have hsubmit : Proper [.brace, .brace]
      (atomsOf " \x7d \x7d ::propkit::inventory::submit! \x7b ") [.brace] := .fixed rfl rfl
  have hrest := (proper_entity d.entity).within.append (hsubmit.append (proper_submit h))
  exact hstatic.append (.literal (hbody.append hrest) rfl)

/-- A text that is just its pieces is a text with its pieces and no gaps but the ones that they ask
for. -/
theorem filled_spelled (as : List Atom) : Filled as (spelled as) := by
  have hspelled := Filled.nil.spelled as
  rwa [List.append_nil, List.append_nil] at hspelled

/-- From the quote on the line is scanned as a lifetime and the pieces behind it. The word of the
lifetime is the first piece again, so the pieces are scanned first and the quote is put in front. -/
theorem scans_back (h : Word d.entity.typeName.toList) :
    ∃ ls, Lexed (backAtoms d) ls ∧
      Scans ('\'' :: spelled (backAtoms d)) (.leaf (.punct '\'' true) :: ls) := by
  obtain ⟨ls, hlexed, hscans⟩ :=
    (filled_spelled (backAtoms d)).scans (proper_back h).sound commentless_nil scans_nil
  rw [List.append_nil, List.append_nil] at hscans
  -- the quote is scanned with the word behind it, so that word has to be pointed out
  obtain ⟨rest, hrest⟩ : ∃ rest, spelled (backAtoms d) = "static".toList ++ ' ' :: rest := by
    have hstatic : "static str = ".toList = "static".toList ++ ' ' :: "str = ".toList := by
      decide +kernel
    rw [backAtoms, spelled_append, spelled_atomsOf, hstatic, List.append_assoc, List.cons_append]
    exact ⟨_, rfl⟩
  have hword : PlainWord "static".toList := by
    have hscan : scanPlainWord "static".toList = some ("static".toList, []) := by decide +kernel
    exact scanPlainWord_ok hscan
  have hends : EndsWord (' ' :: rest) := by
    intro c hc
    cases hc
    exact ⟨by decide +kernel, by decide⟩
  have hquote := scanLexemes_lifetime hword hends
  rw [← hrest] at hquote
  exact ⟨ls, hlexed, hscans.token (by decide) (by decide) hquote (Nat.le_refl _)⟩

end RegistrationText

open RegistrationText

/-- **A registration is read as its pieces**, if the name of the type is a word. -/
theorem Declaration.readTrees_registration {d : Declaration}
    (h : Word d.entity.typeName.toList) : ∃ ts, readTrees d.registration = some ts ∧
      Tree.atomsAll ts = kept (frontAtoms d) ++ .sign '\'' :: kept (backAtoms d) := by
  have hfront := proper_front h
  obtain ⟨back, hback, hscansBack⟩ := scans_back h
  obtain ⟨front, hlexed, hscans⟩ := (filled_spelled (frontAtoms d)).scans hfront.sound
    (commentless_cons (by decide) (by decide)) hscansBack
  rw [← toList_registration] at hscans
  have hmark : dropByteOrderMark d.registration.toList = d.registration.toList := by
    have himpl : "impl ::propkit::model::EntityModel for ".toList =
        'i' :: "mpl ::propkit::model::EntityModel for ".toList := by decide +kernel
    rw [toList_registration, frontAtoms, spelled_append, spelled_atomsOf, himpl]
    rfl
  -- the groups that are open at the quote are closed behind it
  obtain ⟨ts, outer, houter, hnest⟩ := hlexed.nest (hfront.closes []) [] [] rfl
  obtain ⟨us, outer', houter', hnest'⟩ :=
    hback.nest ((proper_back h).closes []) (.punct '\'' true :: ts) outer houter
  have hall : nest (front ++ .leaf (.punct '\'' true) :: back) [] [] = some us.reverse := by
    have hend := hnest' []
    rw [List.append_nil, List.map_eq_nil_iff.mp houter'] at hend
    rw [hnest]
    exact hend
  refine ⟨us.reverse, readTrees_of_scans hmark hscans hall, ?_⟩
  rw [atomsAll_of_nest hall, List.flatMap_append, List.flatMap_cons, hlexed.flatMap_atoms,
    hback.flatMap_atoms]
  rfl

end StoreModel
