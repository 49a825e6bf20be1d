import StoreModel.Proofs.ModuleTokens

/-!
# A module is read as its pieces

The text of a module can be scanned, the groups in it close, and the tokens are the pieces of its
parts: those of the header, of the import, of the constants and of the code, in this order
(`Module.readTrees_text`). Nothing is asked of the texts in literals. Of the names it is asked that
each is a word (`Module.Lexical`), as it is if the names have been read as identifiers.
-/

set_option autoImplicit false

namespace StoreModel

open StoreModel.Layout StoreModel.Source StoreModel.Text

/-! ## Names that are words -/

/-- The names in code are words. -/
structure Implementation.Lexical (i : Implementation) : Prop where
  typeName : Word i.typeName.text.toList
  resets : ∀ f ∈ i.resets, Word f.text.toList
  arms : ∀ a ∈ i.arms, Word a.field.text.toList
  savings : ∀ s ∈ i.savings, Word s.field.text.toList

/-- The names in a module are words. -/
structure Module.Lexical (m : Module) : Prop where
  names : ∀ n ∈ m.importPath.names, Word n.toList
  constants : ∀ c ∈ m.constants, Word c.name.text.toList
  implementations : ∀ i ∈ m.implementations, i.Lexical

namespace ModuleText

variable {ps : List (List Piece)} {xs : List (List Atom)}

/-! ## The pieces of a module -/

/-- The pieces of the import: the names of the path with colons between them. -/
def importAtoms (p : ImportPath) : List Atom :=
  atomsOf "use " ++ ((if p.leading then atomsOf "::" else []) ++
    ((atomsOf "::").intercalate (p.names.map fun n => [.word n]) ++ atomsOf "::*;"))

/-- The pieces of the lines after the documentation. -/
def headerAtoms : List Atom := (header.drop 3).flatMap atomsOf

/-- The pieces of a module behind its documentation. -/
def moduleAtoms (m : Module) : List Atom :=
  headerAtoms ++ (importAtoms m.importPath ++
    (m.constants.flatMap constantAtoms ++ m.implementations.flatMap implementationAtoms))

theorem spelled_intercalate (sep : List Atom) (xs : List (List Atom)) :
    spelled (sep.intercalate xs) = (spelled sep).intercalate (xs.map spelled) := by
  induction xs with
  | nil => rfl
  | cons x xs ih =>
    cases xs with
    | nil =>
      rw [List.map_cons, List.map_nil, List.intercalate_singleton, List.intercalate_singleton]
    | cons y xs =>
      rw [List.map_cons, List.map_cons, List.intercalate_cons_cons, List.intercalate_cons_cons,
        spelled_append, spelled_append, ih, List.map_cons]

/-- The import is one word of the layout, so no line can end inside it; its pieces are the names and
the colons between them. -/
theorem holds_importLine (p : ImportPath) : Holds (importLine p) (importAtoms p) := by
  apply holds_spelled
  have hnames : spelled ((atomsOf "::").intercalate (p.names.map fun n => [.word n])) =
      ("::".intercalate p.names).toList := by
    rw [spelled_intercalate, spelled_atomsOf, String.toList_intercalate, List.map_map]
    congr 1
    apply List.map_congr_left
    intro n _
    exact List.append_nil _
  have hleading : spelled (if p.leading then atomsOf "::" else []) =
      (if p.leading then "::" else "").toList := by
    split
    · exact spelled_atomsOf _
    · rfl
  simp only [importAtoms, spelled_append, spelled_atomsOf, hnames, hleading, String.toList_append,
    List.append_assoc]

/-- Items in lines of their own put their pieces on the page one after the other. -/
theorem holds_lines (h : HoldsAll ps xs) :
    Holds (ps.flatMap fun item => item ++ hard) xs.flatten := by
  induction h with
  | nil => exact .nil
  | cons hp _ ih =>
    have hline := hp.append holds_hard
    rw [List.append_nil] at hline
    exact hline.append ih

/-- The items of a module without the lines of documentation. -/
def furtherItems (m : Module) : List (List Piece) :=
  (header.drop 3).map word ++ importLine m.importPath :: m.constants.map constant
    ++ m.implementations.map implementation

theorem holds_furtherItems (m : Module) :
    Holds ((furtherItems m).flatMap fun item => item ++ hard) (moduleAtoms m) := by
  have hconstants := holdsAll_map m.constants holds_constant
  have himpls := holdsAll_map m.implementations holds_implementation
  have hall := holds_lines (List.rel_append
    (List.rel_append (holdsAll_map (header.drop 3) holds_fixed)
      (.cons (holds_importLine m.importPath) hconstants)) himpls)
  refine hall.of_eq ?_
  simp only [moduleAtoms, headerAtoms, List.flatten_append, List.flatten_cons, List.flatMap_def,
    List.append_assoc]

/-! ## Documentation in front -/

/-- A word with a line end behind it is printed as a line, however long it is: the break at the end
is wider than any line has room for. -/
theorem render_word (s : String) : render (word s ++ hard) = s ++ "\n" := by
  have hstays : stays { blank := wide } [] (margin - s.utf8ByteSize) [] = false := by
    have hfull : ¬ ((wide + 0 : Nat) : Int) ≤ margin - s.utf8ByteSize := by
      have hwide : margin < wide := by decide
      omega
    exact decide_eq_false hfull
  show String.join (blanks 0 :: s :: chunks (margin - s.utf8ByteSize) 0 [] 0 hard) = _
  unfold hard
  rw [chunks, hstays]
  rw [String.join_cons, String.join_cons]
  rfl

/-- What the lines of documentation at the front of a module say. -/
def docs : List (List Char) :=
  [" Auto-generated by propkit-build. Do not edit manually.".toList, [],
    " Regenerate with the \x60genmodel\x60 binary or from a build script.".toList]

theorem docs_spec : ∀ line ∈ docs, ∀ c ∈ line, c ≠ '\n' ∧ c ≠ '\r' := by
  have hall : (docs.all fun line => line.all fun c => c != '\n' && c != '\r') = true := by
    decide +kernel
  simpa only [List.all_eq_true, Bool.and_eq_true, bne_iff_ne, ne_eq] using hall

/-- The text of a module begins with its lines of documentation, just as they are. They are taken
out of the layout here, because the scanner sees a comment in each and no words. -/
theorem text_eq_docs (m : Module) :
    m.text.toList = docs.flatMap docLine ++
      (render ((furtherItems m).flatMap fun item => item ++ hard)).toList := by
  have hlines : ∀ (ls : List String) (rest : List Piece),
      render ((ls.map word).flatMap (fun item => item ++ hard) ++ rest) =
        String.join (ls.map fun l => l ++ "\n") ++ render rest := by
    intro ls rest
    induction ls with
    | nil => exact String.empty_append.symm
    | cons l ls ih =>
      rw [List.map_cons, List.flatMap_cons, List.append_assoc, (nested_word l).render_append, ih,
        render_word, List.map_cons, String.join_cons]
      exact String.append_assoc.symm
  -- the first three lines of the header document the module, the others are code
  have hpieces : m.pieces = ((header.take 3).map word).flatMap (fun item => item ++ hard) ++
      (furtherItems m).flatMap fun item => item ++ hard := by
    rw [← List.flatMap_append]
    rfl
  have hdocs : (String.join ((header.take 3).map fun l => l ++ "\n")).toList =
      docs.flatMap docLine := by decide +kernel
  unfold Module.text
  rw [hpieces, hlines, String.toList_append, hdocs]

/-! ## Pieces that are read -/

/-- The pieces can be told from each other, and where the first groups are open before them, the
second are open behind them. -/
structure Proper (groups : List Delimiter) (as : List Atom) (groups' : List Delimiter) : Prop where
  sound : Sound as
  closes : ∀ outer, closeAll (groups ++ outer) as = some (groups' ++ outer)

namespace Proper

variable {g g' g'' : List Delimiter} {as bs : List Atom} {s : String}

/-- Pieces that lead from some open groups to others, and from there to further ones. -/
theorem append (ha : Proper g as g') (hb : Proper g' bs g'') : Proper g (as ++ bs) g'' :=
  ⟨ha.sound.append hb.sound, fun outer => by rw [closeAll_append (ha.closes outer), hb.closes]⟩

/-- Further groups can be open around the pieces, before and behind. So a part is looked at once,
with the groups that it touches, and then used wherever it stands. -/
theorem under (h : Proper g as g') (outer : List Delimiter) :
    Proper (g ++ outer) as (g' ++ outer) :=
  ⟨h.sound, fun _ => by rw [List.append_assoc, List.append_assoc, h.closes]⟩

theorem within (h : Proper [] as []) : Proper g as g := h.under g

/-- Parts that close what they open can be repeated, one for each element of a list. -/
theorem flatMap {α : Type} {f : α → List Atom} {l : List α} (h : ∀ a ∈ l, Proper [] (f a) []) :
    Proper g (l.flatMap f) g := by
  apply within
  exact ⟨Sound.flatMap fun a ha => (h a ha).sound,
    fun outer => closeAll_flatMap fun a ha => (h a ha).closes outer⟩

theorem nil : Proper g [] g := ⟨trivial, fun _ => rfl⟩

/-- Pieces of fixed texts are judged by evaluation. The groups that are looked at are the ones that
the text itself opens or closes; whatever is open around them is added afterwards. -/
theorem of_check (h : (soundCheck as && closeAll g as == some g') = true) : Proper g as g' := by
  rw [Bool.and_eq_true, beq_iff_eq] at h
  exact ⟨sound_of_check h.1, closeAll_outer h.2⟩

variable {cs : List Char}

/-- A fixed text is judged on its characters, which are given apart from it, so that the evaluation
need not decode a string first. -/
theorem fixed (hs : s = String.ofList cs)
    (h : (soundCheck (splitAtoms [] cs) && closeAll g (splitAtoms [] cs) == some g') = true) :
    Proper g (atomsOf s) g' :=
  of_check (by rwa [atomsOf_eq hs])

theorem body (hs : s = String.ofList cs)
    (h : (soundCheck (splitAtoms [] (cs ++ [' ', '\x7b'])) &&
      closeAll g (splitAtoms [] (cs ++ [' ', '\x7b'])) == some g') = true) :
    Proper g (opensBody s) g' :=
  of_check (by rwa [opensBody_eq hs])

/-- A word may hold anything that a scanner takes for one. So the pieces behind it have to stand
apart, which can be seen from the first of them. -/
theorem word (hs : Word s.toList) (h : Proper g as g') (hapart : startsApart as = true) :
    Proper g (.word s :: as) g' :=
  ⟨⟨hs, hapart, h.sound⟩, h.closes⟩

/-- A literal may hold any text. What stands behind it must not go on as a suffix. -/
theorem literal (h : Proper g as g') (hapart : startsApart as = true) :
    Proper g (.literal s :: as) g' :=
  ⟨⟨hapart, h.sound⟩, h.closes⟩

end Proper

theorem proper_header : Proper [] headerAtoms [] := .of_check (by decide +kernel)

theorem proper_self : Proper [] (atomsOf "self.") [] := .fixed rfl rfl

theorem proper_closeBrace : Proper [.brace] (atomsOf "\x7d") [] := .fixed rfl rfl

theorem proper_closeParen : Proper [.paren] (atomsOf ")") [] := .fixed rfl rfl

/-- The import can be told apart if its names are words. The induction is on the names, each with
the colons or the end of the line behind it. -/
theorem proper_import {p : ImportPath} (h : ∀ n ∈ p.names, Word n.toList) :
    Proper [] (importAtoms p) [] := by
  have hstart : Proper [] (atomsOf "use ") [] := .fixed rfl rfl
  have hcolons : Proper [] (atomsOf "::") [] := .fixed rfl rfl
  have hend : Proper [] (atomsOf "::*;") [] := .fixed rfl rfl
  have hleading : Proper [] (if p.leading then atomsOf "::" else []) [] := by
    split
    · exact hcolons
    · exact .nil
  -- what follows each name has to keep it apart, so the end of the line is taken into the induction
  have hnames : Proper [] ((atomsOf "::").intercalate (p.names.map fun n => [.word n]) ++
      atomsOf "::*;") [] := by
    revert h
    induction p.names with
    | nil => exact fun _ => hend
    | cons n ns ih =>
      intro h
      obtain ⟨hn, hns⟩ := List.forall_mem_cons.mp h
      cases ns with
      | nil => exact .word hn hend (by decide)
      | cons n' ns =>
        rw [List.map_cons, List.map_cons, List.intercalate_cons_cons, List.append_assoc]
        exact (Proper.word hn hcolons (by decide)).append (ih hns)
  exact hstart.append (hleading.append hnames)

theorem proper_constant {c : Constant} (h : Word c.name.text.toList) :
    Proper [] (constantAtoms c) [] := by
  have hpub : Proper [] (atomsOf "pub const ") [] := .fixed rfl rfl
  have htype : Proper [] (atomsOf ": &str = ") [] := .fixed rfl rfl
  have hend : Proper [] (atomsOf ";") [] := .fixed rfl rfl
  exact (hpub.append (.word h htype (by decide))).append (.literal hend (by decide))

theorem word_variant (k : Kind) : Word k.variant.toList := by
  cases k
  all_goals
    rw [Kind.variant]
    exact word_of_scan rfl (by decide +kernel)

/-! ## Loading -/

theorem proper_reset {f : Ident} (h : Word f.text.toList) : Proper [] (resetAtoms f) [] := by
  have hnew : Proper [] (atomsOf " = ::std::vec::Vec::new();") [] := .fixed rfl rfl
  exact proper_self.append (.word h hnew (by decide))

/-- The statement that refuses a value closes the parentheses of both calls. Of the two functions
one is named, so the word between the fixed texts has two values and both are looked at. -/
theorem proper_refusal (m : Mismatch) : Proper [] (refusalAtoms m) [] := by
  have hreturn : Proper []
      (atomsOf "return ::std::result::Result::Err(::propkit::PropertyError::") [.paren] :=
    .fixed rfl rfl
  have hname : Word (if m.element then "element_mismatch" else "mismatch").toList := by
    split
    all_goals exact word_of_scan rfl rfl
  have hopen : Proper [.paren] (atomsOf "(") [.paren, .paren] := .fixed rfl rfl
  have hcomma : Proper [.paren, .paren] (atomsOf ",") [.paren, .paren] :=
    .fixed rfl rfl
  have hclose : Proper [.paren, .paren] (atomsOf "));") [] := .fixed rfl rfl
  exact (((hreturn.append (.word hname hopen (by decide))).append
    (.literal hcomma (by decide))).append (.literal hcomma (by decide))).append
      (.literal hclose (by decide))

theorem proper_take {a : Arm} (h : Word a.field.text.toList) : Proper [] (takeAtoms a) [] := by
  have hpush : Proper [] (atomsOf ".push(val);") [] := .fixed rfl rfl
  have hval : Proper [] (atomsOf " = val;") [] := .fixed rfl rfl
  unfold takeAtoms
  split
  · exact proper_self.append (.word h hpush (by decide))
  · exact proper_self.append (.word h hval (by decide))

/-- An arm closes its brace and the one of its refusal, whatever texts it has in literals. The only
name in it that is not fixed is that of the field. -/
theorem proper_arm {a : Arm} (h : Word a.field.text.toList) : Proper [] (armAtoms a) [] := by
  have hlet : Proper [] (atomsOf " => \x7blet ::propkit::Value::") [.brace] :=
    .fixed rfl rfl
  have helse : Proper [.brace] (atomsOf "(val) = value else \x7b") [.brace, .brace] :=
    .fixed rfl rfl
  have hback : Proper [.brace, .brace] (atomsOf "\x7d;") [.brace] := .fixed rfl rfl
  have hkind := Proper.word (word_variant a.kind) helse (by decide)
  exact ((Proper.literal hlet (by decide)).append hkind).append
    ((proper_refusal a.mismatch).within.append
      (hback.append ((proper_take h).within.append proper_closeBrace)))

/-- The function that loads a record closes all that it opens, with any number of resets and arms
inside. The parts are stated with the groups that are open around them, from the line of the
function in to the arms and out again. -/
theorem proper_load {i : Implementation} (h : i.Lexical) : Proper [] (loadAtoms i) [] := by
  have hload : Proper [] (atomsOf "fn load(") [.paren] := .fixed rfl rfl
  have hself : Proper [.paren] (atomsOf "&mut self,") [.paren] := .fixed rfl rfl
  have hprops : Proper [.paren] (atomsOf "props: ::std::vec::Vec<::propkit::Property>,") [.paren] :=
    .fixed rfl rfl
  have hresult : Proper [.paren] (opensBody ") -> ::propkit::PropertyResult<()>") [.brace] :=
    .body rfl rfl
  have hfor : Proper [.brace] (opensBody "for prop in props") [.brace, .brace] :=
    .body rfl rfl
  have hlet : Proper [.brace, .brace]
      (atomsOf "let ::propkit::Property \x7b name, value, .. \x7d = prop;") [.brace, .brace] :=
    .fixed rfl rfl
  have hmatch : Proper [.brace, .brace] (opensBody "match name.as_str()")
      [.brace, .brace, .brace] := .body rfl rfl
  have hother : Proper [] (atomsOf "_ => \x7b\x7d") [] := .fixed rfl rfl
  have hok : Proper [] (atomsOf "::std::result::Result::Ok(())") [] := .fixed rfl rfl
  -- the three bodies are closed one after the other, each under one bracket less
  have hend := hother.within.append ((proper_closeBrace.under [.brace, .brace]).append
    ((proper_closeBrace.under [.brace]).append (hok.within.append proper_closeBrace)))
  have harms : Proper [.brace, .brace, .brace] (i.arms.flatMap armAtoms)
      [.brace, .brace, .brace] := .flatMap fun a ha => proper_arm (h.arms a ha)
  have hresets : Proper [.brace] (i.resets.flatMap resetAtoms) [.brace] :=
    .flatMap fun f hf => proper_reset (h.resets f hf)
  exact hload.append (hself.append (hprops.append (hresult.append (hresets.append (hfor.append
    (hlet.append (hmatch.append (harms.append hend))))))))

/-! ## Saving -/

/-- The content of a property is read up to the parenthesis behind it, which closes one that was
opened in front. -/
theorem proper_content {s : Saving} (h : Word s.field.text.toList) :
    Proper [.paren] (contentAtoms s) [] := by
  have hclone : Proper [.paren] (atomsOf ".clone())") [] := .fixed rfl rfl
  unfold contentAtoms
  split
  · split
    · exact .fixed rfl rfl
    · exact .fixed rfl rfl
  · split
    · exact proper_self.within.append (.word h proper_closeParen (by decide))
    · exact proper_self.within.append (.word h hclone (by decide))

theorem proper_marks (s : Saving) : Proper [] (markAtoms s) [] := by
  have hmultiple : Proper [] (atomsOf ".multiple()") [] := .fixed rfl rfl
  have hnoIndex : Proper [] (atomsOf ".no_index()") [] := .fixed rfl rfl
  unfold markAtoms
  cases s.loop with
  | false =>
    cases s.noIndex with
    | false => exact .nil
    | true => exact hnoIndex
  | true =>
    cases s.noIndex with
    | false => exact hmultiple.append .nil
    | true => exact hmultiple.append hnoIndex

/-- The statement that adds a property closes its three parentheses, with the marks outside of the
inner two. -/
theorem proper_push {s : Saving} (h : Word s.field.text.toList) :
    Proper [] (pushAtoms s) [] := by
  have hpush : Proper [] (atomsOf "props.push(::propkit::Property::new(") [.paren, .paren] :=
    .fixed rfl rfl
  have hvalue : Proper [.paren, .paren] (atomsOf ",::propkit::Value::") [.paren, .paren] :=
    .fixed rfl rfl
  have hopen : Proper [.paren, .paren] (atomsOf "(") [.paren, .paren, .paren] :=
    .fixed rfl rfl
  have hend : Proper [.paren] (atomsOf ");") [] := .fixed rfl rfl
  have hclose := proper_closeParen.under [.paren]
  exact ((hpush.append (.literal hvalue (by decide))).append
    (.word (word_variant s.kind) hopen (by decide))).append
      (((proper_content h).under [.paren, .paren]).append
        (hclose.append ((proper_marks s).within.append hend)))

theorem proper_saving {s : Saving} (h : Word s.field.text.toList) :
    Proper [] (savingAtoms s) [] := by
  have hfor : Proper [] (atomsOf "for elem in &self.") [] := .fixed rfl rfl
  have hopen : Proper [] (atomsOf "\x7b") [.brace] := .fixed rfl rfl
  unfold savingAtoms
  split
  · exact (hfor.append (.word h hopen (by decide))).append ((proper_push h).within.append
      proper_closeBrace)
  · exact proper_push h

/-- The function that saves a record closes all that it opens, with any number of statements inside.
-/
theorem proper_save {i : Implementation} (h : i.Lexical) : Proper [] (saveAtoms i) [] := by
  have hsave : Proper [] (opensBody
      "fn save(&self) -> ::propkit::PropertyResult<::std::vec::Vec<::propkit::Property>>")
      [.brace] := .body rfl rfl
  have hlet : Proper [.brace] (atomsOf "let mut props = ::std::vec::Vec::new();") [.brace] :=
    .fixed rfl rfl
  have hok : Proper [] (atomsOf "::std::result::Result::Ok(props)") [] := .fixed rfl rfl
  have hsavings : Proper [.brace] (i.savings.flatMap savingAtoms) [.brace] :=
    .flatMap fun s hs => proper_saving (h.savings s hs)
  exact hsave.append (hlet.append (hsavings.append (hok.within.append proper_closeBrace)))

/-- An implementation closes all that it opens. The blank in front of the type is the one gap that
stands between fixed texts, so the line is evaluated as a whole. -/
theorem proper_implementation {i : Implementation} (h : i.Lexical) :
    Proper [] (implementationAtoms i) [] := by
  have himpl : Proper [] (atomsOf "impl ::propkit::PropertyLoadSaver" ++ .gap :: atomsOf "for ")
      [] := .of_check (by rw [atomsOf_eq rfl, atomsOf_eq rfl]; rfl)
  have hopen : Proper [] (atomsOf " \x7b") [.brace] := .fixed rfl rfl
  exact (himpl.append (.word h.typeName hopen (by decide))).append
    ((proper_load h).within.append ((proper_save h).within.append proper_closeBrace))

end ModuleText

/-! ## Modules -/

open ModuleText in
/-- **A module is read as the pieces of its parts**, which come behind the documentation. -/
theorem Module.readTrees_text {m : Module} (h : m.Lexical) :
    ∃ ts, readTrees m.text = some ts ∧ Tree.atomsAll ts =
      Tree.atomsAll (docs.flatMap (docAttribute true)) ++ kept (moduleAtoms m) := by
  have hconstants : Proper [] (m.constants.flatMap constantAtoms) [] :=
    .flatMap fun c hc => proper_constant (h.constants c hc)
  have himpls : Proper [] (m.implementations.flatMap implementationAtoms) [] :=
    .flatMap fun i hi => proper_implementation (h.implementations i hi)
  have hproper : Proper [] (moduleAtoms m) [] :=
    proper_header.append ((proper_import h.names).append (hconstants.append himpls))
  exact readTrees_filled docs_spec (text_eq_docs m) ((holds_furtherItems m).filled _ _ _ _)
    hproper.sound (hproper.closes [])

end StoreModel
