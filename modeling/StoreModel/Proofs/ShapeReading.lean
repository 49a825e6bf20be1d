import StoreModel.Proofs.ImportNames
import StoreModel.Proofs.KeyArguments
import StoreModel.Proofs.Lexing
import StoreModel.Proofs.StorableTypes

/-!
# Texts of shapes are read back

`Shape.text` writes a shape as a type, and such a text can be read as a type again and classified.
What comes back is the shape, but for one thing: the text does not tell a sequence of bytes from
bytes, and `Shape.ofType` always takes it for bytes. So shapes of types never hold a sequence of
bytes, and all shapes without one come back as they are (`Shape.ofType_of_text`).

The text is a chain of names in which each has the next one as its only argument, as deep as one
likes. The brackets that close it stand side by side, and scanning joins them into what looks like
shift operators. Readers ask for single characters of operators, so whether brackets are joined does
not matter (`ChainTrees`); the reader of an argument has to stop before any number of them
(`Closes`).
-/

set_option autoImplicit false

namespace StoreModel.Source

open StoreModel.Text

variable {n : Nested} {ts us rest : List Tree} {stray : Option Delimiter} {v w o : String}
  {c : Char} {cs : List Char}

/-! ## Readers -/

/-- A reader that is known to succeed is taken off the front of the readers behind it. Every reading
below is such a chain, one rewriting for each reader in it. -/
theorem bind_of_ok {α β : Type} {x : Reader α} {f : α → Reader β} {a : α} {s s' : Rest}
    (h : x s = .ok (a, s')) : (x >>= f) s = f a s' := by
  show (x s >>= fun p => f p.1 p.2) = _
  rw [h]
  rfl

theorem bind_ahead {β : Type} (f : List Tree → Reader β) :
    (ahead >>= f) ⟨ts, stray⟩ = f ts ⟨ts, stray⟩ := rfl

/-- An operator of one character is read off that character whether or not it is joined to what
follows; so a bracket that scanning has joined to its neighbour still closes an argument. -/
theorem readOp_char (ho : o.toList = [c]) {joint : Bool} :
    readOp o ⟨.punct c joint :: rest, stray⟩ = .ok (Tree.operator o, ⟨rest, stray⟩) := by
  have hahead : opAhead o (.punct c joint :: rest) = true :=
    (Declaration.opAhead_char_iff ho).mpr ⟨joint, rest, rfl⟩
  rw [Declaration.readOp_eq, if_pos hahead, ← String.length_toList, ho]
  rfl

theorem readIf_of_false {test : List Tree → Bool} {read : Reader (List Tree)}
    (h : test ts = false) : readIf test read ⟨ts, stray⟩ = .ok ([], ⟨ts, stray⟩) := by
  unfold readIf
  rw [bind_ahead, if_neg (Bool.eq_false_iff.mp h)]
  rfl

theorem readMany_of_false {α : Type} {more : List Tree → Bool} {item : Reader α}
    (h : more ts = false) : readMany more item ⟨ts, stray⟩ = .ok ([], ⟨ts, stray⟩) := by
  unfold readMany
  rw [bind_ahead, readManyUpTo, bind_ahead, if_neg (Bool.eq_false_iff.mp h)]
  rfl

/-- A list of one member, read by what its one member is read by. The end is seen behind the member,
before a separator is asked for. -/
theorem readListed_single {α : Type} {stop : List Tree → Bool} {item : Reader α} {a : α}
    (hstart : stop ts = false) (hitem : item ⟨ts, stray⟩ = .ok (a, ⟨rest, stray⟩))
    (hend : stop rest = true) :
    readListed stop item ⟨ts, stray⟩ = .ok (([a], false), ⟨rest, stray⟩) := by
  unfold readListed
  rw [bind_ahead, readSeparatedUpTo, bind_ahead, if_neg (Bool.eq_false_iff.mp hstart),
    bind_of_ok hitem, bind_ahead, if_pos hend]
  rfl

/-! ## What stands behind a word -/

theorem opAhead_word (ho : o.toList = c :: cs) : opAhead o (.word w :: ts) = false := by
  unfold opAhead
  rw [ho]
  cases cs with
  | nil => rfl
  | cons d cs => rfl

/-- Asking for a keyword finds none at a name. The names of types are no keywords, which is all that
is used of them, so no pair of words is ever compared. -/
theorem wordIsAhead_eq_false (hw : isKeyword w = false) (hv : isKeyword v = true) :
    wordIsAhead v (.word w :: ts) = false := by
  unfold wordIsAhead
  rw [beq_eq_false_iff_ne]
  rintro rfl
  rw [hw] at hv
  cases hv

theorem someWordAhead_eq_false {ws : List String} (hw : isKeyword w = false)
    (hws : ws.all isKeyword = true) : someWordAhead ws (.word w :: ts) = false := by
  show ws.contains w = false
  rw [Bool.eq_false_iff]
  intro hmem
  have hkey := List.all_eq_true.mp hws w (List.contains_iff_mem.mp hmem)
  rw [hw] at hkey
  cases hkey

/-- An argument ends before this. -/
def Closes (ts : List Tree) : Prop := ts = [] ∨ ∃ joint us, ts = .punct '>' joint :: us

/-- Before the end of an argument no operator is seen but one that begins with the closing bracket
itself. This is what makes each optional part of a path, a segment or a type absent there. -/
theorem Closes.opAhead (h : Closes ts) (ho : o.toList = c :: cs) (hc : c ≠ '>') :
    opAhead o ts = false := by
  unfold Source.opAhead
  rw [ho]
  rcases h with rfl | ⟨joint, us, rfl⟩
  · cases cs with
    | nil => rfl
    | cons d cs => rfl
  · cases cs with
    | nil => simpa [joinedAhead] using hc
    | cons d cs => simp [joinedAhead, hc]

/-! ## Names with an argument -/

/-- A segment that begins with a name has arguments exactly if a bracket follows that is no
comparison or shift. The special names are out because none of them is a name here, and the name
itself is read before anything is decided. -/
theorem readSegment_word (hw : isKeyword w = false) :
    readSegment n false ⟨.word w :: ts, stray⟩ =
      if opAhead "<" ts && !opAhead "<=" ts && !opAhead "<<=" ts ||
          opAhead "::" ts && opAhead "<" (past 2 ts) then
        (readArgs n >>= fun p => pure (.generic w p.1 p.2.1 p.2.2)) ⟨ts, stray⟩
      else .ok (.plain w, ⟨ts, stray⟩) := by
  have hbare : someWordAhead bareNames (.word w :: ts) = false :=
    someWordAhead_eq_false hw (by decide)
  have hself : wordIsAhead "Self" (.word w :: ts) = false := wordIsAhead_eq_false hw (by decide)
  have hname : readIdent ⟨.word w :: ts, stray⟩ = .ok (w, ⟨ts, stray⟩) := by
    rw [readIdent_word, hw]
    rfl
  unfold readSegment
  -- the three tests in the order they are made: special names, `Self`, any name
  rw [bind_ahead, if_neg (Bool.eq_false_iff.mp hbare), bind_ahead,
    if_neg (Bool.eq_false_iff.mp hself), bind_of_ok hname]
  show (if (!false && _ && _ && _ || _) = true then _ else _ : Reader Segment) _ = _
  rw [Bool.not_false, Bool.true_and]
  split
  · rfl
  · rfl

theorem readSegment_plain_of_closes (hw : isKeyword w = false) (hrest : Closes rest) :
    readSegment n false ⟨.word w :: rest, stray⟩ = .ok (.plain w, ⟨rest, stray⟩) := by
  have hangle : opAhead "<" rest = false := hrest.opAhead rfl (by decide)
  have hcolons : opAhead "::" rest = false := hrest.opAhead rfl (by decide)
  rw [readSegment_word hw, if_neg (by simp [hangle, hcolons])]

/-- An argument that begins with a name is read as a type. It could still be a constant or, behind
the type, an equation or a bound; a name rules out the first and the end of the argument the others.
-/
theorem readArg_type {t : Ty} (hw : isKeyword w = false) (hrest : Closes rest)
    (ht : n.type true ⟨.word w :: ts, stray⟩ = .ok (t, ⟨rest, stray⟩)) :
    readArg n ⟨.word w :: ts, stray⟩ = .ok ((false, .type t), ⟨rest, stray⟩) := by
  have hconstant : constantAhead (.word w :: ts) = false := by
    have htrue : wordIsAhead "true" (.word w :: ts) = false := wordIsAhead_eq_false hw (by decide)
    have hfalse : wordIsAhead "false" (.word w :: ts) = false :=
      wordIsAhead_eq_false hw (by decide)
    show (wordIsAhead "true" (.word w :: ts) || wordIsAhead "false" (.word w :: ts) || false) = _
    rw [htrue, hfalse]
    rfl
  have hassigned : opAhead "=" rest = false := hrest.opAhead rfl (by decide)
  have hbounded : opAhead ":" rest = false := hrest.opAhead rfl (by decide)
  unfold readArg
  rw [bind_ahead, if_neg (by simp [lifetimeAhead]), if_neg (Bool.eq_false_iff.mp hconstant),
    bind_of_ok ht, bind_ahead]
  dsimp only
  split
  · rw [if_neg (Bool.eq_false_iff.mp hassigned), if_neg (Bool.eq_false_iff.mp hbounded)]
    rfl
  · rfl

/-- A name with one argument, from the reading of that argument. The tests for the longer operators
that begin with the opening bracket fail on any name behind it, so joining does not matter here
either. -/
theorem readSegment_generic {t : Ty} {joint joint' : Bool} (hw : isKeyword w = false)
    (hv : isKeyword v = false)
    (ht : n.type true ⟨.word v :: ts, stray⟩ = .ok (t, ⟨.punct '>' joint' :: rest, stray⟩)) :
    readSegment n false ⟨.word w :: .punct '<' joint :: .word v :: ts, stray⟩ =
      .ok (.generic w false [.type t] false, ⟨rest, stray⟩) := by
  have hlisted : readListed (opAhead ">") (readArg n) ⟨.word v :: ts, stray⟩ =
      .ok (([(false, .type t)], false), ⟨.punct '>' joint' :: rest, stray⟩) :=
    readListed_single rfl (readArg_type hv (Or.inr ⟨joint', rest, rfl⟩) ht) rfl
  have hargs : readArgs n ⟨.punct '<' joint :: .word v :: ts, stray⟩ =
      .ok ((false, [.type t], false), ⟨rest, stray⟩) := by
    unfold readArgs optionalOp
    rw [bind_of_ok (readIf_of_false rfl), bind_of_ok (readOp_char rfl), bind_of_ok hlisted]
    dsimp only
    rw [bind_of_ok (readOp_char rfl)]
    rfl
  -- no operator that begins with the bracket is longer than it
  have hangle : (opAhead "<" (.punct '<' joint :: .word v :: ts) &&
      !opAhead "<=" (.punct '<' joint :: .word v :: ts) &&
      !opAhead "<<=" (.punct '<' joint :: .word v :: ts)) = true := by
    cases joint
    · rfl
    · rfl
  rw [readSegment_word hw, hangle, Bool.true_or, if_pos rfl, bind_of_ok hargs]
  rfl

/-- A type that begins with a name is the path of its one segment: nothing that introduces another
form of a type is a name, and what a path could go on with does not stand before the end of an
argument. -/
theorem readTypeForm_word {s : Segment} (hw : isKeyword w = false)
    (hs : readSegment n false ⟨.word w :: ts, stray⟩ = .ok (s, ⟨rest, stray⟩))
    (hts : opAhead "#" ts = false) (hrest : Closes rest) :
    readTypeForm n true ⟨.word w :: ts, stray⟩ = .ok (.path false [s], ⟨rest, stray⟩) := by
  have hpath : readPath n false ⟨.word w :: ts, stray⟩ = .ok ((false, [s]), ⟨rest, stray⟩) := by
    have hcolons : opAhead "::" rest = false := hrest.opAhead rfl (by decide)
    unfold readPath optionalOp
    rw [bind_of_ok (readIf_of_false (opAhead_word rfl)), bind_of_ok hs,
      bind_of_ok (readMany_of_false (by simp [hcolons]))]
    rfl
  have htype : readPathType n true [] ⟨.word w :: ts, stray⟩ =
      .ok (.path false [s], ⟨rest, stray⟩) := by
    have hbang : opAhead "!" rest = false := hrest.opAhead rfl (by decide)
    have hplus : opAhead "+" rest = false := hrest.opAhead rfl (by decide)
    unfold readPathType
    rw [bind_of_ok hpath]
    dsimp only
    rw [bind_ahead, if_neg (by simp [bangAhead, hbang]), if_neg (by simp [hplus])]
    rfl
  have hbinder : readBinder n ⟨.word w :: ts, stray⟩ = .ok ([], ⟨.word w :: ts, stray⟩) :=
    readIf_of_false (wordIsAhead_eq_false hw (by decide))
  have hfunction : someWordAhead ["fn", "unsafe", "extern"] (.word w :: ts) = false :=
    someWordAhead_eq_false hw (by decide)
  have hbuiltin : builtinAhead (.word w :: ts) = false := by simp [builtinAhead, past, hts]
  have hword : pathWordAhead (.word w :: ts) = true := by simp [pathWordAhead, identAhead, hw]
  unfold readTypeForm
  -- every other form of a type is asked for first, and a path is what is left
  rw [bind_ahead, if_neg (by simp [groupAhead]), bind_of_ok hbinder, bind_ahead,
    if_neg (by simp), if_neg (by simp [groupAhead]), if_neg (Bool.eq_false_iff.mp hfunction),
    if_neg (Bool.eq_false_iff.mp hbuiltin), if_pos (by rw [hword, Bool.true_or])]
  exact htype

/-! ## Chains of names -/

/-- The text of names, each with the next as its argument. -/
def chainText : List String → List Char
  | [] => []
  | [w] => w.toList
  | w :: ws => w.toList ++ '<' :: (chainText ws ++ ['>'])

/-- The type of names, each with the next as its argument. -/
def chainType : List String → Ty
  | [] => .path false []
  | [w] => .path false [.plain w]
  | w :: ws => .path false [.generic w false [.type (chainType ws)] false]

/-- Tokens of names, each with the next as its argument. -/
inductive ChainTrees : List String → List Tree → Prop
  | last (w : String) : ChainTrees [w] [.word w]
  | cons (w : String) {v : String} {ws : List String} {ts : List Tree} (joint joint' : Bool)
    (h : ChainTrees (v :: ws) (.word v :: ts)) :
    ChainTrees (w :: v :: ws)
      (.word w :: .punct '<' joint :: .word v :: (ts ++ [.punct '>' joint']))

theorem sizeAll_append (ts us : List Tree) :
    Tree.sizeAll (ts ++ us) = Tree.sizeAll ts + Tree.sizeAll us := by
  induction ts with
  | nil => simp [Tree.sizeAll]
  | cons t ts ih => rw [List.cons_append, Tree.sizeAll, Tree.sizeAll, ih, Nat.add_assoc]

/-- A chain is no deeper than its tokens are many, so the depth that the reader of a whole text
allows itself is enough for every chain. -/
theorem ChainTrees.length_le {ws : List String} (h : ChainTrees ws ts) :
    ws.length ≤ Tree.sizeAll ts := by
  induction h with
  | last w => exact Nat.le_refl _
  | cons w joint joint' _ ih =>
    simp only [List.length_cons, Tree.sizeAll, Tree.size, sizeAll_append] at ih ⊢
    omega

/-- A chain is read from its tokens, however deep it goes, if the reader may go as deep. The
induction is on the chain; what stands behind is any end of an argument, since one level down it is
a bracket and at the top nothing. -/
theorem ChainTrees.readType {ws : List String} (h : ChainTrees ws ts)
    (hws : ∀ w ∈ ws, isKeyword w = false) {depth : Nat} (hdepth : ws.length ≤ depth)
    (hrest : Closes rest) :
    (nestedAt depth).type true ⟨ts ++ rest, stray⟩ = .ok (chainType ws, ⟨rest, stray⟩) := by
  induction h generalizing depth rest with
  | last w =>
    obtain ⟨depth, rfl⟩ := Nat.exists_eq_add_one_of_ne_zero (Nat.ne_of_gt hdepth)
    have hw : isKeyword w = false := hws w List.mem_cons_self
    exact readTypeForm_word hw (readSegment_plain_of_closes hw hrest)
      (hrest.opAhead rfl (by decide)) hrest
  | cons w joint joint' _ ih =>
    obtain ⟨depth, rfl⟩ :=
      Nat.exists_eq_add_one_of_ne_zero (Nat.ne_of_gt (Nat.zero_lt_of_lt hdepth))
    obtain ⟨hw, hws⟩ := List.forall_mem_cons.mp hws
    have hargument := ih hws (Nat.le_of_succ_le_succ hdepth) (Or.inr ⟨joint', rest, rfl⟩)
    rw [List.cons_append, List.cons_append, List.cons_append, List.append_assoc]
    exact readTypeForm_word hw (readSegment_generic hw (hws _ List.mem_cons_self) hargument) rfl
      hrest

/-- The text of a chain begins with the first character of its first name. Two things rest on this:
no byte order mark is in front, and no name runs on into the one behind the bracket. -/
theorem chainText_head {ws : List String} (hws : ∀ w ∈ ws, Word w.toList) (hne : ws ≠ []) :
    ∃ c r, chainText ws = c :: r ∧ isWordStart c = true := by
  cases ws with
  | nil => exact absurd rfl hne
  | cons w ws =>
    obtain ⟨c, r, hw, hc⟩ := (hws w List.mem_cons_self).exists_head
    cases ws with
    | nil => exact ⟨c, r, hw, hc⟩
    | cons v ws => exact ⟨c, _, congrArg (· ++ '<' :: (chainText (v :: ws) ++ ['>'])) hw, hc⟩

/-- A word ends at a sign. Of the signs only `#` is kept out, which could make a word the beginning
of a raw literal. -/
theorem endsWord_sign (hc : c ∈ signs) (hhash : c ≠ '#') : EndsWord (c :: cs) := by
  intro d hd
  cases hd
  obtain ⟨hcontinue, -, -, hquote, hsingle⟩ := signs_spec _ hc
  exact ⟨hcontinue, by simp [hquote, hsingle, hhash]⟩

/-- A chain is scanned as its tokens, whatever ends its last name. Which brackets are joined depends
on what follows, so the tokens are only claimed to exist; `ChainTrees` leaves that open for the
reader too. -/
theorem scans_chain {ws : List String} {ls : List Lexeme} (hws : ∀ w ∈ ws, Word w.toList)
    (hne : ws ≠ []) (h : Scans cs ls) (hends : EndsWord cs) (hstroke : '/' ∉ cs.head?) :
    ∃ ts, ChainTrees ws ts ∧ Scans (chainText ws ++ cs) (ts.map .leaf ++ ls) := by
  induction ws generalizing cs ls with
  | nil => exact absurd rfl hne
  | cons w ws ih =>
    obtain ⟨hw, hws⟩ := List.forall_mem_cons.mp hws
    cases ws with
    | nil => exact ⟨[.word w], .last w, h.word hw hends⟩
    | cons v ws =>
      have hangle : '<' ∈ signs ∧ '>' ∈ signs := by simp [signs]
      -- the shorter chain ends at the closing bracket, whatever the longer one ends at
      obtain ⟨ts, hts, hscans⟩ := ih hws (List.cons_ne_nil _ _) (h.sign hangle.2 hstroke)
        (endsWord_sign hangle.2 (by decide)) (by simp)
      have hhead : '/' ∉ (chainText (v :: ws) ++ '>' :: cs).head? := by
        obtain ⟨c, r, hr, hc⟩ := chainText_head hws (List.cons_ne_nil v ws)
        rw [hr]
        simpa using (ne_of_isWordStart hc (by decide) : c ≠ '/')
      have hall := (hscans.sign hangle.1 hhead).word hw (endsWord_sign hangle.1 (by decide))
      obtain ⟨us, rfl⟩ : ∃ us, ts = .word v :: us := by
        cases hts with
        | last => exact ⟨_, rfl⟩
        | cons => exact ⟨_, rfl⟩
      have htext : chainText (w :: v :: ws) ++ cs =
          w.toList ++ '<' :: (chainText (v :: ws) ++ '>' :: cs) := by simp [chainText]
      rw [htext]
      refine ⟨_, .cons w (punctAhead (chainText (v :: ws) ++ '>' :: cs)) (punctAhead cs) hts, ?_⟩
      have hopening : ∀ joint, signLexeme '<' joint = .leaf (.punct '<' joint) := fun _ => rfl
      have hclosing : ∀ joint, signLexeme '>' joint = .leaf (.punct '>' joint) := fun _ => rfl
      simpa [hopening, hclosing] using hall

/-- **The text of a chain is read as its type.** -/
theorem readText_chain {s : String} {ws : List String} (hs : s.toList = chainText ws)
    (hne : ws ≠ []) (hwords : ∀ w ∈ ws, Word w.toList) (hnames : ∀ w ∈ ws, isKeyword w = false) :
    readText (readTrees s) readType = .ok (chainType ws) := by
  obtain ⟨ts, hts, hscans⟩ := scans_chain hwords hne scans_nil endsWord_nil (by simp)
  rw [List.append_nil, List.append_nil] at hscans
  have hmark : dropByteOrderMark s.toList = s.toList := by
    obtain ⟨c, r, hr, hc⟩ := chainText_head hwords hne
    rw [hs, hr]
    exact if_neg (ne_of_isWordStart hc (by decide))
  have hnest : nest (ts.map .leaf) [] [] = some ts := by
    have hleaves := nest_leaves ts [] [] []
    rw [List.append_nil, List.append_nil] at hleaves
    rw [hleaves, nest, List.reverse_reverse]
  have htrees : readTrees s = some ts := readTrees_of_scans hmark (hs ▸ hscans) hnest
  -- the reader of a whole text may go four times as deep as there are tokens, and eight more
  have hdepth : ws.length ≤ 4 * Tree.sizeAll ts + 8 := by
    have := hts.length_le
    omega
  have hread : readType ⟨ts, none⟩ = .ok (chainType ws, ⟨[], none⟩) := by
    have htype : (nestedFor ts).type true ⟨ts ++ [], none⟩ = .ok (chainType ws, ⟨[], none⟩) :=
      hts.readType hnames hdepth (Or.inl rfl)
    rw [List.append_nil] at htype
    exact htype
  unfold readText
  rw [htrees]
  dsimp only
  rw [hread]

end StoreModel.Source

namespace StoreModel.Shape

open StoreModel.Source

/-! ## Texts of shapes -/

/-- The shape is this one, or its elements contain it. -/
inductive Contains : Shape → Shape → Prop
  | self (s : Shape) : Contains s s
  | element {s part : Shape} (h : Contains s part) : Contains (.seq s) part

/-- The shape with bytes for a sequence of bytes. -/
def collapsed : Shape → Shape
  | .seq .u8 => .bytes
  | .seq s => .seq s.collapsed
  | s => s

/-- The names in the text of a shape, each with the next as its argument. -/
def names : Shape → List String
  | .bool => ["bool"]
  | .i64 => ["i64"]
  | .f64 => ["f64"]
  | .u8 => ["u8"]
  | .string => ["String"]
  | .bytes => ["Vec", "u8"]
  | .byteString => ["ByteString"]
  | .timestamp => ["DateTime", "Utc"]
  | .seq s => "Vec" :: s.names
  | .unsupported _ => []

/-- All names in texts of shapes. -/
def typeNames : List String :=
  ["bool", "i64", "f64", "u8", "String", "ByteString", "DateTime", "Utc", "Vec"]

variable {s : Shape} {t : Ty}

theorem typeNames_spec : ∀ w ∈ typeNames, Word w.toList ∧ isKeyword w = false := by
  simp only [typeNames, List.forall_mem_cons, List.not_mem_nil, false_imp_iff, implies_true,
    and_true]
  refine ⟨?_, ?_, ?_, ?_, ?_, ?_, ?_, ?_, ?_⟩
  all_goals exact ⟨word_of_scan rfl (by decide +kernel), by decide⟩

theorem mem_typeNames (s : Shape) : ∀ w ∈ s.names, w ∈ typeNames := by
  induction s with
  | seq s ih =>
    rw [names, List.forall_mem_cons]
    exact ⟨by simp [typeNames], ih⟩
  | _ => simp [names, typeNames]

theorem names_ne_nil (h : ∀ text, ¬ s.Contains (unsupported text)) : s.names ≠ [] := by
  cases s with
  | unsupported text => exact absurd (.self _) (h text)
  | _ => exact List.cons_ne_nil _ _

/-- The text of a shape is the chain of its names. The induction is on the shape; a sequence is the
one case with something to show, as a chain is written by its second name. -/
theorem toList_text (h : ∀ text, ¬ s.Contains (unsupported text)) :
    s.text.toList = chainText s.names := by
  induction s with
  | seq s ih =>
    have hs : ∀ text, ¬ s.Contains (unsupported text) := fun text hpart => h text (.element hpart)
    obtain ⟨v, ws, hnames⟩ := List.exists_cons_of_ne_nil (names_ne_nil hs)
    have htext := ih hs
    rw [hnames] at htext
    rw [names, hnames, text, String.toList_append, String.toList_append, htext]
    simp [chainText]
  | unsupported text => exact absurd (.self _) (h text)
  | _ => rfl

theorem collapsed_seq (s : Shape) : (seq s).collapsed = s.collapsed.vectorOf := by
  cases s with
  | seq s => cases s <;> rfl
  | _ => rfl

/-- The type of a chain of names is classified as the shape that gave the names, with bytes for
sequences of bytes: each sequence is a vector, and vectors of bytes are seen first. -/
theorem ofType_chainType (h : ∀ text, ¬ s.Contains (unsupported text)) :
    ofType (chainType s.names) = s.collapsed := by
  induction s with
  | seq s ih =>
    have hs : ∀ text, ¬ s.Contains (unsupported text) := fun text hpart => h text (.element hpart)
    obtain ⟨v, ws, hnames⟩ := List.exists_cons_of_ne_nil (names_ne_nil hs)
    have happlies : (chainType (seq s).names).Applies "Vec" (chainType s.names) := by
      rw [names, hnames]
      exact ⟨false, false, false, [], rfl⟩
    rw [ofType_of_vector happlies, ih hs, collapsed_seq]
  | unsupported text => exact absurd (.self _) (h text)
  | _ => rfl

/-- Without a sequence of bytes in it a shape is not changed by collapsing, at no depth: what the
elements contain the sequence contains. -/
theorem collapsed_eq_self (h : ¬ s.Contains (seq u8)) : s.collapsed = s := by
  induction s with
  | seq s ih =>
    have hs : s.collapsed = s := ih fun hpart => h (.element hpart)
    have hbyte : s ≠ u8 := by
      rintro rfl
      exact h (.self _)
    rw [collapsed_seq, hs]
    exact vectorOf_eq_iff.mpr (Or.inr ⟨hbyte, rfl⟩)
  | _ => rfl

/-- Types have no shape that contains a sequence of bytes. The induction follows vectors only, as
nothing else nests; there the element is not `u8`, since a vector of that was taken for bytes
before. -/
theorem not_contains_ofType (t : Ty) : ¬ (ofType t).Contains (seq u8) := by
  induction t using Ty.vectorInduction with
  | step t ih =>
    have hshaped := t.shapedAs_ofType
    generalize ofType t = s at hshaped
    intro hpart
    cases hshaped with
    | scalar _ hs =>
      rw [scalar?_eq_some_iff] at hs
      cases hpart <;> simp at hs
    | timestamp => cases hpart
    | @vector u _ hu hs =>
      rcases vectorOf_eq_iff.mp hs with ⟨-, rfl⟩ | ⟨hbyte, rfl⟩
      · cases hpart
      · -- a sequence contains itself and what its elements contain; neither is one of bytes
        have hu := ih u hu
        generalize ofType u = s at hpart hbyte hu
        cases hpart with
        | self => exact hbyte rfl
        | element hpart => exact hu hpart
    | unsupported => cases hpart

theorem bytes_not_refused {u : Ty} (h : t.Applies "Vec" u) (hu : ofType u = u8) :
    (ofType t).mapping ≠ .error .element := by
  rw [ofType_of_vector h, hu]
  decide

/-- **Texts of shapes are read back.** The text of a shape without unsupported parts is read as a
type whose shape is that shape again, with bytes for a sequence of bytes; and no type has a shape
with such a sequence, so that vectors of bytes are never refused for their elements. -/
theorem ofType_of_text :
    (∀ s : Shape, (∀ text, ¬ s.Contains (unsupported text)) →
      ∃ t, readText (readTrees s.text) readType = .ok t ∧ ofType t = s.collapsed ∧
        (¬ s.Contains (seq u8) → ofType t = s)) ∧
      (∀ t, ¬ (ofType t).Contains (seq u8)) ∧
      ∀ t u, t.Applies "Vec" u → ofType u = u8 → (ofType t).mapping ≠ .error .element := by
  refine ⟨fun s h => ?_, not_contains_ofType, fun t u h hu => bytes_not_refused h hu⟩
  have hnames : ∀ w ∈ s.names, Word w.toList ∧ isKeyword w = false :=
    fun w hw => typeNames_spec w (mem_typeNames s w hw)
  have hread := readText_chain (toList_text h) (names_ne_nil h) (fun w hw => (hnames w hw).1)
    fun w hw => (hnames w hw).2
  have hshape := ofType_chainType h
  refine ⟨chainType s.names, hread, hshape, fun hpart => ?_⟩
  rw [hshape, collapsed_eq_self hpart]

/-- Three vectors of bytes, one in the other, are read back as two with bytes in them. -/
theorem ofType_of_text_nested :
    ∃ t, readText (readTrees (seq (seq (seq u8))).text) readType = .ok t ∧
      ofType t = .seq (.seq .bytes) := by
  have hsupported : ∀ text, ¬ (seq (seq (seq u8))).Contains (unsupported text) := by
    intro text h
    cases h with
    | element h => cases h with
      | element h => cases h with
        | element h => cases h
  obtain ⟨t, hread, hshape, -⟩ := ofType_of_text.1 _ hsupported
  exact ⟨t, hread, hshape⟩

end StoreModel.Shape
