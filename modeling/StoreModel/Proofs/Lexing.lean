import StoreModel.Proofs.LiteralReading
import StoreModel.Proofs.WordReading

/-!
# Texts that are put together from words, signs and literals

A text that a program prints is put together from pieces that it knows, and a scanner should find
these pieces again. `Atom` is a piece as the printer knows it, and `Filled` says what the text may
look like: the pieces stand in their order, and between any two of them there may be blanks, line
ends and commas, which depend on nothing but the layout. If pieces that could run into each other
are kept apart (`Sound`), the text can be scanned, and what comes out is the pieces
(`Filled.scans`).

Two things are lost on the way and come back nowhere: commas, which the layout adds, and whether a
punctuation character is joined to the next one, which depends on whether a line ends between them.
So tokens are compared by the pieces that they stand for (`Tree.atoms`), and these are the pieces
that were printed, commas and gaps left out (`kept`).
-/

set_option autoImplicit false

namespace StoreModel.Source

open StoreModel.Text

/-! ## Pieces -/

/-- A piece of a text. -/
inductive Atom where
  /-- A place where a blank or a line end has to stand. -/
  | gap
  | word (s : String)
  /-- A bracket or a punctuation character. -/
  | sign (c : Char)
  | literal (s : String)
deriving DecidableEq, Repr, Inhabited

/-- The signs that are told by themselves, whatever follows them. -/
def signs : List Char :=
  ['!', '#', '&', '*', '-', '=', ':', ';', '<', '>', ',', '.', '(', ')', '[', ']', '\x7b', '\x7d']

/-- What stands between pieces. -/
def fillers : List Char := [' ', '\n', ',']

/-- The pieces of a text stand in it, with fillers between them. -/
inductive Filled : List Atom → List Char → Prop where
  | nil : Filled [] []
  | filler {as : List Atom} {cs : List Char} {c : Char} : c ∈ fillers → Filled as cs →
      Filled as (c :: cs)
  | gap {as : List Atom} {cs : List Char} {c : Char} : c = ' ' ∨ c = '\n' → Filled as cs →
      Filled (.gap :: as) (c :: cs)
  | word {as : List Atom} {cs : List Char} (s : String) : Filled as cs →
      Filled (.word s :: as) (s.toList ++ cs)
  | sign {as : List Atom} {cs : List Char} (c : Char) : Filled as cs →
      Filled (.sign c :: as) (c :: cs)
  | literal {as : List Atom} {cs : List Char} (s : String) : Filled as cs →
      Filled (.literal s :: as) ('"' :: (escapeLiteral s.toList ++ '"' :: cs))

/-- What follows begins with a piece that ends a word, and a literal. -/
def startsApart : List Atom → Bool
  | .gap :: _ => true
  | .sign c :: _ => c != '#'
  | _ => false

/-- The pieces can be told from each other in every text they are filled to. -/
def Sound : List Atom → Prop
  | [] => True
  | .gap :: r => Sound r
  | .word s :: r => Word s.toList ∧ startsApart r = true ∧ Sound r
  | .sign c :: r => c ∈ signs ∧ Sound r
  | .literal _ :: r => startsApart r = true ∧ Sound r

variable {as bs : List Atom} {cs rest tail : List Char}

theorem startsApart_append (h : startsApart as = true) : startsApart (as ++ bs) = true := by
  cases as with
  | nil => cases h
  | cons a as =>
    cases a with
    | gap => rfl
    | word s => cases h
    | sign c => exact h
    | literal s => cases h

/-- Sound pieces in front of sound pieces are sound. Nothing is asked of the place where they meet:
a piece that needs another one to end it brings that one along. -/
theorem Sound.append (ha : Sound as) (hb : Sound bs) : Sound (as ++ bs) := by
  induction as with
  | nil => exact hb
  | cons a as ih =>
    cases a with
    | gap => exact ih ha
    | word s => exact ⟨ha.1, startsApart_append ha.2.1, ih ha.2.2⟩
    | sign c => exact ⟨ha.1, ih ha.2⟩
    | literal s => exact ⟨startsApart_append ha.1, ih ha.2⟩

theorem Sound.flatMap {α : Type} {f : α → List Atom} {l : List α} (h : ∀ a ∈ l, Sound (f a)) :
    Sound (l.flatMap f) := by
  induction l with
  | nil => trivial
  | cons a l ih =>
    rw [List.flatMap_cons]
    exact (h a List.mem_cons_self).append (ih fun b hb => h b (List.mem_cons_of_mem _ hb))

/-! ## What a filled text begins with -/

/-- What the scanner could take a sign for, and does not: no sign goes on a word or is passed over,
and none begins a comment, a string or a character. Decided over the list of signs. -/
theorem signs_spec : ∀ c ∈ signs, isWordContinue c = false ∧ isGap c = false ∧ c ≠ '/' ∧
    c ≠ '"' ∧ c ≠ '\'' := by
  have hall : (signs.all fun c => !isWordContinue c && !isGap c && c != '/' && c != '"' &&
    c != '\'') = true := by decide +kernel
  simpa only [List.all_eq_true, Bool.and_eq_true, Bool.not_eq_true', bne_iff_ne, ne_eq,
    and_assoc] using hall

theorem fillers_spec : ∀ c ∈ fillers, isWordContinue c = false ∧ c ≠ '/' ∧ c ≠ '"' ∧ c ≠ '\'' ∧
    c ≠ '#' := by
  have hall : (fillers.all fun c => !isWordContinue c && c != '/' && c != '"' && c != '\'' &&
    c != '#') = true := by decide +kernel
  simpa only [List.all_eq_true, Bool.and_eq_true, Bool.not_eq_true', bne_iff_ne, ne_eq,
    and_assoc] using hall

theorem Word.not_gap {w : List Char} (h : Word w) :
    ∃ c r, w = c :: r ∧ isGap c = false ∧ c ≠ '/' := by
  obtain ⟨c, r, rfl, hc⟩ := h.exists_head
  exact ⟨c, r, rfl, isGap_eq_false hc, ne_of_isWordStart hc (by decide)⟩

/-- Pieces that keep apart from a word end it, in whatever way they are filled. The first character
of the text is a filler or belongs to the first piece, so one step of `Filled` is enough. -/
theorem Filled.endsWord (h : Filled as cs) (hs : Sound as) (ha : startsApart as = true) :
    EndsWord (cs ++ tail) := by
  intro d hd
  cases h with
  | nil => cases ha
  | filler hc _ =>
    cases hd
    obtain ⟨hcontinue, -, hquote, hsingle, hhash⟩ := fillers_spec d hc
    exact ⟨hcontinue, by simp [hquote, hsingle, hhash]⟩
  | gap hc _ =>
    cases hd
    have hmem : d ∈ fillers := by rcases hc with rfl | rfl <;> simp [fillers]
    obtain ⟨hcontinue, -, hquote, hsingle, hhash⟩ := fillers_spec d hmem
    exact ⟨hcontinue, by simp [hquote, hsingle, hhash]⟩
  | word s _ => cases ha
  | sign c _ =>
    cases hd
    obtain ⟨hcontinue, -, -, hquote, hsingle⟩ := signs_spec d hs.1
    have hhash : d ≠ '#' := by simpa [startsApart] using ha
    exact ⟨hcontinue, by simp [hquote, hsingle, hhash]⟩
  | literal s _ => cases ha

/-- No comment begins the text, neither at once nor behind gaps. -/
def Commentless (cs : List Char) : Prop :=
  '/' ∉ cs.head? ∧ '/' ∉ (cs.dropWhile isGap).head?

theorem commentless_nil : Commentless [] := ⟨by simp, by simp⟩

theorem commentless_cons {c : Char} (hgap : isGap c = false) (hstroke : c ≠ '/') :
    Commentless (c :: cs) := by
  unfold Commentless
  rw [List.dropWhile_cons_of_neg (by simp [hgap])]
  exact ⟨by simpa using hstroke, by simpa using hstroke⟩

/-- No filled text begins a comment, whatever fillers are in front of its first piece. Here the
proof is an induction and not a look at the first step, because a comment may begin behind any
number of fillers. -/
theorem Filled.commentless (h : Filled as cs) (hs : Sound as) (htail : Commentless tail) :
    Commentless (cs ++ tail) := by
  induction h with
  | nil => exact htail
  | @filler as cs c hc _ ih =>
    obtain ⟨-, hstroke, -⟩ := fillers_spec c hc
    refine ⟨by simpa using hstroke, ?_⟩
    rw [List.cons_append, List.dropWhile_cons]
    split
    · exact (ih hs).2
    · simpa using hstroke
  | @gap as cs c hc _ ih =>
    refine ⟨by rcases hc with rfl | rfl <;> simp, ?_⟩
    rw [List.cons_append,
      List.dropWhile_cons_of_pos (by rcases hc with rfl | rfl <;> decide)]
    exact (ih hs).2
  | word s _ _ =>
    obtain ⟨c, r, hw, hgap, hstroke⟩ := hs.1.not_gap
    rw [hw, List.cons_append, List.cons_append]
    exact commentless_cons hgap hstroke
  | @sign as cs c _ _ =>
    obtain ⟨-, hgap, hstroke, -⟩ := signs_spec c hs.1
    exact commentless_cons hgap hstroke
  | literal s _ _ => exact commentless_cons (by decide) (by decide)

/-! ## Single pieces -/

/-- A sign as a token. -/
def signLexeme (c : Char) (joint : Bool) : Lexeme :=
  match bracket? [c] with
  | some (l, _) => l
  | none => .leaf (.punct c joint)

/-- A sign is scanned by itself. Only the opening parenthesis looks further, for a mark that begins
with a comment, and that is why no stroke may follow. -/
theorem scanLexemes_sign {c : Char} (hc : c ∈ signs) (hstroke : '/' ∉ cs.head?) :
    scanLexemes (c :: cs) = some ([signLexeme c (punctAhead cs)], cs) := by
  -- an opening parenthesis begins the mark of a fault if a comment follows it
  have hmark : faultMark.isPrefixOf ('(' :: cs) = false := by
    rw [Bool.eq_false_iff]
    intro hpre
    obtain ⟨r, hr⟩ := List.isPrefixOf_iff_prefix.mp hpre
    have hcs : '/' :: ("*ERROR*/)".toList ++ r) = cs := (List.cons.inj hr).2
    rw [← hcs] at hstroke
    exact hstroke rfl
  have hparen : bracket? ('(' :: cs) = some (.opening .paren, cs) := by
    show (if faultMark.isPrefixOf ('(' :: cs) then none
      else some (Lexeme.opening .paren, cs)) = _
    rw [hmark]
    rfl
  by_cases hopen : c = '('
  · rw [hopen]
    unfold scanLexemes
    rw [hparen]
    rfl
  · -- no other sign asks what follows it, so each is evaluated
    simp only [signs, List.mem_cons, List.not_mem_nil, or_false, hopen, false_or] at hc
    obtain rfl | rfl | rfl | rfl | rfl | rfl | rfl | rfl | rfl | rfl | rfl | rfl | rfl | rfl | rfl |
      rfl | rfl := hc
    all_goals rfl

/-- A literal is scanned as the text that it was printed for, whatever ends it. A suffix is looked
for behind the closing quote, so what follows must not begin a word. -/
theorem scanLexemes_literal (s : String) (hr : EndsWord rest) :
    scanLexemes ('"' :: (escapeLiteral s.toList ++ '"' :: rest)) =
      some ([.leaf (.literal (quoteLiteral s) (.string s))], rest) := by
  -- a word right behind the literal would be taken for its suffix
  have hsuffix : skipSuffix rest = rest := by
    unfold skipSuffix
    cases rest with
    | nil => rfl
    | cons d r =>
      have hstart : isWordStart d = false := by
        rw [Bool.eq_false_iff]
        intro hd
        have hcontinue := (hr d rfl).1
        rw [isWordContinue_of_isWordStart hd] at hcontinue
        cases hcontinue
      rw [scanPlainWord, hstart]
      rfl
  have hquoted : scanQuoted .text ((escapeLiteral s.toList ++ '"' :: rest).length + 1)
      (escapeLiteral s.toList ++ '"' :: rest) = some (s.toList, rest) := by
    apply scanQuoted_escapeLiteral
    have hlength := length_le_escapeLiteral s.toList
    rw [List.length_append]
    omega
  have hstring : scanString ('"' :: (escapeLiteral s.toList ++ '"' :: rest)) =
      some (s.toList, rest) := by
    show (scanQuoted .text (_ + 1) _).map _ = _
    rw [hquoted]
    exact congrArg (fun r => some (s.toList, r)) hsuffix
  have hleaf : scanLeaf ('"' :: (escapeLiteral s.toList ++ '"' :: rest)) =
      some (.literal (quoteLiteral s) (.string s), rest) := by
    unfold scanLeaf scanLiteral
    rw [hstring]
    dsimp only
    -- the token keeps the text it was scanned from, which is what the rest is not
    have htake : ('"' :: (escapeLiteral s.toList ++ '"' :: rest)).take
        (('"' :: (escapeLiteral s.toList ++ '"' :: rest)).length - rest.length) =
          '"' :: (escapeLiteral s.toList ++ ['"']) := by
      have hsplit : '"' :: (escapeLiteral s.toList ++ '"' :: rest) =
          '"' :: (escapeLiteral s.toList ++ ['"']) ++ rest := by simp
      rw [hsplit, List.length_append, Nat.add_sub_cancel, List.take_left]
    rw [htake, String.ofList_toList]
    rfl
  show (scanLeaf _).map _ = _
  rw [hleaf]
  rfl

/-! ## Whole texts -/

/-- Tokens that pieces are scanned as. -/
inductive Lexed : List Atom → List Lexeme → Prop where
  | nil : Lexed [] []
  | comma {as : List Atom} {ls : List Lexeme} (joint : Bool) : Lexed as ls →
      Lexed as (signLexeme ',' joint :: ls)
  | gap {as : List Atom} {ls : List Lexeme} : Lexed as ls → Lexed (.gap :: as) ls
  | word {as : List Atom} {ls : List Lexeme} (s : String) : Lexed as ls →
      Lexed (.word s :: as) (.leaf (.word s) :: ls)
  | sign {as : List Atom} {ls : List Lexeme} {c : Char} (hc : c ∈ signs) (joint : Bool) :
      Lexed as ls → Lexed (.sign c :: as) (signLexeme c joint :: ls)
  | literal {as : List Atom} {ls : List Lexeme} (s : String) : Lexed as ls →
      Lexed (.literal s :: as) (.leaf (.literal (quoteLiteral s) (.string s)) :: ls)

/-- Nothing but gaps is passed over in front. -/
def Uncommented (cs : List Char) : Prop := ∀ n, skipGaps (n + 1) cs = cs.dropWhile isGap

theorem uncommented_of_head (h : '/' ∉ (cs.dropWhile isGap).head?) : Uncommented cs := by
  intro n
  rw [skipGaps]
  split
  case h_1 heq =>
    rw [heq] at h
    exact absurd rfl h
  case h_2 => rfl

theorem Commentless.uncommented (h : Commentless cs) : Uncommented cs := uncommented_of_head h.2

/-- The text is scanned as the tokens, with any bound that its length does not exceed. -/
def Scans (cs : List Char) (ls : List Lexeme) : Prop :=
  ∀ n, cs.length < n → lexemes n cs = some ls

theorem scans_nil : Scans [] [] := by
  intro n hn
  obtain ⟨n, rfl⟩ := Nat.exists_eq_add_one_of_ne_zero (Nat.ne_of_gt hn)
  rfl

/-- A gap in front changes nothing about what is scanned. It is passed over together with the gaps
behind it, so the lexer takes the same step with and without it, with one step left over in the
bound. -/
theorem Scans.gap {c : Char} {ls : List Lexeme} (h : Scans cs ls) (hc : isGap c = true)
    (hcs : Uncommented cs) : Scans (c :: cs) ls := by
  intro n hn
  obtain ⟨n, rfl⟩ := Nat.exists_eq_add_one_of_ne_zero (Nat.ne_of_gt (Nat.zero_lt_of_lt hn))
  have hskip : ∀ k, skipGaps (k + 1) (c :: cs) = skipGaps (k + 1) cs := by
    intro k
    rw [skipGaps, skipGaps, List.dropWhile_cons_of_pos hc]
  rw [← h (n + 1) (Nat.lt_of_succ_lt hn), lexemes, lexemes, hskip, hcs, hcs]

/-- One step of the lexer: what is scanned at the front, then the rest. The bound goes down by one,
and the rest is shorter by at least one character, so it still suffices. -/
theorem Scans.step {c : Char} {r : List Char} {ls ls' : List Lexeme} (h : Scans rest ls')
    (hskip : skipGaps ((c :: r).length + 1) (c :: r) = c :: r)
    (hscan : scanLexemes (c :: r) = some (ls, rest)) (hlength : rest.length ≤ r.length) :
    Scans (c :: r) (ls ++ ls') := by
  intro n hn
  rw [List.length_cons] at hn
  obtain ⟨n, rfl⟩ := Nat.exists_eq_add_one_of_ne_zero (Nat.ne_of_gt (Nat.zero_lt_of_lt hn))
  rw [lexemes, hskip]
  dsimp only
  rw [hscan]
  dsimp only
  rw [h n (by omega)]
  rfl

/-- A step of the lexer at a character that is not passed over. All tokens take it in this way; only
documentation, which begins with a stroke, goes through `Scans.step` itself. -/
theorem Scans.token {c : Char} {r : List Char} {ls ls' : List Lexeme} (h : Scans rest ls')
    (hgap : isGap c = false) (hstroke : c ≠ '/')
    (hscan : scanLexemes (c :: r) = some (ls, rest)) (hlength : rest.length ≤ r.length) :
    Scans (c :: r) (ls ++ ls') :=
  h.step (skipGaps_cons hgap hstroke _ _) hscan hlength

theorem Scans.word {s : String} {ls : List Lexeme} (h : Scans cs ls) (hs : Word s.toList)
    (hends : EndsWord cs) : Scans (s.toList ++ cs) (.leaf (.word s) :: ls) := by
  have htoken := scanLexemes_append hs hends
  obtain ⟨c, r, hw, hgap, hstroke⟩ := hs.not_gap
  rw [String.ofList_toList] at htoken
  rw [hw, List.cons_append] at htoken ⊢
  exact h.token hgap hstroke htoken (by simp)

theorem Scans.sign {c : Char} {ls : List Lexeme} (h : Scans cs ls) (hc : c ∈ signs)
    (hcs : '/' ∉ cs.head?) : Scans (c :: cs) (signLexeme c (punctAhead cs) :: ls) := by
  obtain ⟨-, hgap, hstroke, -⟩ := signs_spec c hc
  exact h.token hgap hstroke (scanLexemes_sign hc hcs) le_rfl

/-- **A filled text is scanned as its pieces**, with commas among them, whatever is scanned behind
it. The induction is on how the text is filled, and its cases are of three kinds: a comma is one
more token, other fillers and gaps are passed over, and a piece is scanned as itself because what
follows ends it. -/
theorem Filled.scans {ls' : List Lexeme} (h : Filled as cs) (hs : Sound as)
    (htail : Commentless tail) (hrest : Scans tail ls') :
    ∃ ls, Lexed as ls ∧ Scans (cs ++ tail) (ls ++ ls') := by
  induction h with
  | nil => exact ⟨[], .nil, hrest⟩
  | @filler as cs c hc hcs ih =>
    obtain ⟨ls, hls, hscans⟩ := ih hs
    have hcommentless := hcs.commentless hs htail
    -- of the fillers the comma alone is seen by the scanner
    by_cases hcomma : c = ','
    · rw [hcomma]
      exact ⟨_, .comma _ hls, hscans.sign (by simp [signs]) hcommentless.1⟩
    · have hgap : isGap c = true := by
        simp only [fillers, List.mem_cons, List.not_mem_nil, or_false, hcomma] at hc
        obtain rfl | rfl := hc
        · decide
        · decide
      exact ⟨ls, hls, hscans.gap hgap hcommentless.uncommented⟩
  | @gap as cs c hc hcs ih =>
    obtain ⟨ls, hls, hscans⟩ := ih hs
    have hgap : isGap c = true := by
      obtain rfl | rfl := hc
      · decide
      · decide
    exact ⟨ls, .gap hls, hscans.gap hgap (hcs.commentless hs htail).uncommented⟩
  | @word as cs s hcs ih =>
    obtain ⟨hword, hapart, hs⟩ := hs
    obtain ⟨ls, hls, hscans⟩ := ih hs
    rw [List.append_assoc]
    exact ⟨_, .word s hls, hscans.word hword (hcs.endsWord hs hapart)⟩
  | @sign as cs c hcs ih =>
    obtain ⟨hc, hs⟩ := hs
    obtain ⟨ls, hls, hscans⟩ := ih hs
    exact ⟨_, .sign hc _ hls, hscans.sign hc (hcs.commentless hs htail).1⟩
  | @literal as cs s hcs ih =>
    obtain ⟨hapart, hs⟩ := hs
    obtain ⟨ls, hls, hscans⟩ := ih hs
    have hends : EndsWord (cs ++ tail) := hcs.endsWord hs hapart
    have hlength :
        (cs ++ tail).length ≤ (escapeLiteral s.toList ++ '"' :: (cs ++ tail)).length := by
      simp only [List.length_append, List.length_cons]
      omega
    rw [List.cons_append, List.append_assoc, List.cons_append]
    exact ⟨_, .literal s hls, hscans.token (by decide) (by decide) (scanLexemes_literal s hends)
      hlength⟩

/-! ## Pieces of tokens -/

/-- The piece is seen in the tokens. -/
def Atom.isKept : Atom → Bool
  | .gap => false
  | .sign c => c != ','
  | _ => true

/-- The pieces that are seen in the tokens. -/
def kept (as : List Atom) : List Atom := as.filter Atom.isKept

/-- The signs around a group. -/
def Delimiter.signs : Delimiter → List Atom × List Atom
  | .paren => ([.sign '('], [.sign ')'])
  | .bracket => ([.sign '['], [.sign ']'])
  | .brace => ([.sign '\x7b'], [.sign '\x7d'])
  | .invisible => ([], [])

mutual

/-- The pieces that a tree stands for. -/
def Tree.atoms : Tree → List Atom
  | .word s => [.word s]
  | .punct c _ => kept [.sign c]
  | .literal _ (.string s) => [.literal s]
  | .literal s _ => [.word s]
  | .group d ts => d.signs.1 ++ Tree.atomsAll ts ++ d.signs.2

def Tree.atomsAll : List Tree → List Atom
  | [] => []
  | t :: ts => t.atoms ++ Tree.atomsAll ts

end

def Lexeme.atoms : Lexeme → List Atom
  | .leaf t => t.atoms
  | .opening d => d.signs.1
  | .closing d => d.signs.2

theorem Tree.atomsAll_append (ts us : List Tree) :
    Tree.atomsAll (ts ++ us) = Tree.atomsAll ts ++ Tree.atomsAll us := by
  induction ts with
  | nil => rfl
  | cons t ts ih => rw [List.cons_append, Tree.atomsAll, Tree.atomsAll, ih, List.append_assoc]

theorem atoms_signLexeme {c : Char} (hc : c ∈ signs) (joint : Bool) :
    (signLexeme c joint).atoms = kept [.sign c] := by
  simp only [signs, List.mem_cons, List.not_mem_nil, or_false] at hc
  obtain rfl | rfl | rfl | rfl | rfl | rfl | rfl | rfl | rfl | rfl | rfl | rfl | rfl | rfl | rfl |
    rfl | rfl | rfl := hc
  all_goals rfl

/-- The tokens of pieces stand for the pieces that are kept. Commas among the tokens stand for
nothing, whether they come from pieces or from the layout. -/
theorem Lexed.flatMap_atoms {ls : List Lexeme} (h : Lexed as ls) :
    ls.flatMap Lexeme.atoms = kept as := by
  induction h with
  | nil => rfl
  | comma joint _ ih =>
    rw [List.flatMap_cons, atoms_signLexeme (by simp [signs]), ih]
    rfl
  | gap _ ih => exact ih
  | word s _ ih =>
    rw [List.flatMap_cons, ih]
    rfl
  | @sign as ls c hc joint _ ih =>
    rw [List.flatMap_cons, atoms_signLexeme hc, ih, kept, kept, ← List.filter_append]
    rfl
  | literal s _ ih =>
    rw [List.flatMap_cons, ih]
    rfl

/-- The pieces of the groups that are open, and of the trees in them. -/
def atomsOfOpen (ts : List Tree) : List (Delimiter × List Tree) → List Atom
  | [] => Tree.atomsAll ts.reverse
  | (d, us) :: outer => atomsOfOpen us outer ++ d.signs.1 ++ Tree.atomsAll ts.reverse

/-- A tree that is added stands behind everything that was there, also while groups are open. -/
theorem atomsOfOpen_cons (t : Tree) (ts : List Tree) (outer : List (Delimiter × List Tree)) :
    atomsOfOpen (t :: ts) outer = atomsOfOpen ts outer ++ t.atoms := by
  cases outer with
  | nil =>
    rw [atomsOfOpen, List.reverse_cons, Tree.atomsAll_append, Tree.atomsAll, Tree.atomsAll,
      List.append_nil]
    rfl
  | cons o outer =>
    rw [atomsOfOpen, atomsOfOpen, List.reverse_cons, Tree.atomsAll_append, Tree.atomsAll,
      Tree.atomsAll, List.append_nil, List.append_assoc, List.append_assoc, List.append_assoc]

/-- Nesting loses no piece and moves none: what stands in the groups that are open, in the trees and
in the lexemes to come is, in this order, what stands in the result. -/
theorem atomsAll_of_nest {ls : List Lexeme} {ts res : List Tree}
    {outer : List (Delimiter × List Tree)} (h : nest ls ts outer = some res) :
    Tree.atomsAll res = atomsOfOpen ts outer ++ ls.flatMap Lexeme.atoms := by
  fun_induction nest ls ts outer with
  | case1 ts =>
    cases h
    rw [List.flatMap_nil, List.append_nil]
    rfl
  | case2 => cases h
  | case3 t ls ts outer ih =>
    rw [ih h, atomsOfOpen_cons, List.flatMap_cons, List.append_assoc]
    rfl
  | case4 d ls ts outer ih =>
    -- the opening bracket is written where it stands, although its group is not closed yet
    rw [ih h, atomsOfOpen, List.flatMap_cons, List.reverse_nil, Tree.atomsAll, List.append_nil,
      List.append_assoc]
    rfl
  | case5 => cases h
  | case6 ls ts d us outer ih =>
    rw [ih h, atomsOfOpen_cons, Tree.atoms, atomsOfOpen, List.flatMap_cons]
    simp only [List.append_assoc]
    rfl
  | case7 => cases h

/-! ## Groups that close -/

/-- The groups that are open after a sign. -/
def closeSign (groups : List Delimiter) (c : Char) : Option (List Delimiter) :=
  match bracket? [c], groups with
  | some (.opening d, _), groups => some (d :: groups)
  | some (.closing d, _), e :: groups => if d = e then some groups else none
  | some (.closing _, _), [] => none
  | _, groups => some groups

def Atom.closeIn (groups : List Delimiter) : Atom → Option (List Delimiter)
  | .sign c => closeSign groups c
  | _ => some groups

/-- The groups that are open after pieces, when some were open before. -/
def closeAll (groups : List Delimiter) (as : List Atom) : Option (List Delimiter) :=
  as.foldlM Atom.closeIn groups

theorem closeAll_append {groups groups' : List Delimiter} (h : closeAll groups as = some groups') :
    closeAll groups (as ++ bs) = closeAll groups' bs := by
  unfold closeAll
  rw [List.foldlM_append]
  exact congrArg (· >>= _) h

theorem closeAll_flatMap {α : Type} {f : α → List Atom} {l : List α} {groups : List Delimiter}
    (h : ∀ a ∈ l, closeAll groups (f a) = some groups) :
    closeAll groups (l.flatMap f) = some groups := by
  induction l with
  | nil => rfl
  | cons a l ih =>
    rw [List.flatMap_cons, closeAll_append (h a List.mem_cons_self)]
    exact ih fun b hb => h b (List.mem_cons_of_mem _ hb)

/-- A sign does to the innermost groups what it does, however many are open around them. A closing
bracket finds its group among the inner ones, or it would not have closed without the others. -/
theorem closeSign_outer {groups groups' : List Delimiter} {c : Char}
    (h : closeSign groups c = some groups') (outer : List Delimiter) :
    closeSign (groups ++ outer) c = some (groups' ++ outer) := by
  unfold closeSign at h ⊢
  cases hbracket : bracket? [c] with
  | none =>
    rw [hbracket] at h
    cases h
    rfl
  | some found =>
    obtain ⟨l, r⟩ := found
    rw [hbracket] at h
    obtain ⟨d, rfl | rfl⟩ := bracket?_ok hbracket
    · cases h
      rfl
    · cases groups with
      | nil => cases h
      | cons e groups =>
        simp only [Option.ite_none_right_eq_some, Option.some.injEq] at h
        obtain ⟨rfl, rfl⟩ := h
        exact if_pos rfl

/-- Groups that are open around pieces stay open. -/
theorem closeAll_outer {groups groups' : List Delimiter} (h : closeAll groups as = some groups')
    (outer : List Delimiter) : closeAll (groups ++ outer) as = some (groups' ++ outer) := by
  induction as generalizing groups with
  | nil =>
    cases h
    rfl
  | cons a as ih =>
    have hcons : (a.closeIn groups).bind (closeAll · as) = some groups' := h
    obtain ⟨groups₁, hfirst, hrest⟩ := Option.bind_eq_some_iff.mp hcons
    -- only signs open or close anything, and the outer groups are never the ones they meet
    have hstep : a.closeIn (groups ++ outer) = some (groups₁ ++ outer) := by
      cases a with
      | sign c => exact closeSign_outer hfirst outer
      | gap =>
        cases hfirst
        rfl
      | word s =>
        cases hfirst
        rfl
      | literal s =>
        cases hfirst
        rfl
    show (a.closeIn (groups ++ outer)).bind (closeAll · as) = _
    rw [hstep]
    exact ih hrest

/-- Where the groups of pieces close, nesting their tokens goes on behind them, with trees and open
groups that are told by the pieces. The proof splits by what a sign does: nothing to groups, opening
one, or closing the one on top, which has to be of the same form. -/
theorem Lexed.nest {ls : List Lexeme} {groups groups' : List Delimiter} (h : Lexed as ls)
    (hclose : closeAll groups as = some groups') (ts : List Tree)
    (outer : List (Delimiter × List Tree)) (houter : outer.map Prod.fst = groups) :
    ∃ ts' outer', outer'.map Prod.fst = groups' ∧
      ∀ ls', nest (ls ++ ls') ts outer = nest ls' ts' outer' := by
  induction h generalizing groups ts outer with
  | nil =>
    cases hclose
    exact ⟨ts, outer, houter, fun _ => rfl⟩
  | comma joint _ ih => exact ih hclose _ _ houter
  | gap _ ih => exact ih hclose _ _ houter
  | word s _ ih => exact ih hclose _ _ houter
  | literal s _ ih => exact ih hclose _ _ houter
  | @sign as ls c hc joint _ ih =>
    have hcons : (Atom.closeIn groups (.sign c)).bind (closeAll · as) = some groups' := hclose
    obtain ⟨groups₁, hfirst, hrest⟩ := Option.bind_eq_some_iff.mp hcons
    have hsign : closeSign groups c = some groups₁ := hfirst
    unfold closeSign at hsign
    unfold signLexeme
    -- both sides ask whether the sign is a bracket
    cases hbracket : bracket? [c] with
    | none =>
      rw [hbracket] at hsign
      cases hsign
      exact ih hrest _ _ houter
    | some found =>
      obtain ⟨l, r⟩ := found
      rw [hbracket] at hsign
      obtain ⟨d, rfl | rfl⟩ := bracket?_ok hbracket
      · cases hsign
        exact ih hrest [] ((d, ts) :: outer) (congrArg (d :: ·) houter)
      · cases outer with
        | nil =>
          cases houter
          cases hsign
        | cons o outer =>
          obtain ⟨e, us⟩ := o
          rw [← houter] at hsign
          simp only [List.map_cons, Option.ite_none_right_eq_some, Option.some.injEq] at hsign
          obtain ⟨rfl, houter'⟩ := hsign
          have hnest : ∀ ls, Source.nest (.closing d :: ls) ts ((d, us) :: outer) =
              Source.nest ls (.group d ts.reverse :: us) outer := fun ls => if_pos rfl
          obtain ⟨ts', outer', hopen, hgoes⟩ := ih hrest _ _ houter'
          exact ⟨ts', outer', hopen, fun _ => (hnest _).trans (hgoes _)⟩

/-! ## Documentation in front -/

/-- A line that documents what it stands in. -/
def docLine (line : List Char) : List Char := '/' :: '/' :: '!' :: (line ++ ['\n'])

/-- A line is split off at its end, if it has no line end of any form inside. -/
theorem splitLine_append {line : List Char} (h : ∀ c ∈ line, c ≠ '\n' ∧ c ≠ '\r')
    (cs : List Char) : splitLine (line ++ '\n' :: cs) = (line, '\n' :: cs) := by
  induction line with
  | nil => rfl
  | cons c line ih =>
    obtain ⟨hline, hreturn⟩ := h c List.mem_cons_self
    rw [List.cons_append, splitLine.eq_4 _ _ (fun he => hline he) fun _ he _ => hreturn he,
      ih fun d hd => h d (List.mem_cons_of_mem _ hd)]

theorem wholeLineEnds_of_not_mem {line : List Char} (h : '\r' ∉ line) :
    wholeLineEnds line = true := by
  induction line with
  | nil => rfl
  | cons c line ih =>
    rw [List.mem_cons, not_or] at h
    rw [wholeLineEnds.eq_4 _ _ (fun _ he _ => h.1 he.symm) fun he => h.1 he.symm]
    exact ih h.2

theorem skipGaps_docLine (line cs : List Char) (n : Nat) :
    skipGaps (n + 1) (docLine line ++ cs) = docLine line ++ cs ∧
      (docLine line ++ cs).dropWhile isGap = docLine line ++ cs := by
  have hstroke : isGap '/' = false := by decide
  have hdrop : (docLine line ++ cs).dropWhile isGap = docLine line ++ cs :=
    List.dropWhile_cons_of_neg (by simp [hstroke])
  refine ⟨?_, hdrop⟩
  rw [skipGaps, hdrop]
  rfl

/-- A line of documentation in front of a text is scanned as the attribute it stands for. The line
end belongs to the text behind it and is passed over there. -/
theorem Scans.comment {line : List Char} {ls : List Lexeme} (h : Scans cs ls)
    (hline : ∀ c ∈ line, c ≠ '\n' ∧ c ≠ '\r') (hcs : Uncommented cs) :
    Scans (docLine line ++ cs) ((docAttribute true line).map .leaf ++ ls) := by
  have hends : wholeLineEnds line = true :=
    wholeLineEnds_of_not_mem fun hmem => (hline _ hmem).2 rfl
  have hscan : scanLexemes (docLine line ++ cs) =
      some ((docAttribute true line).map .leaf, '\n' :: cs) := by
    have hdoc : docComment (docLine line ++ cs) = some (true, line, '\n' :: cs) := by
      show some (true, splitLine (line ++ ['\n'] ++ cs)) = _
      rw [List.append_assoc, List.singleton_append, splitLine_append hline]
    have hbracket : bracket? (docLine line ++ cs) = none := rfl
    unfold scanLexemes
    rw [hbracket, hdoc]
    dsimp only
    rw [hends]
    rfl
  have hgap : isGap '\n' = true := by decide
  have hlength : ('\n' :: cs).length ≤ ('/' :: '!' :: (line ++ ['\n']) ++ cs).length := by
    simp only [List.length_append, List.length_cons, List.length_nil]
    omega
  exact (h.gap hgap hcs).step (skipGaps_docLine line cs _).1 hscan hlength

/-- Lines of documentation are scanned one by one. That the text behind them begins no comment is
kept along the way, because the next line in front needs it. -/
theorem Scans.comments {docs : List (List Char)} {ls : List Lexeme} (h : Scans cs ls)
    (hdocs : ∀ line ∈ docs, ∀ c ∈ line, c ≠ '\n' ∧ c ≠ '\r') (hcs : Uncommented cs) :
    Uncommented (docs.flatMap docLine ++ cs) ∧
      Scans (docs.flatMap docLine ++ cs) ((docs.flatMap (docAttribute true)).map .leaf ++ ls) := by
  induction docs with
  | nil => exact ⟨hcs, h⟩
  | cons line docs ih =>
    obtain ⟨hline, hdocs⟩ := List.forall_mem_cons.mp hdocs
    obtain ⟨huncommented, hscans⟩ := ih hdocs
    rw [List.flatMap_cons, List.flatMap_cons, List.append_assoc, List.map_append,
      List.append_assoc]
    constructor
    · intro n
      obtain ⟨hskip, hdrop⟩ := skipGaps_docLine line (docs.flatMap docLine ++ cs) n
      rw [hskip, hdrop]
    · exact hscans.comment hline huncommented

/-- Trees that are neither brackets nor groups are put on top in their order, whatever is open. -/
theorem nest_leaves (us : List Tree) (ls : List Lexeme) (ts : List Tree)
    (outer : List (Delimiter × List Tree)) :
    nest (us.map .leaf ++ ls) ts outer = nest ls (us.reverse ++ ts) outer := by
  induction us generalizing ts with
  | nil => rfl
  | cons u us ih =>
    rw [List.map_cons, List.cons_append, nest, ih, List.reverse_cons, List.append_assoc]
    rfl

/-- What is scanned from a whole text and nests is what is read from it. The bound of the lexer is
one more than the length of the text, so it suffices. -/
theorem readTrees_of_scans {s : String} {ls : List Lexeme} {ts : List Tree}
    (hmark : dropByteOrderMark s.toList = s.toList) (hscans : Scans s.toList ls)
    (hnest : nest ls [] [] = some ts) : readTrees s = some ts := by
  unfold readTrees
  rw [hmark]
  dsimp only
  rw [hscans _ (Nat.lt_succ_self _)]
  exact hnest

/-- **A text with documentation in front of pieces is read as those pieces.** -/
theorem readTrees_filled {s : String} {doc : List Char} {docs : List (List Char)}
    (hdocs : ∀ line ∈ doc :: docs, ∀ c ∈ line, c ≠ '\n' ∧ c ≠ '\r')
    (htext : s.toList = (doc :: docs).flatMap docLine ++ cs) (hfilled : Filled as cs)
    (hsound : Sound as) (hclose : closeAll [] as = some []) :
    ∃ ts, readTrees s = some ts ∧ Tree.atomsAll ts =
      Tree.atomsAll ((doc :: docs).flatMap (docAttribute true)) ++ kept as := by
  obtain ⟨ls, hlexed, hscans⟩ := hfilled.scans hsound commentless_nil scans_nil
  have hcommentless := hfilled.commentless hsound commentless_nil
  rw [List.append_nil] at hcommentless
  rw [List.append_nil, List.append_nil] at hscans
  have hall := (hscans.comments hdocs hcommentless.uncommented).2
  rw [← htext] at hall
  have hmark : dropByteOrderMark s.toList = s.toList := by
    rw [htext]
    rfl
  obtain ⟨ts, outer, houter, hnest⟩ := hlexed.nest hclose
    (((doc :: docs).flatMap (docAttribute true)).reverse ++ []) [] rfl
  have hnested : nest ls (((doc :: docs).flatMap (docAttribute true)).reverse ++ []) [] =
      some ts.reverse := by
    have hend := hnest []
    rw [List.append_nil, List.map_eq_nil_iff.mp houter] at hend
    exact hend
  refine ⟨ts.reverse, ?_, ?_⟩
  · apply readTrees_of_scans hmark hall
    rw [nest_leaves, hnested]
  · rw [atomsAll_of_nest hnested, atomsOfOpen, List.append_nil, List.reverse_reverse,
      hlexed.flatMap_atoms]

end StoreModel.Source
