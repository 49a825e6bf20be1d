import StoreModel.Proofs.Words

/-!
# A word is read as itself

Where a word stands at the front of a text, and what follows ends it, the word is what is scanned
(`scanLexemes_append`). Scanning tries every other kind of token first, so the proof goes through
them in that order. Most give up at the first character, because it is one that words begin with;
literals that begin with letters give up at the first character that is no letter, because there
stands either the rest of the word or what ends it.

For a text with nothing around its word this is the converse of `Ident.eq_spelled`: if the word is
plain and no keyword, the text holds the identifier that it spells (`Ident.read_self`).
-/

set_option autoImplicit false

namespace StoreModel.Source

open StoreModel.Text

variable {w rest : List Char} {c : Char}

/-! ## Characters that are not in words -/

def decimalDigits : CharSet where
  ranges := [(0x30, 0x39)]

/-- The characters that literals, lifetimes and groups are told by. -/
def tokenMarks : List Char := ['"', '\'', '#', '(', '[', '{', ')', ']', '}', '/']

theorem isWordContinue_tokenMarks : ∀ d ∈ tokenMarks, isWordContinue d = false := by
  -- evaluated over the list, where deciding the statement itself may go through all characters
  have hall : (tokenMarks.all fun d => !isWordContinue d) = true := by decide +kernel
  simpa only [List.all_eq_true, Bool.not_eq_true'] using hall

theorem isWordStart_punctuation : ∀ d ∈ punctuation, isWordStart d = false := by
  have hall : (punctuation.all fun d => !isWordStart d) = true := by decide +kernel
  simpa only [List.all_eq_true, Bool.not_eq_true'] using hall

theorem ne_tokenMark (h : isWordContinue c = true) {d : Char} (hd : d ∈ tokenMarks) : c ≠ d := by
  rintro rfl
  rw [isWordContinue_tokenMarks c hd] at h
  cases h

theorem not_mem_decimalDigits (h : isWordStart c = true) : decimalDigits.contains c = false :=
  CharSet.not_contains_of_disjoint (by decide +kernel) (contains_wordHeads h)

theorem isDigit_eq_false (h : isWordStart c = true) : c.isDigit = false := by
  rw [Bool.eq_false_iff]
  intro hdigit
  have hmem : decimalDigits.contains c = true := by
    obtain ⟨hlo, hhi⟩ := Bool.and_eq_true_iff.mp hdigit
    exact CharSet.contains_iff.mpr ⟨(0x30, 0x39), by simp [decimalDigits],
      UInt32.le_iff_toNat_le.mp (of_decide_eq_true hlo),
      UInt32.le_iff_toNat_le.mp (of_decide_eq_true hhi)⟩
  rw [not_mem_decimalDigits h] at hmem
  cases hmem

/-- A character that words begin with is no decimal digit, though it may be a hexadecimal one. So it
has a value as a digit, and it is the bound on digits of base ten that keeps it out of a number. -/
theorem ten_le_of_hexValue? (h : isWordStart c = true) {n : Nat} (hn : hexValue? c = some n) :
    10 ≤ n := by
  unfold hexValue? at hn
  by_cases hrange : '0' ≤ c ∧ c ≤ '9'
  · have hdigit : c.isDigit = true :=
      Bool.and_eq_true_iff.mpr ⟨decide_eq_true hrange.1, decide_eq_true hrange.2⟩
    rw [isDigit_eq_false h] at hdigit
    cases hdigit
  · rw [if_neg hrange] at hn
    split at hn
    · cases hn
      omega
    · split at hn
      · cases hn
        omega
      · cases hn

/-! ## Literals -/

theorem EndsWord.ne {d : Char} (h : EndsWord rest) (hd : d ∈ rest.head?) :
    d ≠ '"' ∧ d ≠ '\'' ∧ d ≠ '#' := by
  obtain ⟨-, hmarks⟩ := h d hd
  simpa using hmarks

/-- Neither letters nor what ends a word begin with a mark of literals. Behind the letter of a
literal there is either more of the word or its end, and this covers both. -/
theorem EndsWord.ne_append (hr : EndsWord rest) {v : List Char}
    (h : ∀ d ∈ v, isWordContinue d = true) {d : Char} {r : List Char} (heq : v ++ rest = d :: r) :
    d ≠ '"' ∧ d ≠ '\'' ∧ d ≠ '#' := by
  cases v with
  | nil =>
    have hrest : rest = d :: r := heq
    exact hr.ne (by rw [hrest]; rfl)
  | cons e v =>
    obtain ⟨rfl, -⟩ := List.cons.inj heq
    have he := h e List.mem_cons_self
    exact ⟨ne_tokenMark he (by simp [tokenMarks]), ne_tokenMark he (by simp [tokenMarks]),
      ne_tokenMark he (by simp [tokenMarks])⟩

theorem scanHashed_of_head {f : Flavour} {cs : List Char}
    (h : ∀ d ∈ cs.head?, d ≠ '"' ∧ d ≠ '\'' ∧ d ≠ '#') : scanHashed f cs = none := by
  unfold scanHashed
  cases cs with
  | nil => rfl
  | cons c r =>
    obtain ⟨hquote, -, hhash⟩ := h c rfl
    rw [List.takeWhile_cons_of_neg (by simpa using hhash)]
    dsimp only [List.length_nil, List.drop_zero]
    split
    case h_1 heq => exact absurd (List.cons.inj heq).1 hquote
    case h_2 => rfl

/-- After the letters of a literal without escapes stands a quote or a hash mark. -/
theorem scanHashed_eq_none {f : Flavour} {v : List Char} (h : ∀ d ∈ v, isWordContinue d = true)
    (hr : EndsWord rest) : scanHashed f (v ++ rest) = none := by
  apply scanHashed_of_head
  intro d hd
  obtain ⟨r, heq⟩ := List.head?_eq_some_iff.mp hd
  exact hr.ne_append h heq

/-- After a hash mark that makes a word raw stands no other one, and no quote. -/
theorem scanHashed_mark {f : Flavour} {v : List Char} (h : PlainWord v) :
    scanHashed f ('#' :: (v ++ rest)) = none := by
  obtain ⟨c, r, rfl, hc, -⟩ := h
  have hcontinue := isWordContinue_of_isWordStart hc
  have hquote : c ≠ '"' := ne_tokenMark hcontinue (by simp [tokenMarks])
  have hhash : c ≠ '#' := ne_tokenMark hcontinue (by simp [tokenMarks])
  unfold scanHashed
  rw [List.takeWhile_cons_of_pos rfl, List.cons_append,
    List.takeWhile_cons_of_neg (by simpa using hhash)]
  dsimp only [List.length_cons, List.length_nil, List.drop_succ_cons, List.drop_zero]
  split
  case h_1 heq => exact absurd (List.cons.inj heq).1 hquote
  case h_2 => rfl

/-- A word is not read as a string. The letter `r` may begin a string without escapes, but only a
quote or number signs could go on with it. -/
theorem scanString_eq_none (h : Word w) (hr : EndsWord rest) : scanString (w ++ rest) = none := by
  rcases h with ⟨c, r, rfl, hc, hcontinues⟩ | ⟨v, rfl, hplain, -⟩
  · rw [List.cons_append]
    unfold scanString
    split
    case h_1 heq =>
      exact absurd (List.cons.inj heq).1
        (ne_tokenMark (isWordContinue_of_isWordStart hc) (by simp [tokenMarks]))
    case h_2 heq =>
      obtain ⟨rfl, rfl⟩ := List.cons.inj heq
      rw [scanHashed_eq_none hcontinues hr]
      rfl
    case h_3 => rfl
  · show (scanHashed .text ('#' :: (v ++ rest))).map _ = none
    rw [scanHashed_mark hplain]
    rfl

/-- Letters that begin a literal without escapes leave letters, or end the word. -/
theorem scanHashed_after {f : Flavour} {v r : List Char} {d : Char} (hd : isWordContinue d = true)
    (h : ∀ e ∈ v, isWordContinue e = true) (hr : EndsWord rest) (heq : v ++ rest = d :: r) :
    scanHashed f r = none := by
  cases v with
  | nil =>
    have hrest : rest = d :: r := heq
    have hend := (hr d (by rw [hrest]; rfl)).1
    rw [hd] at hend
    cases hend
  | cons e v =>
    obtain ⟨-, rfl⟩ := List.cons.inj heq
    exact scanHashed_eq_none (fun e' he' => h e' (List.mem_cons_of_mem _ he')) hr

/-- A word is not passed over as a string of bytes, with or without escapes, or one that ends with a
zero byte. Each needs a mark behind one or two letters. -/
theorem skipByteString_eq_none (h : Word w) (hr : EndsWord rest) :
    skipByteString (w ++ rest) = none := by
  rcases h with ⟨c, r, rfl, hc, hcontinues⟩ | ⟨v, rfl, hplain, -⟩
  · rw [List.cons_append]
    unfold skipByteString
    split
    -- with escapes, the quote stands right behind the one letter
    case h_1 heq => exact absurd rfl (hr.ne_append hcontinues (List.cons.inj heq).2).1
    case h_3 heq => exact absurd rfl (hr.ne_append hcontinues (List.cons.inj heq).2).1
    -- without, behind a second letter
    case h_2 heq =>
      rw [scanHashed_after (by decide) hcontinues hr (List.cons.inj heq).2]
      rfl
    case h_4 heq =>
      rw [scanHashed_after (by decide) hcontinues hr (List.cons.inj heq).2]
      rfl
    case h_5 => rfl
  · rfl

theorem skipCharacter_eq_none (h : Word w) (hr : EndsWord rest) :
    skipCharacter (w ++ rest) = none := by
  rcases h with ⟨c, r, rfl, hc, hcontinues⟩ | ⟨v, rfl, hplain, -⟩
  · rw [List.cons_append]
    unfold skipCharacter
    split
    case h_1 heq => exact absurd rfl (hr.ne_append hcontinues (List.cons.inj heq).2).2.1
    case h_2 heq =>
      exact absurd (List.cons.inj heq).1
        (ne_tokenMark (isWordContinue_of_isWordStart hc) (by simp [tokenMarks]))
    case h_3 => rfl
  · rfl

/-- What begins with a letter is no number. The reader of whole numbers without a base asks for
digits of any base first and compares them with ten afterwards. -/
theorem skipNumber_of_isWordStart (hc : isWordStart c = true) (r : List Char) :
    skipNumber (c :: r) = none := by
  have hfloat : skipFloat (c :: r) = none := by
    have hahead : digitAhead (c :: r) = false := isDigit_eq_false hc
    unfold skipFloat
    rw [hahead]
    rfl
  have hne : c ≠ '0' := by
    rintro rfl
    exact absurd (isDigit_eq_false hc) (by decide)
  have hwhole : skipWhole (c :: r) = none := by
    unfold skipWhole
    split
    case h_1 heq => exact absurd (List.cons.inj heq).1 hne
    case h_2 heq => exact absurd (List.cons.inj heq).1 hne
    case h_3 heq => exact absurd (List.cons.inj heq).1 hne
    case h_4 =>
      -- the letters from a to f are digits of base sixteen, but of no base without a prefix
      rw [skipDigits]
      split
      · rfl
      · cases hn : hexValue? c with
        | none => rfl
        | some n =>
          have hten : ¬ n < 10 := Nat.not_lt.mpr (ten_le_of_hexValue? hc hn)
          simp [hten]
  unfold skipNumber
  rw [hfloat, hwhole]
  rfl

theorem Word.exists_head (h : Word w) : ∃ c r, w = c :: r ∧ isWordStart c = true := by
  rcases h with ⟨c, r, rfl, hc, -⟩ | ⟨v, rfl, -, -⟩
  · exact ⟨c, r, rfl, hc⟩
  · exact ⟨'r', '#' :: v, rfl, rfl⟩

/-- A word is no literal of any kind. The readers are tried in the order of the lexer. -/
theorem scanLiteral_eq_none (h : Word w) (hr : EndsWord rest) :
    scanLiteral (w ++ rest) = none := by
  have hnumber : skipNumber (w ++ rest) = none := by
    obtain ⟨c, r, rfl, hc⟩ := h.exists_head
    exact skipNumber_of_isWordStart hc _
  unfold scanLiteral
  rw [scanString_eq_none h hr, skipByteString_eq_none h hr, skipCharacter_eq_none h hr, hnumber]
  rfl

/-! ## Other tokens -/

theorem scanPunct_of_isWordStart (hc : isWordStart c = true) (r : List Char) :
    scanPunct (c :: r) = none := by
  have hahead : punctAhead (c :: r) = false := by
    unfold punctAhead
    split
    case h_3 heq =>
      cases heq
      rw [Bool.eq_false_iff]
      intro hmem
      rw [isWordStart_punctuation c (List.contains_iff_mem.mp hmem)] at hc
      cases hc
    all_goals rfl
  unfold scanPunct
  rw [hahead]
  rfl

/-- The beginnings of literals are letters with a mark behind them: each has a beginning of letters
only, and what stands behind that is a quote or a number sign. There are finitely many, so this is
evaluated. -/
theorem exists_literalMark : ∀ v ∈ literalStarts, ∃ u ∈ v.inits, ∃ d ∈ ['"', '\'', '#'],
    u ++ [d] <+: v ∧ ∀ e ∈ u, isWordContinue e = true := by
  have hall : (literalStarts.all fun v => v.inits.any fun u => ['"', '\'', '#'].any fun d =>
      (u ++ [d]).isPrefixOf v && u.all isWordContinue) = true := by decide
  simpa only [List.all_eq_true, List.any_eq_true, Bool.and_eq_true, List.isPrefixOf_iff_prefix]
    using hall

/-- No beginning of a literal is one of a plain word with what ends it. The letters of both end at
the same character, which would have to be a mark and not to be one. -/
theorem not_prefix_of_plainWord (h : PlainWord w) (hr : EndsWord rest) {v : List Char}
    (hv : v ∈ literalStarts) : ¬ v <+: w ++ rest := by
  intro hpre
  obtain ⟨u, -, d, hd, hmark, hu⟩ := exists_literalMark v hv
  obtain ⟨x, hx⟩ := hmark.trans hpre
  have hmarks : isWordContinue d = false :=
    isWordContinue_tokenMarks d (by revert d; simp [tokenMarks])
  -- where the letters end there is a mark on one side, and what ends the word on the other
  have hends := congrArg (List.dropWhile isWordContinue) hx
  rw [List.append_assoc, List.dropWhile_append_of_pos hu, List.singleton_append,
    List.dropWhile_cons_of_neg (by simp [hmarks]), List.dropWhile_append_of_pos h.continues,
    hr.dropWhile] at hends
  exact (hr d (by rw [← hends]; rfl)).2 hd

theorem not_prefix_of_raw {v : List Char} (h : PlainWord v) {u : List Char}
    (hu : u ∈ literalStarts) : ¬ u <+: 'r' :: '#' :: (v ++ rest) := by
  obtain ⟨c, r, rfl, hc, -⟩ := h
  have hcontinue := isWordContinue_of_isWordStart hc
  have hquote : c ≠ '"' := ne_tokenMark hcontinue (by simp [tokenMarks])
  have hhash : c ≠ '#' := ne_tokenMark hcontinue (by simp [tokenMarks])
  revert u
  simp [literalStarts, hquote.symm, hhash.symm]

/-- A word is scanned as a word: it is none of the beginnings of literals, and then it is taken as
far as it goes. -/
theorem scanWord_append (h : Word w) (hr : EndsWord rest) :
    scanWord (w ++ rest) = some (w, rest) := by
  have hstarts : (literalStarts.any fun v => v.isPrefixOf (w ++ rest)) = false := by
    rw [List.any_eq_false]
    intro v hv hpre
    have hprefix := List.isPrefixOf_iff_prefix.mp hpre
    rcases h with hplain | ⟨u, rfl, hplain, -⟩
    · exact not_prefix_of_plainWord hplain hr hv hprefix
    · exact not_prefix_of_raw hplain hv hprefix
  unfold scanWord
  rw [hstarts]
  exact scanAnyWord_append h hr

theorem scanLeaf_append (h : Word w) (hr : EndsWord rest) :
    scanLeaf (w ++ rest) = some (.word (String.ofList w), rest) := by
  have hpunct : scanPunct (w ++ rest) = none := by
    obtain ⟨c, r, rfl, hc⟩ := h.exists_head
    exact scanPunct_of_isWordStart hc _
  unfold scanLeaf
  rw [scanLiteral_eq_none h hr, hpunct, scanWord_append h hr]

/-- A word is scanned as itself, whatever ends it. It opens no group, is no comment, and as a leaf
it is neither a literal nor punctuation. -/
theorem scanLexemes_append (h : Word w) (hr : EndsWord rest) :
    scanLexemes (w ++ rest) = some ([.leaf (.word (String.ofList w))], rest) := by
  obtain ⟨c, r, hw, hc⟩ := h.exists_head
  have hmark : ∀ d ∈ tokenMarks, c ≠ d := fun d =>
    ne_tokenMark (isWordContinue_of_isWordStart hc)
  have hbracket : bracket? (w ++ rest) = none := by
    rw [hw, List.cons_append]
    unfold bracket?
    split
    case h_7 => rfl
    all_goals next heq => exact absurd (List.cons.inj heq).1 (hmark _ (by simp [tokenMarks]))
  have hdoc : docComment (w ++ rest) = none := by
    rw [hw, List.cons_append]
    unfold docComment
    dsimp only
    split
    case h_7 => rfl
    all_goals next heq => exact absurd (List.cons.inj heq).1 (hmark _ (by simp [tokenMarks]))
  unfold scanLexemes
  rw [hbracket, hdoc, scanLeaf_append h hr]
  rfl

/-! ## Whole texts -/

theorem readTrees_self {s : String} (h : PlainWord s.toList) : readTrees s = some [.word s] := by
  have hlexemes : lexemes (s.toList.length + 1) s.toList = some [.leaf (.word s)] := by
    have hscan := scanLexemes_append (Or.inl h) endsWord_nil
    have hskip := skipGaps_self h (s.toList.length + 1)
    rw [String.ofList_toList, List.append_nil] at hscan
    obtain ⟨c, r, hcr, -, -⟩ := h
    rw [hcr] at hscan hskip ⊢
    rw [lexemes, hskip]
    dsimp only
    rw [hscan]
    rfl
  unfold readTrees
  rw [dropByteOrderMark_self h]
  dsimp only
  rw [hlexemes]
  rfl

/-- **A plain word that is no keyword is read as itself.** -/
theorem Ident.read_self {s : String} (h : PlainWord s.toList) (hkey : isKeyword s = false) :
    read s = .ok ⟨s⟩ := by
  have hident : readIdent ⟨[.word s], none⟩ = .ok (s, ⟨[], none⟩) := by
    rw [readIdent_word, hkey]
    rfl
  unfold read readText
  rw [readTrees_self h]
  dsimp only
  rw [hident]
  rfl

end StoreModel.Source
