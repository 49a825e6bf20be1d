import Mathlib.Data.List.TakeWhile
import StoreModel.Proofs.Results
import StoreModel.Source.Member

/-!
# The word that an identifier is

`Ident.read` scans a whole text, nests its groups and reads what comes out. If that gives an
identifier at all, then the identifier can be had with much less: pass over the gaps and comments in
front and take the first word (`Ident.spelled`). What stands behind the word is not looked at,
because a text that holds an identifier has nothing but gaps and comments there.

So texts that differ only around their first word hold the same identifier. A text that is a word
from its first character to its last (`PlainWord`) is its own spelling, and this is kept by whatever
is put behind it to make a longer name.
-/

set_option autoImplicit false

namespace StoreModel.Source

open StoreModel.Text

/-! ## Characters -/

/-- The characters that a word can begin with, in one set. -/
def wordHeads : CharSet where
  ranges := [(0x41, 0x5A), (0x5F, 0x5F), (0x61, 0x7A)] ++ wordStarts.ranges

/-- The characters in front of which something is passed over: blanks, the two marks of writing
direction, the stroke that begins a comment, and the byte order mark. -/
def passedOver : CharSet where
  ranges := blanks.ranges ++ [(0x200E, 0x200F), (0x2F, 0x2F), (0xFEFF, 0xFEFF)]

theorem contains_wordHeads {c : Char} (h : isWordStart c = true) : wordHeads.contains c = true := by
  unfold isWordStart at h
  rw [Bool.or_eq_true, Bool.or_eq_true, beq_iff_eq] at h
  rw [CharSet.contains_iff]
  rcases h with (rfl | halpha) | htable
  · exact ⟨(0x5F, 0x5F), by simp [wordHeads], by decide⟩
  · have hcase : (c.isUpper || c.isLower) = true := halpha
    rcases Bool.or_eq_true_iff.mp hcase with hupper | hlower
    · obtain ⟨hlo, hhi⟩ := of_decide_eq_true hupper
      exact ⟨(0x41, 0x5A), by simp [wordHeads], UInt32.le_iff_toNat_le.mp hlo,
        UInt32.le_iff_toNat_le.mp hhi⟩
    · obtain ⟨hlo, hhi⟩ := Bool.and_eq_true_iff.mp hlower
      exact ⟨(0x61, 0x7A), by simp [wordHeads], UInt32.le_iff_toNat_le.mp (of_decide_eq_true hlo),
        UInt32.le_iff_toNat_le.mp (of_decide_eq_true hhi)⟩
  · obtain ⟨r, hr, hc⟩ := CharSet.contains_iff.mp htable
    exact ⟨r, List.mem_append_right _ hr, hc⟩

/-- No character that begins a word is one in front of which something is passed over. Both are
tables, so this is a comparison of ranges. -/
theorem passedOver_eq_false {c : Char} (h : isWordStart c = true) :
    passedOver.contains c = false :=
  CharSet.not_contains_of_disjoint (by decide +kernel) (contains_wordHeads h)

theorem contains_passedOver {c : Char} (h : isGap c = true) : passedOver.contains c = true := by
  unfold isGap at h
  rw [Bool.or_eq_true, Bool.or_eq_true, beq_iff_eq, beq_iff_eq] at h
  rw [CharSet.contains_iff]
  rcases h with (hblank | rfl) | rfl
  · obtain ⟨r, hr, hc⟩ := CharSet.contains_iff.mp hblank
    exact ⟨r, List.mem_append_left _ hr, hc⟩
  · exact ⟨(0x200E, 0x200F), by simp [passedOver], by decide⟩
  · exact ⟨(0x200E, 0x200F), by simp [passedOver], by decide⟩

theorem isGap_eq_false {c : Char} (h : isWordStart c = true) : isGap c = false := by
  rw [Bool.eq_false_iff]
  intro hgap
  have hpassed := contains_passedOver hgap
  rw [passedOver_eq_false h] at hpassed
  cases hpassed

theorem ne_of_isWordStart {c d : Char} (h : isWordStart c = true)
    (hd : passedOver.contains d = true) : c ≠ d := by
  rintro rfl
  rw [passedOver_eq_false h] at hd
  cases hd

/-! ## Words -/

/-- A word without a mark, from the first character to the last. -/
def PlainWord (w : List Char) : Prop :=
  ∃ c r, w = c :: r ∧ isWordStart c = true ∧ ∀ d ∈ r, isWordContinue d = true

variable {w cs rest : List Char}

theorem PlainWord.continues (h : PlainWord w) : ∀ d ∈ w, isWordContinue d = true := by
  obtain ⟨c, r, rfl, hc, hr⟩ := h
  intro d hd
  rcases List.mem_cons.mp hd with rfl | hdr
  · exact isWordContinue_of_isWordStart hc
  · exact hr d hdr

theorem PlainWord.append {v : List Char} (h : PlainWord w)
    (hv : ∀ d ∈ v, isWordContinue d = true) : PlainWord (w ++ v) := by
  obtain ⟨c, r, rfl, hc, hr⟩ := h
  refine ⟨c, r ++ v, List.cons_append, hc, fun d hd => ?_⟩
  rcases List.mem_append.mp hd with hdr | hdv
  · exact hr d hdr
  · exact hv d hdv

theorem scanPlainWord_ok (h : scanPlainWord cs = some (w, rest)) : PlainWord w := by
  unfold scanPlainWord at h
  cases cs with
  | nil => cases h
  | cons c r =>
    by_cases hc : isWordStart c = true
    · cases (if_pos hc).symm.trans h
      exact ⟨c, _, rfl, hc, fun d hd => List.mem_takeWhile_imp hd⟩
    · cases (if_neg hc).symm.trans h

/-- What follows a word ends it, and does not make it the beginning of a literal. -/
def EndsWord (rest : List Char) : Prop :=
  ∀ d ∈ rest.head?, isWordContinue d = false ∧ d ∉ ['"', '\'', '#']

theorem endsWord_nil : EndsWord [] := fun d hd => by cases hd

theorem EndsWord.takeWhile (h : EndsWord rest) : rest.takeWhile isWordContinue = [] := by
  cases rest with
  | nil => rfl
  | cons d r => exact List.takeWhile_cons_of_neg (by simp [(h d rfl).1])

theorem EndsWord.dropWhile (h : EndsWord rest) : rest.dropWhile isWordContinue = rest := by
  cases rest with
  | nil => rfl
  | cons d r => exact List.dropWhile_cons_of_neg (by simp [(h d rfl).1])

/-- A word is scanned to its end and no further, if what stands behind it ends it. The reader takes
as many characters as go on a word, so `EndsWord` is just what it needs. -/
theorem scanPlainWord_append (h : PlainWord w) (hr : EndsWord rest) :
    scanPlainWord (w ++ rest) = some (w, rest) := by
  obtain ⟨c, r, rfl, hc, hcontinues⟩ := h
  rw [List.cons_append, scanPlainWord, if_pos hc, List.takeWhile_append_of_pos hcontinues,
    List.dropWhile_append_of_pos hcontinues, hr.takeWhile, hr.dropWhile, List.append_nil]

/-- A word as it stands in a text: plain, or marked as raw if it can be. -/
def Word (w : List Char) : Prop :=
  PlainWord w ∨ ∃ v, w = 'r' :: '#' :: v ∧ PlainWord v ∧ neverRaw.contains v = false

/-- What is scanned as a word is one: plain, or behind the mark of raw words and none of those that
cannot be raw. -/
theorem scanAnyWord_ok (h : scanAnyWord cs = some (w, rest)) : Word w := by
  unfold scanAnyWord at h
  split at h
  case h_1 r =>
    rcases hv : scanPlainWord r with - | ⟨v, rest'⟩
    · rw [hv] at h
      cases h
    · rw [hv] at h
      by_cases hraw : neverRaw.contains v = true
      · cases (if_pos hraw).symm.trans h
      · cases (if_neg hraw).symm.trans h
        exact Or.inr ⟨v, rfl, scanPlainWord_ok hv, Bool.eq_false_iff.mpr hraw⟩
  case h_2 => exact Or.inl (scanPlainWord_ok h)

/-- Evaluates whether a text is a word. -/
theorem word_of_scan {s : String} {cs : List Char} (hs : s = String.ofList cs)
    (h : (scanAnyWord cs == some (cs, [])) = true) : Word s.toList := by
  rw [hs, String.toList_ofList]
  exact scanAnyWord_ok (beq_iff_eq.mp h)

theorem PlainWord.ne_marked (h : PlainWord w) (r : List Char) : w ≠ 'r' :: '#' :: r := by
  rintro rfl
  have hhash := h.continues '#' (by simp)
  exact absurd hhash (by decide +kernel)

/-- A word that ends before a text cannot be taken for the mark of a raw word. Only the one word `r`
comes near it, and a number sign does not end it. -/
theorem PlainWord.append_ne_marked (h : PlainWord w) (hr : EndsWord rest) (r : List Char) :
    w ++ rest ≠ 'r' :: '#' :: r := by
  obtain ⟨c, v, rfl, -, hcontinues⟩ := h
  intro heq
  cases v with
  | nil =>
    have hrest : rest = '#' :: r := (List.cons.inj heq).2
    exact (hr '#' (by rw [hrest]; rfl)).2 (by simp)
  | cons d v =>
    have hd : d = '#' := (List.cons.inj (List.cons.inj heq).2).1
    have hhash := hcontinues d List.mem_cons_self
    rw [hd] at hhash
    exact absurd hhash (by decide +kernel)

/-- A word, raw or not, is scanned to its end. A plain one does not get into the branch for the
mark, which would read on behind the number sign. -/
theorem scanAnyWord_append (h : Word w) (hr : EndsWord rest) :
    scanAnyWord (w ++ rest) = some (w, rest) := by
  rcases h with hplain | ⟨v, rfl, hplain, hraw⟩
  · rw [scanAnyWord.eq_2 _ fun r => hplain.append_ne_marked hr r]
    exact scanPlainWord_append hplain hr
  · rw [List.cons_append, List.cons_append, scanAnyWord, scanPlainWord_append hplain hr]
    dsimp only
    rw [hraw]
    rfl

theorem scanAnyWord_self (h : PlainWord w) : scanAnyWord w = some (w, []) := by
  have happend := scanAnyWord_append (Or.inl h) endsWord_nil
  rwa [List.append_nil] at happend

/-! ## The first word of a text -/

/-- The first word after gaps and comments, or nothing where none stands there. -/
def firstWord (cs : List Char) : List Char :=
  ((scanAnyWord (skipGaps (cs.length + 1) cs)).map Prod.fst).getD []

/-- The identifier that stands at the front of a text. -/
def Ident.spelled (s : String) : Ident := ⟨String.ofList (firstWord (dropByteOrderMark s.toList))⟩

/-- Nothing is passed over where neither a gap nor a stroke stands. -/
theorem skipGaps_cons {c : Char} (hgap : isGap c = false) (hstroke : c ≠ '/') (n : Nat)
    (r : List Char) : skipGaps n (c :: r) = c :: r := by
  cases n with
  | zero => rfl
  | succ n =>
    have hdrop : (c :: r).dropWhile isGap = c :: r :=
      List.dropWhile_cons_of_neg (by rw [hgap]; simp)
    rw [skipGaps, hdrop]
    split
    case h_1 heq => exact absurd (List.cons.inj heq).1 hstroke
    case h_2 => rfl

theorem skipGaps_self (h : PlainWord w) (n : Nat) : skipGaps n w = w := by
  obtain ⟨c, r, rfl, hc, -⟩ := h
  exact skipGaps_cons (isGap_eq_false hc) (ne_of_isWordStart hc (by decide)) n r

theorem firstWord_self (h : PlainWord w) : firstWord w = w := by
  unfold firstWord
  rw [skipGaps_self h, scanAnyWord_self h]
  rfl

theorem dropByteOrderMark_self (h : PlainWord w) : dropByteOrderMark w = w := by
  obtain ⟨c, r, rfl, hc, -⟩ := h
  exact if_neg (ne_of_isWordStart hc (by decide))

theorem Ident.spelled_self {s : String} (h : PlainWord s.toList) : spelled s = ⟨s⟩ := by
  unfold spelled
  rw [dropByteOrderMark_self h, firstWord_self h, String.ofList_toList]

/-! ## Nesting

What is nested at the front of a text stays at the front. The trees outside of all groups that are
open are those at the bottom of the stack, and a step of `nest` only ever puts trees on them; while
a group is open, the next of them is going to be a group. -/

/-- The trees outside of all open groups, in reverse. -/
def outermost (ts : List Tree) (outer : List (Delimiter × List Tree)) : List Tree :=
  (outer.map Prod.snd).getLastD ts

theorem outermost_cons (ts us : List Tree) (d : Delimiter) (outer : List (Delimiter × List Tree)) :
    outermost ts ((d, us) :: outer) = outermost us outer := by
  unfold outermost
  rw [List.map_cons, List.getLastD_cons]

/-- The trees outside of open groups are a beginning of the result, and if a group is open, one with
a group behind them is. The induction is along `nest`; a group that is opened hides the trees before
it, and one that is closed is itself the next of them. -/
theorem prefix_of_nest {ls : List Lexeme} {ts : List Tree} {outer : List (Delimiter × List Tree)}
    {res : List Tree} (h : nest ls ts outer = some res) :
    (outermost ts outer).reverse <+: res ∧
      (outer ≠ [] → ∃ d us, (Tree.group d us :: outermost ts outer).reverse <+: res) := by
  fun_induction nest ls ts outer with
  | case1 ts =>
    cases h
    exact ⟨List.prefix_rfl, fun hne => absurd rfl hne⟩
  | case2 => cases h
  | case3 t ls ts outer ih =>
    cases outer with
    | nil =>
      have hpre := (ih h).1
      refine ⟨List.IsPrefix.trans ?_ hpre, fun hne => absurd rfl hne⟩
      exact List.reverse_cons ▸ List.prefix_append _ _
    | cons o outer =>
      rw [outermost_cons] at ih ⊢
      exact ih h
  | case4 d ls ts outer ih =>
    rw [outermost_cons] at ih
    obtain ⟨hpre, hgroup⟩ := ih h
    exact ⟨hpre, fun _ => hgroup (List.cons_ne_nil _ _)⟩
  | case5 => cases h
  | case6 ls ts d us outer ih =>
    -- the group that closes here is the next outermost tree, unless another one is open around it
    rw [outermost_cons]
    obtain ⟨hpre, hgroup⟩ := ih h
    cases outer with
    | nil => exact ⟨List.IsPrefix.trans (List.reverse_cons ▸ List.prefix_append _ _) hpre,
        fun _ => ⟨_, _, hpre⟩⟩
    | cons o outer =>
      rw [outermost_cons] at hpre hgroup ⊢
      exact ⟨hpre, fun _ => hgroup (List.cons_ne_nil _ _)⟩
  | case7 => cases h

/-- If nesting leaves one word, that word was the first thing to be nested. An opening bracket would
have left a group in its place. -/
theorem eq_leaf_of_nest {l : Lexeme} {ls : List Lexeme} {v : String}
    (h : nest (l :: ls) [] [] = some [.word v]) : l = .leaf (.word v) := by
  cases l with
  | leaf t =>
    have hnest : nest ls [t] [] = some [.word v] := h
    have hpre : [t] <+: [.word v] := (prefix_of_nest hnest).1
    rw [(List.cons_prefix_cons.mp hpre).1]
  | opening d =>
    have hnest : nest ls [] [(d, [])] = some [.word v] := h
    obtain ⟨d', us, hpre⟩ := (prefix_of_nest hnest).2 (List.cons_ne_nil _ _)
    have hgroup : [Tree.group d' us] <+: [.word v] := hpre
    cases (List.cons_prefix_cons.mp hgroup).1
  | closing d => cases h

/-! ## Scanning -/

theorem scanLiteral_ne_word {v : String} : scanLiteral cs ≠ some (.word v, rest) := by
  intro h
  unfold scanLiteral at h
  split at h
  · cases h
  · split at h
    · cases h
    · obtain ⟨_, -, heq⟩ := Option.map_eq_some_iff.mp h
      cases heq

theorem scanPunct_ne_word {v : String} : scanPunct cs ≠ some (.word v, rest) := by
  intro h
  unfold scanPunct at h
  split at h
  · split at h
    · split at h
      · cases h
      · cases h
      · split at h
        · cases h
        · cases h
      · cases h
    · cases h
    · cases h
  · cases h

/-- A leaf that is a word was scanned as one. Literals and punctuation are tried first and never
give a word, not even where their first characters are letters. -/
theorem scanLeaf_word {v : String} (h : scanLeaf cs = some (.word v, rest)) :
    ∃ w, scanAnyWord cs = some (w, rest) ∧ v = String.ofList w := by
  unfold scanLeaf at h
  cases hliteral : scanLiteral cs with
  | some found =>
    rw [hliteral] at h
    cases h
    exact absurd hliteral scanLiteral_ne_word
  | none =>
    rw [hliteral] at h
    cases hpunct : scanPunct cs with
    | some found =>
      rw [hpunct] at h
      cases h
      exact absurd hpunct scanPunct_ne_word
    | none =>
      rw [hpunct] at h
      rcases hword : scanWord cs with - | ⟨w, r⟩
      · -- what is left is an escape that no word begins with
        rw [hword] at h
        dsimp only at h
        split at h <;> cases h
      · rw [hword] at h
        cases h
        unfold scanWord at hword
        split at hword
        · cases hword
        · exact ⟨w, hword, rfl⟩

theorem bracket?_ok {l : Lexeme} (h : bracket? cs = some (l, rest)) :
    ∃ d, l = .opening d ∨ l = .closing d := by
  unfold bracket? at h
  split at h
  · split at h
    · cases h
    · cases h
      exact ⟨.paren, Or.inl rfl⟩
  all_goals cases h
  · exact ⟨.bracket, Or.inl rfl⟩
  · exact ⟨.brace, Or.inl rfl⟩
  · exact ⟨.paren, Or.inr rfl⟩
  · exact ⟨.bracket, Or.inr rfl⟩
  · exact ⟨.brace, Or.inr rfl⟩

/-- If a text is one word in the end, the first thing that is scanned is that word: brackets would
leave a group, and a documentation comment the mark of an attribute. -/
theorem scanLexemes_word {ls ls' : List Lexeme} {v : String}
    (h : scanLexemes cs = some (ls, rest)) (hnest : nest (ls ++ ls') [] [] = some [.word v]) :
    ∃ w, scanAnyWord cs = some (w, rest) ∧ v = String.ofList w := by
  unfold scanLexemes at h
  -- a bracket or a comment of documentation gives something that cannot come to be one word
  rcases hbracket : bracket? cs with - | ⟨l, r⟩
  case some =>
    rw [hbracket] at h
    cases h
    obtain ⟨d, rfl | rfl⟩ := bracket?_ok hbracket
    · cases eq_leaf_of_nest hnest
    · cases eq_leaf_of_nest hnest
  · rw [hbracket] at h
    dsimp only at h
    split at h
    · split at h
      · cases h
        unfold docAttribute at hnest
        split at hnest
        · cases eq_leaf_of_nest hnest
        · cases eq_leaf_of_nest hnest
      · cases h
    · obtain ⟨⟨t, r⟩, hleaf, heq⟩ := Option.map_eq_some_iff.mp h
      cases heq
      cases eq_leaf_of_nest hnest
      exact scanLeaf_word hleaf

/-- A text that is one word in the end has it as its first word. Only the first lexeme is looked at;
those behind it are known to leave nothing. -/
theorem readTrees_word {s v : String} (h : readTrees s = some [.word v]) :
    ∃ rest, scanAnyWord (skipGaps ((dropByteOrderMark s.toList).length + 1)
      (dropByteOrderMark s.toList)) = some (v.toList, rest) := by
  unfold readTrees at h
  dsimp only at h
  generalize hcs : dropByteOrderMark s.toList = cs at h ⊢
  cases hls : lexemes (cs.length + 1) cs with
  | none =>
    rw [hls] at h
    cases h
  | some ls =>
    rw [hls] at h
    rw [lexemes] at hls
    cases hskip : skipGaps (cs.length + 1) cs with
    | nil =>
      rw [hskip] at hls
      cases hls
      cases h
    | cons c r =>
      rw [hskip] at hls
      dsimp only at hls
      rcases hscan : scanLexemes (c :: r) with - | ⟨first, rest⟩
      · rw [hscan] at hls
        cases hls
      · -- the first token is all there is, so what is behind it is gaps and need not be known
        rw [hscan] at hls
        obtain ⟨more, -, rfl⟩ := Option.map_eq_some_iff.mp hls
        obtain ⟨w, hw, rfl⟩ := scanLexemes_word hscan h
        rw [String.toList_ofList]
        exact ⟨rest, hw⟩

/-! ## Identifiers -/

theorem readIdent_word {v : String} {ts : List Tree} {stray : Option Delimiter} :
    readIdent ⟨.word v :: ts, stray⟩ =
      if isKeyword v then .error ⟨false, .keyword v⟩ else .ok (v, ⟨ts, stray⟩) := by
  by_cases hkey : isKeyword v = true
  · rw [if_pos hkey]
    exact congrFun (if_pos hkey) _
  · rw [if_neg hkey]
    exact congrFun (if_neg hkey) _

/-- An identifier is read from a single word that is no keyword, and nothing else is taken. -/
theorem readIdent_ok {s s' : Rest} {v : String} (h : readIdent s = .ok (v, s')) :
    s.trees = .word v :: s'.trees ∧ isKeyword v = false := by
  obtain ⟨ts, stray⟩ := s
  rcases ts with - | ⟨t, ts⟩
  · cases h
  · cases t with
    | word w =>
      rw [readIdent_word] at h
      by_cases hkey : isKeyword w = true
      · cases (if_pos hkey).symm.trans h
      · cases (if_neg hkey).symm.trans h
        exact ⟨rfl, Bool.eq_false_iff.mpr hkey⟩
    | punct c joint => cases h
    | literal text kind => cases h
    | group d us => cases h

/-- What is read from a whole text is read from its tokens, and none of them is left. -/
theorem readText_ok {α : Type} {ts : Option (List Tree)} {read : Reader α} {a : α}
    (h : readText ts read = .ok a) :
    ∃ us, ts = some us ∧ read ⟨us, none⟩ = .ok (a, ⟨[], none⟩) := by
  unfold readText at h
  rcases ts with - | us
  · cases h
  · dsimp only at h
    split at h
    case h_1 => cases h
    case h_2 hread =>
      cases h
      exact ⟨us, rfl, hread⟩
    case h_3 => cases h

theorem readText_readIdent {ts : Option (List Tree)} {v : String}
    (h : readText ts readIdent = .ok v) : ts = some [.word v] ∧ isKeyword v = false := by
  obtain ⟨us, rfl, hread⟩ := readText_ok h
  obtain ⟨htrees, hkey⟩ := readIdent_ok hread
  exact ⟨congrArg some htrees, hkey⟩

/-- **Where a text holds an identifier, the identifier is its first word.** -/
theorem Ident.eq_spelled {s : String} {id : Ident} (h : read s = .ok id) : id = spelled s := by
  obtain ⟨v, hv, rfl⟩ := map_eq_ok_iff.mp h
  obtain ⟨rest, hscan⟩ := readTrees_word (readText_readIdent hv).1
  unfold spelled firstWord
  rw [hscan]
  exact congrArg Ident.mk String.ofList_toList.symm

/-- An identifier without its mark is a word. So identifiers can be made longer and stay
identifiers, which the names of constants are made by. -/
theorem Ident.plainWord_dropMark {s : String} {id : Ident} (h : read s = .ok id) :
    PlainWord (dropMark id.text).toList := by
  obtain ⟨v, hv, rfl⟩ := map_eq_ok_iff.mp h
  obtain ⟨rest, hscan⟩ := readTrees_word (readText_readIdent hv).1
  unfold dropMark
  rcases scanAnyWord_ok hscan with hplain | ⟨w, hw, hplain, -⟩
  · split
    case h_1 r heq => exact absurd heq (hplain.ne_marked r)
    case h_2 => exact hplain
  · rw [hw]
    exact String.toList_ofList ▸ hplain

theorem Ident.dropMark_self {s : String} (h : PlainWord s.toList) : dropMark s = s := by
  unfold dropMark
  split
  case h_1 r heq => exact absurd heq (h.ne_marked r)
  case h_2 => rfl

end StoreModel.Source
