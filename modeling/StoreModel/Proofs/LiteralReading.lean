import Mathlib.Algebra.Group.Nat.Defs
import Mathlib.Data.List.Basic
import StoreModel.Source.Lexer

/-!
# A literal is read as what it was printed for

`quoteLiteral` writes a text as a literal of source text, and `scanQuoted` reads the characters of a
literal up to its closing quote. Reading gives back the text that was written, whatever follows the
literal (`scanQuoted_escapeLiteral`); so no two texts have one literal, and no literal ends before
its closing quote.

The proof goes through the text character by character, as the writer does, and for each way in
which the writer may write a character there is a lemma on how the reader takes it. Only the hidden
characters need more than that, since their numbers are digits of a base.
-/

set_option autoImplicit false

namespace StoreModel.Source

open StoreModel.Text

/-! ## Numbers of characters -/

theorem digitChar_hex : ∀ d < 16, Nat.digitChar d ≠ '}' ∧ Nat.digitChar d ≠ '_' ∧
    hexValue? (Nat.digitChar d) = some d := by decide

theorem scanScalar_digitChar {d : Nat} (hd : d < 16) {value digits : Nat} (hdigits : digits ≠ 6)
    (r : List Char) : scanScalar value digits (Nat.digitChar d :: r) =
      scanScalar (value * 16 + d) (digits + 1) r := by
  obtain ⟨hbrace, hgap, hvalue⟩ := digitChar_hex d hd
  rw [scanScalar, if_neg hbrace, if_neg hgap, hvalue]
  exact if_neg hdigits

/-- The digits of a number are added to a value one by one, at most six of them. The induction is on
the number without its last digit, since the digits are read from the front and the last one is the
remainder. -/
theorem scanScalar_toDigits (n value digits : Nat) (r : List Char)
    (h : digits + (Nat.toDigits 16 n).length ≤ 6) :
    scanScalar value digits (Nat.toDigits 16 n ++ r) =
      scanScalar (value * 16 ^ (Nat.toDigits 16 n).length + n)
        (digits + (Nat.toDigits 16 n).length) r := by
  induction n using Nat.strongRecOn generalizing r with
  | ind n ih =>
    by_cases hn : n < 16
    · rw [Nat.toDigits_of_lt_base hn] at h ⊢
      rw [List.length_singleton] at h ⊢
      rw [List.singleton_append, scanScalar_digitChar hn (by omega), Nat.pow_one]
    · have hsplit : Nat.toDigits 16 n = Nat.toDigits 16 (n / 16) ++ [(n % 16).digitChar] :=
        Nat.toDigits_of_base_le (by decide) (by omega)
      rw [hsplit, List.length_append, List.length_singleton] at h ⊢
      rw [List.append_assoc, List.singleton_append, ih (n / 16) (by omega) _ (by omega),
        scanScalar_digitChar (by omega) (by omega), Nat.pow_succ, Nat.add_assoc]
      congr 1
      rw [Nat.add_mul, Nat.mul_assoc, Nat.add_assoc, Nat.mul_comm (n / 16), Nat.div_add_mod]

/-- A hidden character is read from its number. Code points are below `16 ^ 6`, so the reader, which
takes no more than six digits, is never given more. -/
theorem scanScalar_numbered (c : Char) (rest : List Char) :
    scanScalar 0 0 (Nat.toDigits 16 c.toNat ++ '}' :: rest) = some (c, rest) := by
  have hvalid : c.toNat.isValidChar := c.valid
  have hbound : c.toNat < 16 ^ 6 := by
    rcases hvalid with h | h
    · omega
    · omega
  have hlength : (Nat.toDigits 16 c.toNat).length ≤ 6 :=
    (Nat.length_toDigits_le_iff (by decide) (by decide)).mpr hbound
  have hpos : (Nat.toDigits 16 c.toNat).length ≠ 0 := Nat.ne_of_gt Nat.length_toDigits_pos
  rw [scanScalar_toDigits _ _ _ _ (by omega), scanScalar, if_pos rfl, Nat.zero_mul, Nat.zero_add,
    Nat.zero_add, if_pos ⟨hpos, hvalid⟩, Char.ofNat_toNat]

/-! ## Characters of a literal -/

variable {n : Nat} {s rest : List Char}

/-- What is read after a character that has been read. -/
def followedBy (c : Char) (found : Option (List Char × List Char)) :
    Option (List Char × List Char) :=
  found.map fun (cs, rest) => (c :: cs, rest)

/-- A character that is written with a backslash takes one step of the reader, if what stands behind
the backslash is no line end: that would be the mark of a text that goes on in the next line. -/
theorem scanQuoted_escape {c d : Char} {r r' : List Char} (hn : d ≠ '\n') (hr : d ≠ '\r')
    (h : scanEscape .text (d :: r) = some (c, r')) :
    scanQuoted .text (n + 1) ('\\' :: d :: r) = followedBy c (scanQuoted .text n r') := by
  rw [scanQuoted.eq_def]
  dsimp only
  rw [if_neg (by decide), if_neg (by decide), if_pos rfl]
  -- a backslash before a line end would not begin an escape
  split
  case h_1 heq => exact absurd (List.cons.inj heq).1 hn
  case h_2 heq => exact absurd (List.cons.inj heq).1 hr
  case h_3 =>
    rw [h]
    rfl

/-- Any character that ends no literal and begins no escape stands for itself. A carriage return
does not, since the reader takes it as a part of a line end only. -/
theorem scanQuoted_plain {c : Char} (hquote : c ≠ '"') (hr : c ≠ '\r') (hslash : c ≠ '\\')
    (r : List Char) :
    scanQuoted .text (n + 1) (c :: r) = followedBy c (scanQuoted .text n r) := by
  rw [scanQuoted.eq_def]
  dsimp only
  rw [if_neg hquote, if_neg hr, if_neg hslash]
  rfl

theorem scanEscape_number {c : Char} {r : List Char} (h : scanScalar 0 0 r = some (c, rest)) :
    scanEscape .text ('u' :: '{' :: r) = some (c, rest) := by
  simp [scanEscape, h]

/-- One character other than NUL is read as it was written. The cases are those of the writer in its
order, and the last one uses that all before it were passed over. -/
theorem scanQuoted_escapeChar (c : Char) (r : List Char) :
    scanQuoted .text (n + 1) (escapeChar c ++ r) = followedBy c (scanQuoted .text n r) := by
  unfold escapeChar
  by_cases htab : c = '\t'
  · rw [if_pos htab, htab]
    exact scanQuoted_escape (by decide) (by decide) rfl
  rw [if_neg htab]
  by_cases hreturn : c = '\r'
  · rw [if_pos hreturn, hreturn]
    exact scanQuoted_escape (by decide) (by decide) rfl
  rw [if_neg hreturn]
  by_cases hline : c = '\n'
  · rw [if_pos hline, hline]
    exact scanQuoted_escape (by decide) (by decide) rfl
  rw [if_neg hline]
  by_cases hquote : c = '"'
  · rw [if_pos hquote, hquote]
    exact scanQuoted_escape (by decide) (by decide) rfl
  rw [if_neg hquote]
  by_cases hslash : c = '\\'
  · rw [if_pos hslash, hslash]
    exact scanQuoted_escape (by decide) (by decide) rfl
  rw [if_neg hslash]
  -- nothing is left that the reader would take for more than itself
  by_cases hhidden : isHidden c = true
  · rw [if_pos hhidden]
    unfold numbered
    rw [List.cons_append, List.cons_append, List.cons_append, List.append_assoc,
      List.singleton_append]
    exact scanQuoted_escape (by decide) (by decide)
      (scanEscape_number (scanScalar_numbered c r))
  · rw [if_neg hhidden]
    exact scanQuoted_plain hquote hreturn hslash r

/-- NUL is written in two ways, by what follows it, and read alike. -/
theorem scanQuoted_nul (s r : List Char) :
    scanQuoted .text (n + 1)
      ((if octalAhead s then ['\\', 'x', '0', '0'] else ['\\', '0']) ++ r) =
      followedBy '\x00' (scanQuoted .text n r) := by
  split
  · exact scanQuoted_escape (by decide) (by decide) rfl
  · exact scanQuoted_escape (by decide) (by decide) rfl

/-- **A literal is read as the text that it was printed for**, up to its closing quote. -/
theorem scanQuoted_escapeLiteral (h : s.length < n) :
    scanQuoted .text n (escapeLiteral s ++ '"' :: rest) = some (s, rest) := by
  induction s generalizing n with
  | nil =>
    obtain ⟨n, rfl⟩ := Nat.exists_eq_add_one_of_ne_zero (Nat.ne_of_gt h)
    rw [escapeLiteral, List.nil_append, scanQuoted.eq_def]
    rfl
  | cons c s ih =>
    obtain ⟨n, rfl⟩ := Nat.exists_eq_add_one_of_ne_zero (Nat.ne_of_gt (Nat.zero_lt_of_lt h))
    rw [List.length_cons] at h
    have hstep : scanQuoted .text (n + 1) (escapeLiteral (c :: s) ++ '"' :: rest) =
        followedBy c (scanQuoted .text n (escapeLiteral s ++ '"' :: rest)) := by
      rw [escapeLiteral, List.append_assoc]
      by_cases hnul : c = '\x00'
      · rw [if_pos hnul, hnul]
        exact scanQuoted_nul s _
      · rw [if_neg hnul]
        exact scanQuoted_escapeChar c _
    rw [hstep, ih (by omega)]
    rfl

/-- A literal is no shorter than its text, so a bound on the characters of the literal is enough for
the reader to get through the text. -/
theorem length_le_escapeLiteral (s : List Char) : s.length ≤ (escapeLiteral s).length := by
  induction s with
  | nil => exact Nat.le_refl _
  | cons c s ih =>
    have hchar : 0 < (escapeChar c).length := by
      unfold escapeChar numbered
      repeat' split
      all_goals simp
    rw [escapeLiteral, List.length_append, List.length_cons]
    split
    · split
      · simp only [List.length_cons, List.length_nil]
        omega
      · simp only [List.length_cons, List.length_nil]
        omega
    · omega

end StoreModel.Source
