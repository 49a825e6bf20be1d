import Mathlib.Algebra.Group.Nat.Defs
import StoreModel.Json.Number

/-!
# Numbers read back

Whole numbers are written in decimal digits: in JSON text without zeros in front, in dates with
zeros up to a width. Every reader takes digits as far as they go, so a number is read back from the
front of a text if no digit stands behind it. In JSON nothing may stand there that would make it a
number with a fraction or an exponent either (`EndsNumber`).

JSON text refuses a zero in front of other digits, and its reader looks at the first digit before it
takes the others. So it has to be known that a number other than zero does not begin with one, which
is an induction over the number and not over its digits.
-/

set_option autoImplicit false

namespace StoreModel

open StoreModel.Text

/-! ## Digits -/

namespace Text

/-- Every character is a decimal digit. -/
def Digits (ds : List Char) : Prop := ∀ c ∈ ds, c.isDigit = true

variable {ds rest : List Char} {c : Char} {n : Nat}

theorem ne_of_isDigit {d : Char} (h : c.isDigit = true) (hd : d.isDigit = false) : c ≠ d := by
  intro heq
  rw [heq, hd] at h
  cases h

theorem digitsValue_eq_ofDigitChars (ds : List Char) :
    digitsValue ds = Nat.ofDigitChars 10 ds 0 := by
  simp [digitsValue, digitValue, Nat.ofDigitChars_eq_foldl, Nat.mul_comm]

theorem digits_toDigits (n : Nat) : Digits (Nat.toDigits 10 n) := by
  intro c hc
  exact Nat.isDigit_of_mem_toDigits (by decide) (by decide) hc

theorem takeWhile_of_digitAhead (h : digitAhead rest = false) :
    rest.takeWhile Char.isDigit = [] ∧ rest.dropWhile Char.isDigit = rest := by
  cases rest with
  | nil => simp
  | cons c r =>
    have hc : c.isDigit = false := by simpa [digitAhead] using h
    simp [hc]

theorem Digits.takeWhile (hds : Digits ds) (h : digitAhead rest = false) :
    (ds ++ rest).takeWhile Char.isDigit = ds := by
  rw [List.takeWhile_append_of_pos hds, (takeWhile_of_digitAhead h).1, List.append_nil]

/-- Zero is the only number that begins with a zero. The induction is over the number without its
last digit, which has the same first digit unless the number has only one. -/
theorem head_toDigits (n : Nat) : ∃ c r, Nat.toDigits 10 n = c :: r ∧ (c = '0' → n = 0) := by
  induction n using Nat.strongRecOn with
  | ind n ih =>
    by_cases hn : n < 10
    · exact ⟨_, [], Nat.toDigits_of_lt_base hn, Nat.digitChar_eq_zero.mp⟩
    · obtain ⟨c, r, hfront, hzero⟩ := ih (n / 10) (by omega)
      refine ⟨c, r ++ [(n % 10).digitChar], ?_, ?_⟩
      · rw [Nat.toDigits_of_base_le (by decide) (by omega), hfront, List.cons_append]
      · intro hc
        have := hzero hc
        omega

end Text

/-! ## Digits up to a width -/

namespace Timestamp

variable {width n : Nat}

theorem digits_padded (width n : Nat) : Digits (padded width n) := by
  intro c hc
  rcases List.mem_append.mp hc with hzero | hdigit
  · rw [List.eq_of_mem_replicate hzero]
    rfl
  · exact digits_toDigits n c hdigit

@[simp]
theorem digitsValue_padded (width n : Nat) : digitsValue (padded width n) = n := by
  simp [padded, digitsValue_eq_ofDigitChars, Nat.ofDigitChars_append,
    Nat.ofDigitChars_replicate_zero, Nat.ofDigitChars_ten_toDigits]

theorem length_padded (hwidth : 0 < width) (h : n < 10 ^ width) :
    (padded width n).length = width := by
  have hle := (Nat.length_toDigits_le_iff (by decide : 1 < 10) hwidth).mpr h
  simp only [padded, List.length_append, List.length_replicate]
  omega

theorem padded_ne_nil (width n : Nat) : padded width n ≠ [] := by
  simp [padded, Nat.toDigits_ne_nil]

end Timestamp

/-! ## Whole numbers in JSON text -/

namespace Json

/-- What may stand behind a whole number: nothing that would belong to a number. -/
structure EndsNumber (rest : List Char) : Prop where
  digit : digitAhead rest = false
  point : ∀ r, rest ≠ '.' :: r
  exponent : ∀ r, rest ≠ 'e' :: r ∧ rest ≠ 'E' :: r

variable {ds rest : List Char} {n : Nat}

theorem le_ofDigitChars (ds : List Char) (n : Nat) : n ≤ Nat.ofDigitChars 10 ds n := by
  induction ds generalizing n with
  | nil => simp
  | cons c ds ih =>
    rw [Nat.ofDigitChars_cons]
    exact Nat.le_trans (by omega) (ih _)

/-- Digits are collected as long as the number they make fits. It grows with every digit, so if all
of them together fit, so do those that have been taken. -/
theorem collectWhole_append (hds : Digits ds) (hrest : digitAhead rest = false)
    (h : Nat.ofDigitChars 10 ds n ≤ maxWhole) :
    collectWhole n (ds ++ rest) = (Nat.ofDigitChars 10 ds n, 0, rest) := by
  induction ds generalizing n with
  | nil =>
    cases rest with
    | nil => rfl
    | cons c r =>
      have hc : c.isDigit = false := by simpa [digitAhead] using hrest
      simp [collectWhole, hc]
  | cons c ds ih =>
    rw [Nat.ofDigitChars_cons] at h ⊢
    have hstep : n * 10 + digitValue c = 10 * n + (c.toNat - '0'.toNat) := by
      rw [digitValue, Nat.mul_comm]
    have hfits := Nat.le_trans (le_ofDigitChars ds _) h
    rw [List.cons_append, collectWhole, if_pos (hds c List.mem_cons_self)]
    simp only [hstep, if_pos hfits]
    exact ih (fun d hd => hds d (List.mem_cons_of_mem c hd)) h

/-- A number is read back from its digits, as a whole number if it fits. Behind a minus sign zero is
a float, and so is what is below the least number with a sign. -/
theorem readNumber_toDigits (positive : Bool) (hn : n ≤ maxWhole) (h : EndsNumber rest) :
    readNumber positive (Nat.toDigits 10 n ++ rest) =
      if positive then .ok (.whole n, rest)
      else if n = 0 ∨ 0x8000000000000000 < n then
        .ok (.floating (Binary64.ofFloat (UInt64.ofNat n).toFloat).negate, rest)
      else .ok (.whole (-(n : Int)), rest) := by
  obtain ⟨c, r, hds, hzero⟩ := head_toDigits n
  have hc : c.isDigit = true := digits_toDigits n c (by simp [hds])
  -- a zero is read alone, and no printed number has more digits behind one
  have hcollect : (if c = '0' then (0, 0, r ++ rest) else collectWhole 0 (c :: (r ++ rest))) =
      (n, 0, rest) := by
    by_cases hc0 : c = '0'
    · obtain rfl := hzero hc0
      have hr : r = [] := by simpa using (List.cons.inj hds).2.symm
      simp [hc0, hr]
    · rw [if_neg hc0, ← List.cons_append, ← hds, collectWhole_append (digits_toDigits n) h.digit,
        Nat.ofDigitChars_ten_toDigits]
      rwa [Nat.ofDigitChars_ten_toDigits]
  rw [hds, List.cons_append]
  simp only [readNumber, hc, if_true, hcollect]
  -- a point or an exponent would make a float of it, but the number ends here
  split
  · exact absurd rfl (h.point _)
  · exact absurd rfl (h.exponent _).1
  · exact absurd rfl (h.exponent _).2
  · simp [h.digit]

end Json

end StoreModel
