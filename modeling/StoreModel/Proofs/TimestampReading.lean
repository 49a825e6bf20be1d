import Mathlib.Tactic.SplitIfs
import StoreModel.Proofs.DigitReading
import StoreModel.Proofs.Results

/-!
# Timestamps read back

A timestamp is read back from its written form. The reader takes the parts one after another, and of
each it is shown here that it takes what was written, whatever follows, as long as that is the mark
which is written there. The written form leaves two things to the reader. How long the fraction is
tells what its digits count, and second 60 is a second 59 that goes on for another second; the
invariant of timestamps says that no other second does.
-/

set_option autoImplicit false

namespace StoreModel

open StoreModel.Text

/-- No digit is a blank. Blanks before a number are skipped when reading, so this keeps the digits
of one. -/
theorem Text.isBlank_of_isDigit {c : Char} (h : c.isDigit = true) : isBlank c = false := by
  have hbounds : 48 ≤ c.toNat ∧ c.toNat ≤ 57 := by
    simpa [Char.isDigit, UInt32.le_iff_toNat_le] using h
  simp [isBlank, blanks, CharSet.contains]
  omega

namespace Timestamp

variable {ds r rest : List Char} {c : Char} {n lo hi width : Nat}

/-! ## Parts -/

theorem skipBlanks_cons (h : isBlank c = false) : skipBlanks (c :: r) = c :: r := by
  simp [skipBlanks, h]

theorem skipBlanks_digits (hds : Digits ds) (hne : ds ≠ []) :
    skipBlanks (ds ++ rest) = ds ++ rest := by
  obtain ⟨c, ds, rfl⟩ := List.exists_cons_of_ne_nil hne
  exact skipBlanks_cons (isBlank_of_isDigit (hds c List.mem_cons_self))

/-- A number is read back from digits that another digit does not follow, if the width admits them
all and the value fits 64 bits with a sign. -/
theorem readNumber_digits {w : Option Nat} (hds : Digits ds) (hne : ds ≠ [])
    (hw : ∀ k ∈ w, ds.length ≤ k) (hvalue : digitsValue ds < 0x8000000000000000)
    (hrest : digitAhead rest = false) : readNumber w (ds ++ rest) = .ok (digitsValue ds, rest) := by
  obtain ⟨c, ds', rfl⟩ := List.exists_cons_of_ne_nil hne
  have hc : c.isDigit = true := hds c List.mem_cons_self
  have hall := hds.takeWhile hrest
  rw [List.cons_append] at hall ⊢
  have hdrop : (c :: (ds' ++ rest)).drop (c :: ds').length = rest := by simp
  cases w with
  | none => simp only [readNumber, if_pos hc, hall, if_pos hvalue, hdrop]
  | some k =>
    have htake : (c :: ds').take k = c :: ds' := List.take_of_length_le (hw k rfl)
    simp only [readNumber, if_pos hc, hall, htake, if_pos hvalue, hdrop]

theorem readNumber_padded {k : Nat} (hwidth : 0 < width) (h : n < 10 ^ width) (hk : width ≤ k)
    (hle : k ≤ 9) (hrest : digitAhead rest = false) :
    readNumber (some k) (padded width n ++ rest) = .ok (n, rest) := by
  have hbound : n < 10 ^ 9 :=
    Nat.lt_of_lt_of_le h (Nat.pow_le_pow_right (by decide) (by omega))
  have hread := readNumber_digits (w := some k) (digits_padded width n) (padded_ne_nil width n)
    (by simpa [length_padded hwidth h] using hk) (by rw [digitsValue_padded]; omega) hrest
  rwa [digitsValue_padded] at hread

/-- A part of two digits is read back if it lies in its range; months, days, hours, minutes and
seconds are all read so. -/
theorem readPart_padded (h : lo ≤ n ∧ n ≤ hi) (hhi : hi < 100) (hrest : digitAhead rest = false) :
    readPart lo hi (padded 2 n ++ rest) = .ok (n, rest) := by
  have hread : readNumber (some 2) (padded 2 n ++ rest) = .ok (n, rest) :=
    readNumber_padded (by omega) (by omega) (by omega) (by omega) hrest
  rw [readPart, skipBlanks_digits (digits_padded 2 n) (padded_ne_nil 2 n), hread]
  exact if_pos h

theorem readMark_self (h : isBlank c = false) : readMark c (c :: r) = .ok r := by
  simp [readMark, skipBlanks_cons h]

/-- A year is read back, with a sign or without. Years from 0 to 9999 are written with four digits
and no sign; all others have a sign, and then any number of digits is read. -/
theorem readYear_yearChars {y : Int} (h : minYear ≤ y ∧ y ≤ maxYear)
    (hrest : digitAhead rest = false) : readYear (yearChars y ++ rest) = .ok (y, rest) := by
  obtain ⟨hlo, hhi⟩ := h
  simp only [minYear, maxYear] at hlo hhi
  have hbounds : -0x80000000 ≤ y ∧ y < 0x80000000 := by omega
  by_cases hfour : 0 ≤ y ∧ y ≤ 9999
  · have hread : readNumber (some 4) (padded 4 y.toNat ++ rest) = .ok (y.toNat, rest) :=
      readNumber_padded (by omega) (by omega) (by omega) (by omega) hrest
    have hy : ((y.toNat : Nat) : Int) = y := by omega
    obtain ⟨d, ds, hcons⟩ := List.exists_cons_of_ne_nil (padded_ne_nil 4 y.toNat)
    have hd : d.isDigit = true := digits_padded 4 y.toNat d (by simp [hcons])
    rw [yearChars, if_pos hfour, readYear,
      skipBlanks_digits (digits_padded 4 y.toNat) (padded_ne_nil 4 y.toNat)]
    rw [hcons, List.cons_append] at hread ⊢
    split
    -- the text begins with a digit, which is neither of the signs
    case h_1 heq => simp_all
    case h_2 heq => simp_all
    case h_3 =>
      refine bind_eq_ok_iff.mpr ⟨_, hread, ?_⟩
      dsimp only
      rw [hy]
      exact if_pos hbounds
  · have hread : readNumber none (padded 4 y.natAbs ++ rest) = .ok (y.natAbs, rest) := by
      have hdigits := readNumber_digits (w := none) (digits_padded 4 y.natAbs)
        (padded_ne_nil 4 y.natAbs) (by simp) (by rw [digitsValue_padded]; omega) hrest
      rwa [digitsValue_padded] at hdigits
    rw [yearChars, if_neg hfour, List.cons_append]
    by_cases hneg : y < 0
    · have hy : -((y.natAbs : Nat) : Int) = y := by omega
      have hblank : isBlank '-' = false := rfl
      rw [if_pos hneg, readYear, skipBlanks_cons hblank]
      refine bind_eq_ok_iff.mpr ⟨_, hread, ?_⟩
      dsimp only
      rw [hy]
      exact if_pos hbounds
    · have hy : ((y.natAbs : Nat) : Int) = y := by omega
      have hblank : isBlank '+' = false := rfl
      rw [if_neg hneg, readYear, skipBlanks_cons hblank]
      refine bind_eq_ok_iff.mpr ⟨_, hread, ?_⟩
      dsimp only
      rw [hy]
      exact if_pos hbounds

/-- A fraction counts by how many digits it has, and the reader tells that from what is left. So
each digit that is not written makes the number ten times what the digits say. -/
theorem readFraction_padded (hwidth : 0 < width) (h : n < 10 ^ width) (hle : width ≤ 9)
    (hrest : digitAhead rest = false) :
    readFraction ('.' :: (padded width n ++ rest)) = .ok (n * 10 ^ (9 - width), rest) := by
  have hread : readNumber (some 9) (padded width n ++ rest) = .ok (n, rest) :=
    readNumber_padded hwidth h hle (by omega) hrest
  have hused : (padded width n ++ rest).length - rest.length = width := by
    simp [length_padded hwidth h]
  refine bind_eq_ok_iff.mpr ⟨_, hread, ?_⟩
  simp only [hused, Nat.pow_eq, (takeWhile_of_digitAhead hrest).2]

/-- Of a fraction as many digits are written as are exact: none, three, six or nine. In each case
what the digits stand for is the number again, because the rest of it is zeros. -/
theorem readFraction_fractionChars (h : n < 1000000000) :
    readFraction (fractionChars n ++ 'Z' :: r) = .ok (n, 'Z' :: r) := by
  have hread (w k : Nat) (hw : 0 < w ∧ w ≤ 9) (hk : k < 10 ^ w) (hn : k * 10 ^ (9 - w) = n) :
      readFraction ('.' :: (padded w k ++ 'Z' :: r)) = .ok (n, 'Z' :: r) := by
    rw [readFraction_padded hw.1 hk hw.2 rfl, hn]
  unfold fractionChars
  split_ifs with hzero hmilli hmicro
  · rw [hzero]
    rfl
  · exact hread 3 (n / 1000000) (by omega) (by omega) (by omega)
  · exact hread 6 (n / 1000) (by omega) (by omega) (by omega)
  · exact hread 9 n (by omega) (by omega) (by omega)

theorem digitAhead_fractionChars (n : Nat) : digitAhead (fractionChars n ++ 'Z' :: r) = false := by
  unfold fractionChars
  split_ifs <;> rfl

/-! ## Leap seconds -/

/-- The second of the minute as it is written, 60 in a leap second. -/
def shownSecond (t : Timestamp) : Nat :=
  t.second % 60 + (if decide (1000000000 ≤ t.nano) then 1 else 0)

/-- The nanoseconds as they are written. -/
def shownNano (t : Timestamp) : Nat :=
  if decide (1000000000 ≤ t.nano) then t.nano - 1000000000 else t.nano

/-- The written form, with the second and the nanoseconds as they are shown. Only these two differ
from what the timestamp holds, and only in a leap second. -/
theorem chars_eq_shown (t : Timestamp) : t.chars = yearChars t.date.year ++
    '-' :: (padded 2 t.date.month ++ '-' :: (padded 2 t.date.day ++
      'T' :: (padded 2 (t.second / 3600) ++ ':' :: (padded 2 (t.second / 60 % 60) ++
        ':' :: (padded 2 t.shownSecond ++ (fractionChars t.shownNano ++ ['Z'])))))) := rfl

theorem shownSecond_le (t : Timestamp) : t.shownSecond ≤ 60 := by
  unfold shownSecond
  split <;> omega

theorem shownNano_lt (t : Timestamp) : t.shownNano < 1000000000 := by
  have hnano := t.nano_lt
  simp only [shownNano, decide_eq_true_eq]
  split <;> omega

/-- Second 60 is shown in a leap second and at no other time. The invariant is needed for one
direction: a leap second is always at the end of a minute. -/
theorem shownSecond_eq_sixty_iff (t : Timestamp) : t.shownSecond = 60 ↔ 1000000000 ≤ t.nano := by
  have hleap := t.leap
  simp only [shownSecond, decide_eq_true_eq]
  split <;> omega

theorem second_of_shown (t : Timestamp) :
    (if t.shownSecond == 60 then 59 else t.shownSecond) = t.second % 60 := by
  have hleap := t.leap
  simp only [beq_iff_eq, shownSecond_eq_sixty_iff]
  split
  case isTrue hlong => exact (hleap hlong).symm
  case isFalse hshort => simp [shownSecond, hshort]

theorem nano_of_shown (t : Timestamp) :
    (if t.shownSecond == 60 then t.shownNano + 1000000000 else t.shownNano) = t.nano := by
  simp only [beq_iff_eq, shownSecond_eq_sixty_iff, shownNano, decide_eq_true_eq]
  split <;> omega

/-! ## Whole timestamps -/

/-- Without an offset a local time is the timestamp itself: no day is crossed, and the conditions
that are checked at the end are those that a timestamp carries. -/
theorem ofLocal_self (t : Timestamp) : ofLocal t.date t.second t.nano 0 = .ok t := by
  have hsecond := t.second_lt
  have hday : ((t.second : Int) % 86400).toNat = t.second := by omega
  have hdate : ¬ (t.second : Int) < 0 ∧ ¬ 86400 ≤ (t.second : Int) := by omega
  unfold ofLocal
  simp only [Int.sub_zero, hday, if_neg hdate.1, if_neg hdate.2]
  exact dif_pos ⟨t.second_lt, t.nano_lt, t.leap⟩

/-- The parts in a row. Each is read by its own lemma with all the later ones behind it; what
remains is that hours, minutes and seconds add up to the second of the day. -/
theorem readChars_chars (t : Timestamp) : readChars t.chars = .ok t := by
  have hmonth := t.date.month_mem
  have hday : 1 ≤ t.date.day ∧ t.date.day ≤ 31 := by
    have hmem := t.date.day_mem
    unfold daysInMonth at hmem
    split_ifs at hmem <;> omega
  have hsecond := t.second_lt
  have hwhole : t.second / 3600 * 3600 + t.second / 60 % 60 * 60 + t.second % 60 = t.second := by
    omega
  rw [chars_eq_shown]
  unfold readChars
  -- one step for each part and for each mark behind it, up to the offset
  refine bind_eq_ok_iff.mpr ⟨_, readYear_yearChars t.date.year_mem rfl, ?_⟩
  refine bind_eq_ok_iff.mpr ⟨_, readMark_self rfl, ?_⟩
  refine bind_eq_ok_iff.mpr ⟨_, readPart_padded hmonth (by omega) rfl, ?_⟩
  refine bind_eq_ok_iff.mpr ⟨_, readMark_self rfl, ?_⟩
  refine bind_eq_ok_iff.mpr ⟨_, readPart_padded hday (by omega) rfl, ?_⟩
  refine bind_eq_ok_iff.mpr ⟨_, rfl, ?_⟩
  refine bind_eq_ok_iff.mpr ⟨_, readPart_padded (by omega) (by omega) rfl, ?_⟩
  refine bind_eq_ok_iff.mpr ⟨_, readMark_self rfl, ?_⟩
  refine bind_eq_ok_iff.mpr ⟨_, readPart_padded (by omega) (by omega) rfl, ?_⟩
  refine bind_eq_ok_iff.mpr ⟨_, readMark_self rfl, ?_⟩
  refine bind_eq_ok_iff.mpr ⟨_, readPart_padded ⟨Nat.zero_le _, t.shownSecond_le⟩ (by omega)
    (digitAhead_fractionChars _), ?_⟩
  refine bind_eq_ok_iff.mpr ⟨_, readFraction_fractionChars t.shownNano_lt, ?_⟩
  refine bind_eq_ok_iff.mpr ⟨((0 : Int), []), by rw [skipBlanks_cons rfl]; rfl, ?_⟩
  simp only [Date.of?_parts, second_of_shown, nano_of_shown, hwhole]
  exact (if_pos rfl).trans ((if_pos (by decide)).trans t.ofLocal_self)

/-- A timestamp is read back from its written form, leap seconds too. -/
theorem read_text (t : Timestamp) : read t.text = .ok t := by
  simp [read, text, readChars_chars]

end Timestamp

end StoreModel
