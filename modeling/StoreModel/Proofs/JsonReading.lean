import StoreModel.Json.PropertyForm
import StoreModel.Proofs.DigitReading
import StoreModel.Proofs.LiteralReading
import StoreModel.Proofs.Results

/-!
# JSON text read back

The parts of a property are written as words, numbers, strings and arrays of bytes, and each is read
back from the front of a text. What stands behind is a variable: only a number asks something of it.

A string is a run of characters, each written in one of a few ways, and what is read of one does
not depend on the next. So the step is one character (`readStringChars_stringChar`), with a case for
each way, and the rest is an induction over the characters. An array goes the same way over its
bytes, but the first byte is written without a comma, so the induction starts at the second.
-/

set_option autoImplicit false

namespace StoreModel.Json

open StoreModel.Source StoreModel.Text

variable {c : Char} {r rest : List Char} {n : Nat}

theorem skipSpace_cons (h : isSpace c = false) : skipSpace (c :: r) = c :: r := by
  simp [skipSpace, h]

/-! ## Strings -/

theorem hexValue?_digitChar {d : Nat} (h : d < 16) : hexValue? (Nat.digitChar d) = some d :=
  (digitChar_hex d h).2.2

/-- A control character is read from its number, of which the two leading digits are always zero. No
second unit is asked for, since a surrogate is far above. -/
theorem readNumbered_control (h : c.toNat < 0x20) :
    readNumbered ('0' :: '0' :: Nat.digitChar (c.toNat / 16) :: Nat.digitChar (c.toNat % 16) :: r) =
      .ok (c, r) := by
  have hzero : hexValue? '0' = some 0 := rfl
  have hvalue : ((0 * 16 + 0) * 16 + c.toNat / 16) * 16 + c.toNat % 16 = c.toNat := by omega
  have hunit : readUnit ('0' :: '0' :: Nat.digitChar (c.toNat / 16) ::
      Nat.digitChar (c.toNat % 16) :: r) = .ok (c.toNat, r) := by
    simp only [readUnit, hzero, hexValue?_digitChar (show c.toNat / 16 < 16 by omega),
      hexValue?_digitChar (show c.toNat % 16 < 16 by omega), hvalue]
  refine bind_eq_ok_iff.mpr ⟨_, hunit, ?_⟩
  simp only [Char.ofNat_toNat]
  rw [if_neg (by omega), if_pos (by omega)]

section Step

variable {s : List Char} (h : readStringChars n r = .ok (s, rest))
include h

/-- A character that is written as a letter behind a backslash. What comes after the backslash
decides, so the letter of numbers has to be kept out. -/
theorem readStringChars_escape {e : Char} (hu : e ≠ 'u') (hletter : simpleEscape? e = some c) :
    readStringChars (n + 1) ('\\' :: e :: r) = .ok (c :: s, rest) := by
  rw [readStringChars, if_neg (by decide), if_pos rfl]
  simp only [if_neg hu, hletter]
  exact bind_eq_ok_iff.mpr ⟨(c, r), rfl, bind_eq_ok_iff.mpr ⟨_, h, rfl⟩⟩

theorem readStringChars_number (hc : c.toNat < 0x20) :
    readStringChars (n + 1) ('\\' :: 'u' :: '0' :: '0' :: Nat.digitChar (c.toNat / 16) ::
      Nat.digitChar (c.toNat % 16) :: r) = .ok (c :: s, rest) := by
  rw [readStringChars, if_neg (by decide), if_pos rfl]
  refine bind_eq_ok_iff.mpr ⟨(c, r), ?_, ?_⟩
  · exact readNumbered_control hc
  · exact bind_eq_ok_iff.mpr ⟨_, h, rfl⟩

/-- A character that stands for itself is none of those that the reader looks at first: the two that
end a run of characters, and the control characters, which are a fault. -/
theorem readStringChars_plain (hquote : c ≠ '"') (hslash : c ≠ '\\') (hc : ¬ c.toNat < 0x20) :
    readStringChars (n + 1) (c :: r) = .ok (c :: s, rest) := by
  rw [readStringChars.eq_def]
  simp only [if_neg hquote, if_neg hslash, if_neg hc]
  exact bind_eq_ok_iff.mpr ⟨_, h, rfl⟩

/-- Whatever way a character is written in, it is read back. One case for each way, in the order in
which the writer asks; a case that comes later has the answers of all earlier ones. -/
theorem readStringChars_stringChar :
    readStringChars (n + 1) (stringChar c ++ r) = .ok (c :: s, rest) := by
  unfold stringChar
  split_ifs with hquote hslash hline hreturn htab hback hfeed hcontrol
  · rw [hquote]
    exact readStringChars_escape h (by simp) rfl
  · rw [hslash]
    exact readStringChars_escape h (by simp) rfl
  · rw [hline]
    exact readStringChars_escape h (by simp) rfl
  · rw [hreturn]
    exact readStringChars_escape h (by simp) rfl
  · rw [htab]
    exact readStringChars_escape h (by simp) rfl
  · rw [hback]
    exact readStringChars_escape h (by simp) rfl
  · rw [hfeed]
    exact readStringChars_escape h (by simp) rfl
  · exact readStringChars_number h hcontrol
  · exact readStringChars_plain h hquote hslash hcontrol

end Step

/-- A run of characters is read back. The induction is on the characters, with the bound of the
reader carried along: each of them takes one step of it, and the closing quote another. -/
theorem readStringChars_flatMap (s : List Char) (h : s.length < n) :
    readStringChars n (s.flatMap stringChar ++ '"' :: rest) = .ok (s, rest) := by
  induction s generalizing n with
  | nil =>
    obtain ⟨n, rfl⟩ := Nat.exists_eq_succ_of_ne_zero (Nat.ne_of_gt h)
    rfl
  | cons c s ih =>
    obtain ⟨n, rfl⟩ := Nat.exists_eq_succ_of_ne_zero (Nat.ne_of_gt (Nat.zero_lt_of_lt h))
    rw [List.flatMap_cons, List.append_assoc]
    exact readStringChars_stringChar (ih (Nat.lt_of_succ_lt_succ h))

/-- Texts that are put together have at least as many characters as there are of them, so a bound by
the characters of a text is a bound by its parts. -/
theorem length_le_flatMap {α : Type} {f : α → List Char} (hf : ∀ a, f a ≠ []) (l : List α) :
    l.length ≤ (l.flatMap f).length := by
  induction l with
  | nil => simp
  | cons a l ih =>
    have hpos := List.length_pos_of_ne_nil (hf a)
    simp only [List.flatMap_cons, List.length_append, List.length_cons]
    omega

theorem stringChar_ne_nil (c : Char) : stringChar c ≠ [] := by
  unfold stringChar
  split_ifs <;> simp

/-- A string is read back, whatever its characters are. -/
theorem readString_flatMap (s : String) :
    readString (s.toList.flatMap stringChar ++ '"' :: rest) = .ok (s, rest) := by
  have hlength := length_le_flatMap stringChar_ne_nil s.toList
  refine bind_eq_ok_iff.mpr ⟨(s.toList, rest), readStringChars_flatMap _ ?_, ?_⟩
  · rw [List.length_append]
    omega
  · dsimp only
    rw [String.ofList_toList]

theorem stringText_append (s : String) : (stringText s).toList ++ rest =
    '"' :: (s.toList.flatMap stringChar ++ '"' :: rest) := by
  simp [stringText]

theorem readText_stringText (expected : Expected) (s : String) :
    readText expected ((stringText s).toList ++ rest) = .ok (s, rest) := by
  rw [stringText_append, readText, skipSpace_cons rfl]
  exact readString_flatMap s

/-! ## Words and numbers -/

theorem readBool_boolText (b : Bool) : readBool ((boolText b).toList ++ rest) = .ok (b, rest) := by
  cases b <;> rfl

theorem isSpace_of_isDigit (h : c.isDigit = true) : isSpace c = false := by
  simp [isSpace, ne_of_isDigit h (d := ' ') rfl, ne_of_isDigit h (d := '\n') rfl,
    ne_of_isDigit h (d := '\t') rfl, ne_of_isDigit h (d := '\r') rfl]

theorem readSigned_negative {x : Number} (h : readNumber false r = .ok (x, rest)) :
    readSigned ('-' :: r) = .ok (x, rest) := by
  simp [readSigned, h]

theorem readSigned_positive {x : Number} (hc : c.isDigit = true)
    (h : readNumber true (c :: r) = .ok (x, rest)) : readSigned (c :: r) = .ok (x, rest) := by
  have hsign := ne_of_isDigit hc (d := '-') rfl
  simp [readSigned, hsign, h]

/-- A whole number is read back if it lies in the range that is asked for, and the range within what
the reader can hold before it takes a number for a float. -/
theorem readWhole_intText (expected : Expected) {lo hi z : Int} (h : lo ≤ z ∧ z ≤ hi)
    (hlo : -0x8000000000000000 ≤ lo) (hhi : hi ≤ 0xFFFFFFFFFFFFFFFF) (hrest : EndsNumber rest) :
    readWhole expected lo hi ((intText z).toList ++ rest) = .ok (z, rest) := by
  have hfits : z.natAbs ≤ maxWhole := by
    unfold maxWhole
    omega
  refine bind_eq_ok_iff.mpr ⟨(.whole z, rest), ?_, if_pos h⟩
  -- zero has no sign, so what stands behind a sign is never read as a negative zero
  by_cases hneg : z < 0
  · have htext : (intText z).toList = '-' :: Nat.toDigits 10 z.natAbs := by simp [intText, hneg]
    have hnumber : readNumber false (Nat.toDigits 10 z.natAbs ++ rest) = .ok (.whole z, rest) := by
      have hz : -((z.natAbs : Nat) : Int) = z := by omega
      rw [readNumber_toDigits false hfits hrest, if_neg (by decide), if_neg (by omega), hz]
    rw [htext, List.cons_append, readAnyNumber, skipSpace_cons rfl]
    exact (if_pos (Or.inl rfl)).trans (readSigned_negative hnumber)
  · have htext : (intText z).toList = Nat.toDigits 10 z.natAbs := by simp [intText, hneg]
    have hnumber : readNumber true (Nat.toDigits 10 z.natAbs ++ rest) = .ok (.whole z, rest) := by
      have hz : ((z.natAbs : Nat) : Int) = z := by omega
      rw [readNumber_toDigits true hfits hrest, if_pos rfl, hz]
    obtain ⟨c, ds, hds, -⟩ := head_toDigits z.natAbs
    have hc : c.isDigit = true := digits_toDigits z.natAbs c (by simp [hds])
    rw [hds, List.cons_append] at hnumber
    rw [htext, hds, List.cons_append, readAnyNumber, skipSpace_cons (isSpace_of_isDigit hc)]
    exact (if_pos (Or.inr hc)).trans (readSigned_positive hc hnumber)

/-! ## Bytes -/

/-- The first of several texts has no comma in front. -/
theorem intercalate_comma_cons (x : List Char) (xs : List (List Char)) :
    [','].intercalate (x :: xs) = x ++ xs.flatMap (',' :: ·) := by
  induction xs generalizing x with
  | nil => simp
  | cons y ys ih => simp [List.intercalate_cons_cons, ih]

/-- No number goes on behind what closes it in an object or an array: a comma, or one of the two
closing brackets. -/
theorem endsNumber_cons (h : c = ',' ∨ c = ']' ∨ c = '}') : EndsNumber (c :: r) := by
  rcases h with rfl | rfl | rfl
  all_goals exact ⟨rfl, by simp, by simp⟩

/-- The digits of a byte. -/
def byteChars (b : UInt8) : List Char := (intText b.toNat).toList

variable {b : UInt8} {bs : List UInt8}

/-- A byte begins with a digit, never with a sign, a space or a bracket. It is all that the reader
of arrays looks at before it reads a number. -/
theorem byteChars_head (b : UInt8) : ∃ c ds, byteChars b = c :: ds ∧ c.isDigit = true := by
  obtain ⟨c, ds, hds, -⟩ := head_toDigits b.toNat
  refine ⟨c, ds, ?_, digits_toDigits b.toNat c (by simp [hds])⟩
  rw [← hds]
  simp [byteChars, intText]

theorem nextElement_first (hc : c.isDigit = true) :
    nextElement true (c :: r) = .ok (some (c :: r)) := by
  have hclose := ne_of_isDigit hc (d := ']') rfl
  simp [nextElement, skipSpace_cons (isSpace_of_isDigit hc), hclose]

theorem nextElement_comma (hc : c.isDigit = true) :
    nextElement false (',' :: c :: r) = .ok (some (c :: r)) := by
  have hclose := ne_of_isDigit hc (d := ']') rfl
  have hcomma : isSpace ',' = false := rfl
  simp [nextElement, skipSpace_cons hcomma, skipSpace_cons (isSpace_of_isDigit hc), hclose]

/-- A byte is read, and then those behind it. Whether it is the first one is left open, since that
only decides what has to stand in front. -/
theorem readByteElements_step {first : Bool} {cs : List Char}
    (hnext : nextElement first cs = .ok (some (byteChars b ++ r))) (hr : EndsNumber r)
    (h : readByteElements n false r = .ok (bs, rest)) :
    readByteElements (n + 1) first cs = .ok (b :: bs, rest) := by
  have hbyte : readWhole .byte 0 255 (byteChars b ++ r) = .ok ((b.toNat : Int), r) := by
    have hlt := b.toNat_lt
    exact readWhole_intText .byte (by omega) (by decide) (by decide) hr
  refine bind_eq_ok_iff.mpr ⟨_, hnext, ?_⟩
  refine bind_eq_ok_iff.mpr ⟨_, hbyte, ?_⟩
  refine bind_eq_ok_iff.mpr ⟨_, h, ?_⟩
  simp

/-- Behind a byte there is the comma of the next one or the end of the array, and both end a number.
-/
theorem endsNumber_tail (bs : List UInt8) :
    EndsNumber (bs.flatMap (fun b => ',' :: byteChars b) ++ ']' :: rest) := by
  cases bs with
  | nil => exact endsNumber_cons (by simp)
  | cons b bs => exact endsNumber_cons (by simp)

/-- The bytes behind the first, each with its comma. The induction is on the bytes, and the bound
goes down with them as it does for the characters of a string. -/
theorem readByteElements_flatMap (bs : List UInt8) (h : bs.length < n) :
    readByteElements n false (bs.flatMap (fun b => ',' :: byteChars b) ++ ']' :: rest) =
      .ok (bs, ']' :: rest) := by
  induction bs generalizing n with
  | nil =>
    obtain ⟨n, rfl⟩ := Nat.exists_eq_succ_of_ne_zero (Nat.ne_of_gt h)
    rfl
  | cons b bs ih =>
    obtain ⟨n, rfl⟩ := Nat.exists_eq_succ_of_ne_zero (Nat.ne_of_gt (Nat.zero_lt_of_lt h))
    obtain ⟨c, ds, hds, hc⟩ := byteChars_head b
    refine readByteElements_step ?_ (endsNumber_tail bs) (ih (Nat.lt_of_succ_lt_succ h))
    rw [List.flatMap_cons, hds]
    simpa using nextElement_comma hc

/-- Bytes are read back, however many they are. The empty array is closed before a byte is asked
for; otherwise the first byte is read without a comma and the rest as above. -/
theorem readBytes_bytesText (bs : List UInt8) :
    readBytes ((bytesText bs).toList ++ rest) = .ok (bs, rest) := by
  cases bs with
  | nil => rfl
  | cons b bs =>
    have htext : (bytesText (b :: bs)).toList ++ rest =
        '[' :: (byteChars b ++ (bs.flatMap (fun b => ',' :: byteChars b) ++ ']' :: rest)) := by
      simp [bytesText, intercalate_comma_cons, List.flatMap_map, byteChars]
    obtain ⟨c, ds, hds, hc⟩ := byteChars_head b
    have hfirst : ∀ r, nextElement true (byteChars b ++ r) = .ok (some (byteChars b ++ r)) := by
      intro r
      rw [hds]
      exact nextElement_first hc
    have hbytes : ∀ n, bs.length < n → readByteElements (n + 1) true
        (byteChars b ++ (bs.flatMap (fun b => ',' :: byteChars b) ++ ']' :: rest)) =
        .ok (b :: bs, ']' :: rest) := by
      intro n hn
      exact readByteElements_step (hfirst _) (endsNumber_tail bs) (readByteElements_flatMap bs hn)
    -- the reader allows itself as many bytes as there are characters left
    have hlength := length_le_flatMap (f := fun b => ',' :: byteChars b) (by simp) bs
    rw [htext, readBytes, skipSpace_cons rfl]
    refine bind_eq_ok_iff.mpr ⟨_, hbytes _ ?_, rfl⟩
    simp only [List.length_append, List.length_cons]
    omega

end StoreModel.Json
