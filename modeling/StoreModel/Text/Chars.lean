/-!
# Characters and their classes

What the readers and the printers of text ask about characters: whether a table holds them, whether
they are white space, what they are worth as digits, and where they split a text.
-/

set_option autoImplicit false

namespace StoreModel.Text

/-! ## Tables

A property of characters that no formula decides is given by a table: inclusive ranges of code
points in ascending order. Membership is a search through the ranges, so a statement about a table
(two tables share no character, one table lies inside another) is a statement about its ranges and
can be evaluated. -/

/-- A set of characters, as inclusive ranges of code points. -/
structure CharSet where
  ranges : List (Nat × Nat)

namespace CharSet

/-- Membership: some range holds the code point. -/
def contains (s : CharSet) (c : Char) : Bool :=
  s.ranges.any fun r => decide (r.1 ≤ c.toNat) && decide (c.toNat ≤ r.2)

/-- No two ranges of the two sets overlap. -/
def disjoint (s t : CharSet) : Bool :=
  s.ranges.all fun r => t.ranges.all fun u => decide (r.2 < u.1) || decide (u.2 < r.1)

theorem contains_iff {s : CharSet} {c : Char} :
    s.contains c = true ↔ ∃ r ∈ s.ranges, r.1 ≤ c.toNat ∧ c.toNat ≤ r.2 := by
  simp [contains]

/-- Sets whose ranges do not overlap share no character. -/
theorem not_contains_of_disjoint {s t : CharSet} {c : Char} (h : s.disjoint t = true)
    (hs : s.contains c = true) : t.contains c = false := by
  obtain ⟨r, hr, hlo, hhi⟩ := contains_iff.1 hs
  rw [Bool.eq_false_iff]
  intro ht
  obtain ⟨u, hu, hlo', hhi'⟩ := contains_iff.1 ht
  simp only [disjoint, List.all_eq_true, Bool.or_eq_true, decide_eq_true_eq] at h
  have := h r hr u hu
  omega

end CharSet

/-! ## White space

White space as the Unicode property `White_Space` has it, and its removal from both ends of a text.
Names written in tags are trimmed with it, and the reader of source text skips it. -/

/-- The characters with the property `White_Space`. -/
def blanks : CharSet where
  ranges := [
    (0x9, 0xD), (0x20, 0x20), (0x85, 0x85), (0xA0, 0xA0), (0x1680, 0x1680), (0x2000, 0x200A),
    (0x2028, 0x2029), (0x202F, 0x202F), (0x205F, 0x205F), (0x3000, 0x3000)]

/-- White space. -/
def isBlank (c : Char) : Bool := blanks.contains c

/-- The text without the white space at its two ends. -/
def trimChars (cs : List Char) : List Char :=
  ((cs.dropWhile isBlank).reverse.dropWhile isBlank).reverse

/-! ## Digits

Only the ASCII digits count. -/

/-- The value of a decimal digit. -/
def digitValue (c : Char) : Nat := c.toNat - '0'.toNat

/-- The value of decimal digits. -/
def digitsValue (ds : List Char) : Nat := ds.foldl (fun n c => n * 10 + digitValue c) 0

/-- The value of a hexadecimal digit. -/
def hexValue? (c : Char) : Option Nat :=
  if '0' ≤ c ∧ c ≤ '9' then some (c.toNat - '0'.toNat)
  else if 'a' ≤ c ∧ c ≤ 'f' then some (c.toNat - 'a'.toNat + 10)
  else if 'A' ≤ c ∧ c ≤ 'F' then some (c.toNat - 'A'.toNat + 10)
  else none

/-- A decimal digit stands at the front. -/
def digitAhead (cs : List Char) : Bool := (cs.head?.map Char.isDigit).getD false

/-! ## Pieces of a text

There is one piece more than there are places of the character that splits the text, and no piece
holds it. -/

/-- The pieces of a text between the places of a character. -/
def splitAt (sep : Char) : List Char → List (List Char)
  | [] => [[]]
  | c :: r =>
    if c = sep then [] :: splitAt sep r
    else match splitAt sep r with
      | [] => [[c]]
      | p :: ps => (c :: p) :: ps

theorem splitAt_ne_nil (sep : Char) (cs : List Char) : splitAt sep cs ≠ [] := by
  cases cs with
  | nil => simp [splitAt]
  | cons c r =>
    simp only [splitAt]
    split
    · simp
    · split <;> simp

/-- No piece holds the character. -/
theorem not_mem_of_mem_splitAt (sep : Char) (cs : List Char) :
    ∀ p ∈ splitAt sep cs, sep ∉ p := by
  induction cs with
  | nil => simp [splitAt]
  | cons c r ih =>
    rw [splitAt]
    by_cases hc : c = sep
    · rw [if_pos hc]
      simpa using ih
    · rw [if_neg hc]
      have hne : sep ≠ c := fun e => hc e.symm
      cases hpieces : splitAt sep r with
      | nil => exact absurd hpieces (splitAt_ne_nil sep r)
      | cons q qs =>
        rw [hpieces] at ih
        intro p hp
        rcases List.mem_cons.mp hp with rfl | hp
        · rw [List.mem_cons, not_or]
          exact ⟨hne, ih q List.mem_cons_self⟩
        · exact ih p (List.mem_cons_of_mem _ hp)

/-- A piece ends at the first place of the character. -/
theorem splitAt_append {sep : Char} {p : List Char} (h : sep ∉ p) (r : List Char) :
    splitAt sep (p ++ sep :: r) = p :: splitAt sep r := by
  induction p with
  | nil => simp [splitAt]
  | cons c p ih =>
    rw [List.mem_cons, not_or] at h
    rw [List.cons_append, splitAt, if_neg (fun e => h.1 e.symm), ih h.2]

theorem splitAt_of_not_mem {sep : Char} {p : List Char} (h : sep ∉ p) : splitAt sep p = [p] := by
  induction p with
  | nil => rfl
  | cons c p ih =>
    rw [List.mem_cons, not_or] at h
    rw [splitAt, if_neg (fun e => h.1 e.symm), ih h.2]

/-- A text is its first piece, with nothing behind it or with the character and a text that has the
other pieces. -/
theorem of_splitAt_eq_cons {sep : Char} {cs p : List Char} {ps : List (List Char)}
    (h : splitAt sep cs = p :: ps) :
    sep ∉ p ∧ (cs = p ∧ ps = [] ∨ ∃ r, cs = p ++ sep :: r ∧ splitAt sep r = ps) := by
  refine ⟨not_mem_of_mem_splitAt sep cs p (h ▸ List.mem_cons_self), ?_⟩
  by_cases hmem : sep ∈ cs
  · obtain ⟨q, r, rfl, hq⟩ := List.eq_append_cons_of_mem hmem
    rw [splitAt_append hq, List.cons.injEq] at h
    obtain ⟨rfl, rfl⟩ := h
    exact Or.inr ⟨r, rfl, rfl⟩
  · rw [splitAt_of_not_mem hmem, List.cons.injEq] at h
    exact Or.inl ⟨h.1, h.2.symm⟩

/-- Two texts with the character between them have the pieces of both. -/
theorem splitAt_append_cons {sep : Char} (cs r : List Char) :
    splitAt sep (cs ++ sep :: r) = splitAt sep cs ++ splitAt sep r := by
  induction h : splitAt sep cs generalizing cs with
  | nil => exact absurd h (splitAt_ne_nil sep cs)
  | cons p ps ih =>
    obtain ⟨hp, ⟨rfl, rfl⟩ | ⟨q, rfl, hq⟩⟩ := of_splitAt_eq_cons h
    · exact splitAt_append hp r
    · rw [List.append_assoc, List.cons_append, splitAt_append hp, ih q hq, List.cons_append]

theorem splitAt_reverse {sep : Char} (cs : List Char) :
    splitAt sep cs.reverse = ((splitAt sep cs).map List.reverse).reverse := by
  induction h : splitAt sep cs generalizing cs with
  | nil => exact absurd h (splitAt_ne_nil sep cs)
  | cons p ps ih =>
    obtain ⟨hp, ⟨rfl, rfl⟩ | ⟨q, rfl, hq⟩⟩ := of_splitAt_eq_cons h
    · exact splitAt_of_not_mem (mt List.mem_reverse.mp hp)
    · rw [List.reverse_append, List.reverse_cons, List.append_assoc, List.singleton_append,
        splitAt_append_cons, ih q hq, splitAt_of_not_mem (mt List.mem_reverse.mp hp), List.map_cons,
        List.reverse_cons]

end StoreModel.Text
