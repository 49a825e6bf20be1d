import Mathlib.Data.List.TakeWhile
import StoreModel.Entity.Basic

/-!
# What a tag says

`Tag.read` splits a tag at its commas before it trims anything, so blanks count around the comma and
do not count at the two ends of the name. This file says what is accepted as a form of texts, with
no word on how they are split: a text spells a tag (`Tag.Spells`) if it is the name, blanks around
it, and then nothing or the comma and the word. A text has one form at most (`Tag.read_eq_ok_iff`),
and the two ways in which reading fails are the two ways of having none. `Tag.read_grammar` puts
this together, with the two ways told apart by the commas of the text.
-/

set_option autoImplicit false

namespace StoreModel

open StoreModel.Text

/-! ## Trimming -/

namespace Text

def AllBlank (cs : List Char) : Prop := ∀ c ∈ cs, isBlank c = true

/-- No blank stands at either end. -/
def Trimmed (cs : List Char) : Prop :=
  (∀ c, cs.head? = some c → isBlank c = false) ∧ ∀ c, cs.getLast? = some c → isBlank c = false

theorem AllBlank.eq_nil {cs : List Char} (h : AllBlank cs) (ht : Trimmed cs) : cs = [] := by
  cases cs with
  | nil => rfl
  | cons c r =>
    have hblank := h c List.mem_cons_self
    rw [ht.1 c rfl] at hblank
    cases hblank

theorem Trimmed.reverse {cs : List Char} (h : Trimmed cs) : Trimmed cs.reverse := by
  refine ⟨fun c hc => ?_, fun c hc => ?_⟩
  · exact h.2 c (by rwa [List.head?_reverse] at hc)
  · exact h.1 c (by rwa [List.getLast?_reverse] at hc)

theorem dropWhile_append_trimmed {u n : List Char} (hu : AllBlank u) (hn : Trimmed n) :
    (u ++ n).dropWhile isBlank = n := by
  rw [List.dropWhile_append_of_pos hu]
  cases n with
  | nil => rfl
  | cons c r => exact List.dropWhile_cons_of_neg (by rw [hn.1 c rfl]; simp)

/-- What stands between blanks and has none at its ends is what is left of the text. If it is empty,
the blanks on both sides are one stretch and go all at once, so that case is apart. -/
theorem trimChars_append {u n v : List Char} (hu : AllBlank u) (hv : AllBlank v)
    (hn : Trimmed n) : trimChars (u ++ n ++ v) = n := by
  have hv' : AllBlank v.reverse := fun c hc => hv c (List.mem_reverse.mp hc)
  unfold trimChars
  rw [List.append_assoc, List.dropWhile_append_of_pos hu]
  cases n with
  | nil =>
    rw [List.nil_append, List.dropWhile_eq_nil_iff.mpr hv]
    rfl
  | cons c r =>
    have hc : ¬ isBlank c = true := by
      rw [hn.1 c rfl]
      simp
    rw [List.cons_append, List.dropWhile_cons_of_neg hc, ← List.cons_append,
      List.reverse_append, dropWhile_append_trimmed hv' hn.reverse, List.reverse_reverse]

theorem isBlank_of_head?_dropWhile {cs : List Char} {c : Char}
    (h : (cs.dropWhile isBlank).head? = some c) : isBlank c = false := by
  have hnot := List.head?_dropWhile_not isBlank cs
  rw [h] at hnot
  exact hnot

/-- A text is what is left of it with blanks on both sides, and what is left has none at its ends.
With `trimChars_append` this says that trimming is the only way to see a text so. -/
theorem exists_trimChars (cs : List Char) :
    ∃ u v, cs = u ++ trimChars cs ++ v ∧ AllBlank u ∧ AllBlank v ∧ Trimmed (trimChars cs) := by
  have hback : cs.dropWhile isBlank = trimChars cs ++
      ((cs.dropWhile isBlank).reverse.takeWhile isBlank).reverse := by
    unfold trimChars
    rw [← List.reverse_append, List.takeWhile_append_dropWhile, List.reverse_reverse]
  refine ⟨cs.takeWhile isBlank, ((cs.dropWhile isBlank).reverse.takeWhile isBlank).reverse, ?_,
    fun c hc => List.mem_takeWhile_imp hc,
    fun c hc => List.mem_takeWhile_imp (List.mem_reverse.mp hc), fun c hc => ?_, fun c hc => ?_⟩
  · rw [List.append_assoc, ← hback, List.takeWhile_append_dropWhile]
  · -- the first character that is left is the first after the blanks in front
    have hhead : (cs.dropWhile isBlank).head? = some c := by
      rw [hback, List.head?_append, hc]
      rfl
    exact isBlank_of_head?_dropWhile hhead
  · unfold trimChars at hc
    rw [List.getLast?_reverse] at hc
    exact isBlank_of_head?_dropWhile hc

theorem trimChars_eq_nil_iff {cs : List Char} : trimChars cs = [] ↔ AllBlank cs := by
  constructor
  · intro h
    obtain ⟨u, v, hcs, hu, hv, -⟩ := exists_trimChars cs
    rw [h, List.append_nil] at hcs
    intro c hc
    rw [hcs, List.mem_append] at hc
    exact hc.elim (hu c) (hv c)
  · intro h
    obtain ⟨u, v, hcs, -, -, htrim⟩ := exists_trimChars cs
    refine AllBlank.eq_nil (fun c hc => ?_) htrim
    exact h c (hcs ▸ List.mem_append_left _ (List.mem_append_right _ hc))

end Text

/-! ## The form of tags -/

namespace Tag

/-- What stands behind the name of a tag. -/
def mark (noIndex : Bool) : List Char := if noIndex then ',' :: noIndexWord else []

/-- A text is a stretch without a comma, with the mark behind it or without. -/
def Splits (text : String) (stretch : List Char) (noIndex : Bool) : Prop :=
  ',' ∉ stretch ∧ text.toList = stretch ++ mark noIndex

/-- A text spells a tag: the name with blanks around it, and the mark if the tag has it. -/
structure Spells (a : Tag) (text : String) : Prop where
  ne_empty : a.name ≠ ""
  comma : ',' ∉ a.name.toList
  trimmed : Trimmed a.name.toList
  text_eq : ∃ u v, AllBlank u ∧ AllBlank v ∧
    text.toList = u ++ a.name.toList ++ v ++ mark a.noIndex

theorem Spells.text_ne_empty {a : Tag} {text : String} (h : a.Spells text) : text ≠ "" := by
  rintro rfl
  obtain ⟨u, v, -, -, htext⟩ := h.text_eq
  have hname : a.name.toList = [] := by simp_all
  exact h.ne_empty (String.toList_eq_nil_iff.mp hname)

theorem comma_not_mem_noIndexWord : ',' ∉ noIndexWord := by decide

theorem AllBlank.comma_not_mem {cs : List Char} (h : AllBlank cs) : ',' ∉ cs := by
  intro hmem
  exact absurd (h _ hmem) (by decide)

/-- Pieces that are accepted are those of a stretch without a comma, with the mark behind it or
without. A third piece is never accepted, so two commas are too many wherever they stand. -/
theorem splits_of_ofPieces {text : String} {stretch : List Char} {noIndex : Bool}
    (h : ofPieces (splitAt ',' text.toList) = .ok (stretch, noIndex)) :
    Splits text stretch noIndex := by
  cases hsplit : splitAt ',' text.toList with
  | nil => exact absurd hsplit (splitAt_ne_nil _ _)
  | cons p ps =>
    obtain ⟨hcomma, ⟨htext, rfl⟩ | ⟨r, htext, hr⟩⟩ := of_splitAt_eq_cons hsplit
    · rw [hsplit] at h
      cases h
      exact ⟨hcomma, htext.trans (List.append_nil _).symm⟩
    · cases ps with
      | nil => exact absurd hr (splitAt_ne_nil _ _)
      | cons q qs =>
        obtain ⟨-, ⟨rfl, rfl⟩ | ⟨r', -, hr'⟩⟩ := of_splitAt_eq_cons hr
        · rw [hsplit, ofPieces] at h
          by_cases hword : r = noIndexWord
          · cases (if_pos hword).symm.trans h
            rw [hword] at htext
            exact ⟨hcomma, htext⟩
          · cases (if_neg hword).symm.trans h
        · -- a second comma makes a third piece, which no tag has
          cases qs with
          | nil => exact absurd hr' (splitAt_ne_nil _ _)
          | cons => rw [hsplit] at h; cases h

theorem ofPieces_eq_ok_iff {text : String} {stretch : List Char} {noIndex : Bool} :
    ofPieces (splitAt ',' text.toList) = .ok (stretch, noIndex) ↔ Splits text stretch noIndex := by
  constructor
  · exact splits_of_ofPieces
  · rintro ⟨hcomma, htext⟩
    rw [htext]
    cases noIndex with
    | false =>
      rw [mark, if_neg (by simp), List.append_nil, splitAt_of_not_mem hcomma]
      rfl
    | true =>
      rw [mark, if_pos rfl, splitAt_append hcomma, splitAt_of_not_mem comma_not_mem_noIndexWord]
      rfl

theorem ofPieces_error {ps : List (List Char)} {err : ReadError} (h : ofPieces ps = .error err) :
    err = .invalid := by
  unfold ofPieces at h
  split at h
  · cases h
  · split at h
    · cases h
    · cases h
      rfl
  · cases h
    rfl

/-! ## Reading -/

/-- What is read from a text that splits depends on whether anything but blanks stands in its
stretch. -/
theorem Splits.read_eq {text : String} {s : List Char} {b : Bool} (h : Splits text s b) :
    read text = if (trimChars s).isEmpty then .error .emptyName
      else .ok ⟨String.ofList (trimChars s), b⟩ := by
  unfold read
  rw [ofPieces_eq_ok_iff.mpr h]

theorem Spells.splits {a : Tag} {text : String} (h : a.Spells text) :
    ∃ s, Splits text s a.noIndex ∧ trimChars s = a.name.toList := by
  obtain ⟨u, v, hu, hv, htext⟩ := h.text_eq
  refine ⟨u ++ a.name.toList ++ v, ⟨?_, htext⟩, trimChars_append hu hv h.trimmed⟩
  rw [List.mem_append, List.mem_append, not_or, not_or]
  exact ⟨⟨AllBlank.comma_not_mem hu, h.comma⟩, AllBlank.comma_not_mem hv⟩

/-- A text that splits spells the tag with the trimmed stretch for a name, unless nothing is left of
it. -/
theorem Splits.spells {text : String} {s : List Char} {b : Bool} (h : Splits text s b)
    (hne : trimChars s ≠ []) : Spells ⟨String.ofList (trimChars s), b⟩ text := by
  obtain ⟨u, v, hs, hu, hv, htrim⟩ := exists_trimChars s
  refine ⟨?_, ?_, ?_, u, v, hu, hv, ?_⟩
  · intro hempty
    exact hne (by simpa using congrArg String.toList hempty)
  · rw [String.toList_ofList]
    intro hmem
    exact h.1 (hs ▸ List.mem_append_left _ (List.mem_append_right _ hmem))
  · rwa [String.toList_ofList]
  · rw [String.toList_ofList, ← hs]
    exact h.2

/-- **Reading gives the tag that a text spells.** -/
theorem read_eq_ok_iff {text : String} {a : Tag} : read text = .ok a ↔ a.Spells text := by
  constructor
  · intro h
    rcases hpieces : ofPieces (splitAt ',' text.toList) with err | ⟨s, b⟩
    · unfold read at h
      rw [hpieces] at h
      cases h
    · have hs := ofPieces_eq_ok_iff.mp hpieces
      rw [hs.read_eq] at h
      by_cases hempty : (trimChars s).isEmpty = true
      · cases (if_pos hempty).symm.trans h
      · cases (if_neg hempty).symm.trans h
        exact hs.spells fun hnil => hempty (by rw [hnil]; rfl)
  · intro h
    obtain ⟨s, hs, hname⟩ := h.splits
    have hne : ¬ a.name.toList.isEmpty = true := fun hempty =>
      h.ne_empty (String.toList_eq_nil_iff.mp (List.isEmpty_iff.mp hempty))
    rw [hs.read_eq, hname, if_neg hne, String.ofList_toList]

/-- A tag is invalid exactly if its text does not split; blanks have no part in it, since the text
is split before anything is trimmed. -/
theorem read_eq_invalid_iff {text : String} :
    read text = .error .invalid ↔ ∀ s b, ¬ Splits text s b := by
  constructor
  · intro h s b hs
    rw [hs.read_eq] at h
    split at h
    · cases h
    · cases h
  · intro h
    rcases hpieces : ofPieces (splitAt ',' text.toList) with err | ⟨s, b⟩
    · unfold read
      rw [hpieces, ofPieces_error hpieces]
    · exact absurd (ofPieces_eq_ok_iff.mp hpieces) (h s b)

theorem read_eq_emptyName_iff {text : String} :
    read text = .error .emptyName ↔ ∃ s b, Splits text s b ∧ AllBlank s := by
  constructor
  · intro h
    rcases hpieces : ofPieces (splitAt ',' text.toList) with err | ⟨s, b⟩
    · unfold read at h
      rw [hpieces, ofPieces_error hpieces] at h
      cases h
    · have hs := ofPieces_eq_ok_iff.mp hpieces
      refine ⟨s, b, hs, ?_⟩
      rw [hs.read_eq] at h
      by_cases hempty : (trimChars s).isEmpty = true
      · exact trimChars_eq_nil_iff.mp (List.isEmpty_iff.mp hempty)
      · cases (if_neg hempty).symm.trans h
  · rintro ⟨s, b, hs, hblank⟩
    rw [hs.read_eq, trimChars_eq_nil_iff.mpr hblank]
    rfl

/-! ## The grammar of tags

`Splits` is about pieces. Whoever writes a tag counts commas, so what is refused is said here by
counting them. -/

theorem Splits.count_le {text : String} {s : List Char} {b : Bool} (h : Splits text s b) :
    text.toList.count ',' ≤ 1 := by
  obtain ⟨hs, htext⟩ := h
  have hmark : (mark b).count ',' ≤ 1 := by cases b <;> decide
  simp [htext, List.count_append, List.count_eq_zero_of_not_mem hs, hmark]

/-- A text does not split if it has two commas, or one with something other than the word behind it.
The word has no comma, so one comma leaves one way to split and this way can be looked at. -/
theorem not_splits_iff {text : String} :
    (∀ s b, ¬ Splits text s b) ↔ 2 ≤ text.toList.count ',' ∨
      ∃ before after, text.toList = before ++ ',' :: after ∧ ',' ∉ before ∧ ',' ∉ after ∧
        after ≠ noIndexWord := by
  constructor
  · intro h
    -- without a comma the whole text is a name; with one it is cut at the first
    by_cases hmem : ',' ∈ text.toList
    · obtain ⟨before, after, htext, hbefore⟩ := List.eq_append_cons_of_mem hmem
      by_cases hafter : ',' ∈ after
      · left
        have hpos : 0 < after.count ',' := List.count_pos_iff.mpr hafter
        simp [htext, List.count_append]
        omega
      · refine Or.inr ⟨before, after, htext, hbefore, hafter, ?_⟩
        intro hword
        exact h before true ⟨hbefore, by rw [htext, hword]; rfl⟩
    · exact absurd ⟨hmem, by simp [mark]⟩ (h text.toList false)
  · rintro (htwo | ⟨before, after, htext, hbefore, hafter, hword⟩) s b hs
    · have hone := hs.count_le
      omega
    · -- the comma of the text is the one of the mark, so the word is what stands behind it
      have hpieces := ofPieces_eq_ok_iff.mpr hs
      rw [htext, splitAt_append hbefore, splitAt_of_not_mem hafter] at hpieces
      simp [ofPieces, hword] at hpieces

theorem emptyName_iff {text : String} :
    (∃ s b, Splits text s b ∧ AllBlank s) ↔
      ∃ s b, AllBlank s ∧ text.toList = s ++ mark b := by
  constructor
  · rintro ⟨s, b, hs, hblank⟩
    exact ⟨s, b, hblank, hs.2⟩
  · rintro ⟨s, b, hblank, htext⟩
    exact ⟨s, b, ⟨AllBlank.comma_not_mem hblank, htext⟩, hblank⟩

/-- A text spells one tag at most. Reading is a function and gives whatever tag is spelled, so this
needs no argument about texts. -/
theorem Spells.unique {a b : Tag} {text : String} (ha : a.Spells text) (hb : b.Spells text) :
    a = b := by
  have hread := read_eq_ok_iff.mpr ha
  rw [read_eq_ok_iff.mpr hb] at hread
  exact (Except.ok.inj hread).symm

/-- A name that a tag can have. -/
structure Named (name : String) : Prop where
  ne_empty : name ≠ ""
  comma : ',' ∉ name.toList
  trimmed : Trimmed name.toList

/-- The tag as it is written without blanks. -/
def text (a : Tag) : String := a.name ++ String.ofList (mark a.noIndex)

/-- A tag that is written without blanks spells itself, so every name that a tag can have is read
back. -/
theorem Named.spells {a : Tag} (h : Named a.name) : a.Spells a.text := by
  refine ⟨h.ne_empty, h.comma, h.trimmed, [], [], ?_, ?_, ?_⟩
  · simp [AllBlank]
  · simp [AllBlank]
  · simp [text]

/-- **Which texts are tags.** A text is read as the tag that it spells, and it spells one at most.
It is invalid exactly if it has two commas or more, or one with something other than the word behind
it; its name is empty exactly in what remains, where nothing but blanks stands in front of the mark.
So every name is read back from itself, and from itself with the mark. -/
theorem read_grammar (text : String) :
    (∀ a : Tag, read text = .ok a ↔ a.Spells text) ∧
    (∀ a b : Tag, a.Spells text → b.Spells text → a = b) ∧
    (read text = .error .invalid ↔ 2 ≤ text.toList.count ',' ∨
      ∃ before after, text.toList = before ++ ',' :: after ∧ ',' ∉ before ∧ ',' ∉ after ∧
        after ≠ noIndexWord) ∧
    (read text = .error .emptyName ↔
      ∃ s noIndex, AllBlank s ∧ text.toList = s ++ mark noIndex) ∧
    ∀ a : Tag, Named a.name → read a.text = .ok a := by
  refine ⟨?_, ?_, ?_, ?_, ?_⟩
  · intro a
    exact read_eq_ok_iff
  · intro a b ha hb
    exact ha.unique hb
  · rw [read_eq_invalid_iff, not_splits_iff]
  · rw [read_eq_emptyName_iff, emptyName_iff]
  · intro a ha
    exact read_eq_ok_iff.mpr ha.spells

/-- A tag with a wide blank in front and a narrow one behind the name, which spells no other tag;
and the same tag without its blanks. A blank behind the comma makes a text invalid. -/
theorem read_grammar_when :
    read "\u3000when\u00a0,noindex" = .ok ⟨"when", true⟩ ∧
      read "when,noindex" = .ok ⟨"when", true⟩ ∧
      read "when, noindex" = .error .invalid ∧ read "\u3000,noindex" = .error .emptyName := by
  have hname : Named "when" := by
    refine ⟨by decide, by decide, ?_, ?_⟩
    · intro c hc
      obtain rfl : 'w' = c := Option.some.inj hc
      decide
    · intro c hc
      obtain rfl : 'n' = c := Option.some.inj hc
      decide
  have hblank : AllBlank ['\u3000'] ∧ AllBlank ['\u00a0'] := by
    constructor
    · intro c hc
      rw [List.mem_singleton.mp hc]
      decide
    · intro c hc
      rw [List.mem_singleton.mp hc]
      decide
  refine ⟨?_, ?_, ?_, ?_⟩
  · exact ((read_grammar _).1 ⟨"when", true⟩).mpr ⟨hname.ne_empty, hname.comma, hname.trimmed,
      ['\u3000'], ['\u00a0'], hblank.1, hblank.2, rfl⟩
  · exact (read_grammar "").2.2.2.2 ⟨"when", true⟩ hname
  · exact (read_grammar _).2.2.1.mpr (Or.inr ⟨"when".toList, " noindex".toList, rfl, by decide,
      by decide, by decide⟩)
  · exact (read_grammar _).2.2.2.1.mpr ⟨['\u3000'], true, hblank.1, rfl⟩

end Tag

end StoreModel
