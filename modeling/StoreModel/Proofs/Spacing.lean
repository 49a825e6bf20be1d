import Mathlib.Data.List.Basic
import Mathlib.Logic.Relation
import StoreModel.Source.Type

/-!
# The spacing of the texts of types

The text of a type is the text of its tokens after seven passes, each of which replaces something
all over and works on what the passes before it have made. Spaces and marks may meet in any way, so
there is no form that a text is known to have between two passes. But no pass does more than to take
out spaces that stand beside one of five marks, and each of these can be taken out by itself
(`TightensOnce`). What one such step keeps, all seven passes keep (`Tightens`): the characters that
are no spaces, in their order, and the words between spaces and marks.

Which spaces are gone cannot be told from the two texts, since spaces are alike. What is said about
them is said for every way to see the one text within the other (`Thinning`).
-/

set_option autoImplicit false

namespace StoreModel.Source

open Relation

/-! ## Spaces, marks and words -/

/-- The marks beside which spaces may be taken out. -/
def closingMarks : List Char := [':', '<', '>', ',', '&']

/-- Words end at spaces and at the marks. -/
def isBreak (c : Char) : Bool := c == ' ' || closingMarks.contains c

/-- The characters of a text that are no spaces. -/
def unspaced (cs : List Char) : List Char := cs.filter (· ≠ ' ')

/-- The words of a text, which are what stands between spaces and marks. -/
def words (cs : List Char) : List (List Char) := (cs.splitOnP isBreak).filter (· ≠ [])

variable {a b c m : Char} {cs ds es k l n r : List Char}

theorem isBreak_of_mem (h : m ∈ closingMarks) : isBreak m = true := by simp [isBreak, h]

theorem ne_space_of_mem (h : m ∈ closingMarks) : m ≠ ' ' := by
  rintro rfl
  exact absurd h (by decide)

theorem ne_space (h : isBreak c = false) : c ≠ ' ' := by
  rintro rfl
  exact absurd h (by decide)

@[simp]
theorem unspaced_append : unspaced (cs ++ ds) = unspaced cs ++ unspaced ds := List.filter_append ..

@[simp]
theorem unspaced_space : unspaced (' ' :: cs) = unspaced cs := by simp [unspaced]

theorem unspaced_cons (h : c ≠ ' ') : unspaced (c :: cs) = c :: unspaced cs := by
  simp [unspaced, h]

/-- Whether two texts are alike but for spaces is not changed by a character put in front of both,
be it a space or not. -/
theorem unspaced_cons_inj :
    unspaced (c :: cs) = unspaced (c :: ds) ↔ unspaced cs = unspaced ds := by
  by_cases hc : c = ' '
  · simp [hc]
  · simp [unspaced_cons hc]

/-- At a space or a mark the words fall apart. All that is said about words here comes from this
equation, in which the texts on both sides may be empty. -/
theorem words_append_break (h : isBreak c = true) :
    words (cs ++ c :: ds) = words cs ++ words ds := by
  rw [words, List.splitOnP_append_cons cs ds h, List.filter_append, words, words]

theorem words_break (h : isBreak c = true) : words (c :: cs) = words cs := by
  rw [← List.nil_append (c :: cs), words_append_break h]
  rfl

/-! ## Taking out spaces -/

/-- One space that stands beside a mark is taken out. -/
inductive TightensOnce : List Char → List Char → Prop
  | before (l : List Char) {m : Char} (hm : m ∈ closingMarks) (r : List Char) :
    TightensOnce (l ++ ' ' :: m :: r) (l ++ m :: r)
  | after (l : List Char) {m : Char} (hm : m ∈ closingMarks) (r : List Char) :
    TightensOnce (l ++ m :: ' ' :: r) (l ++ m :: r)

/-- Spaces that stand beside marks are taken out, one after the other. -/
def Tightens : List Char → List Char → Prop := ReflTransGen TightensOnce

namespace TightensOnce

/-- A step is a step with a character in front. So steps are carried along the text that a pass goes
through. -/
theorem cons (c : Char) (h : TightensOnce cs ds) : TightensOnce (c :: cs) (c :: ds) := by
  cases h with
  | before l hm r => exact before (c :: l) hm r
  | after l hm r => exact after (c :: l) hm r

theorem unspaced_eq (h : TightensOnce cs ds) : unspaced ds = unspaced cs := by
  cases h with
  | before l hm r => simp
  | after l hm r => simp [unspaced_cons (ne_space_of_mem hm)]

theorem sublist (h : TightensOnce cs ds) : ds.Sublist cs := by
  cases h with
  | before l hm r => simp
  | after l hm r => simp

/-- One step keeps the words. On either side of the mark the space ends no word that the mark does
not end. -/
theorem words_eq (h : TightensOnce cs ds) : words ds = words cs := by
  have hspace : isBreak ' ' = true := by decide
  cases h with
  | before l hm r =>
    rw [words_append_break hspace, words_break (isBreak_of_mem hm),
      words_append_break (isBreak_of_mem hm)]
  | after l hm r =>
    rw [words_append_break (isBreak_of_mem hm), words_append_break (isBreak_of_mem hm),
      words_break hspace]

end TightensOnce

/-- Two neighbours that differ from a character stand before it or behind it. It cannot be one of
them, so the text is cut either to their right or to their left. -/
theorem neighbours_append_cons (h : l ++ m :: r = k ++ a :: b :: n) (ha : m ≠ a) (hb : m ≠ b) :
    (∃ t, l = k ++ a :: b :: t) ∨ ∃ t, r = t ++ a :: b :: n ∧ k = l ++ m :: t := by
  rcases List.append_eq_append_iff.mp h with ⟨t, rfl, htail⟩ | ⟨t, rfl, htail⟩
  · rcases List.cons_eq_append_iff.mp htail with ⟨-, hhead⟩ | ⟨t, rfl, rfl⟩
    · exact absurd (List.cons.inj hhead).1.symm ha
    · exact Or.inr ⟨t, rfl, rfl⟩
  · rcases List.cons_eq_append_iff.mp htail with ⟨-, hhead⟩ | ⟨t, rfl, hnext⟩
    · exact absurd (List.cons.inj hhead).1 ha
    · rcases List.cons_eq_append_iff.mp hnext with ⟨-, hhead⟩ | ⟨t, rfl, -⟩
      · exact absurd (List.cons.inj hhead).1 hb
      · exact Or.inl ⟨t, rfl⟩

/-- The same two neighbours stand there if something that is alike but for spaces takes the place of
the character. -/
theorem neighbours_of_replaced (x : List Char) (hx : unspaced x = unspaced [m])
    (h : l ++ m :: r = k ++ a :: b :: n) (ha : m ≠ a) (hb : m ≠ b) :
    ∃ k' n', l ++ (x ++ r) = k' ++ a :: b :: n' ∧ unspaced k' = unspaced k := by
  rcases neighbours_append_cons h ha hb with ⟨t, rfl⟩ | ⟨t, rfl, rfl⟩
  · exact ⟨k, t ++ (x ++ r), by simp, rfl⟩
  · refine ⟨l ++ (x ++ t), n, by simp, ?_⟩
    rw [← List.singleton_append, unspaced_append, unspaced_append, unspaced_append,
      unspaced_append, hx]

theorem ne_of_mem (hm : m ∈ closingMarks) (hc : isBreak c = false) : m ≠ c := by
  rintro rfl
  exact Bool.noConfusion ((isBreak_of_mem hm).symm.trans hc)

/-- Neighbours that are no breaks were neighbours before, with the same characters ahead of them but
for spaces. A step takes out a space beside a mark, and the mark still stands between what it kept
apart. -/
theorem TightensOnce.neighbours (h : TightensOnce cs ds) (hds : ds = k ++ a :: b :: n)
    (ha : isBreak a = false) (hb : isBreak b = false) :
    ∃ k' n', cs = k' ++ a :: b :: n' ∧ unspaced k' = unspaced k := by
  cases h with
  | @before l m hm r =>
    exact neighbours_of_replaced [' ', m] unspaced_space hds (ne_of_mem hm ha) (ne_of_mem hm hb)
  | @after l m hm r =>
    have hafter : unspaced [m, ' '] = unspaced [m] := unspaced_cons_inj.mpr unspaced_space
    exact neighbours_of_replaced [m, ' '] hafter hds (ne_of_mem hm ha) (ne_of_mem hm hb)

namespace Tightens

theorem refl (cs : List Char) : Tightens cs cs := ReflTransGen.refl

theorem trans (h : Tightens cs ds) (h' : Tightens ds es) : Tightens cs es := ReflTransGen.trans h h'

theorem before (hm : m ∈ closingMarks) (r : List Char) : Tightens (' ' :: m :: r) (m :: r) :=
  .single (.before [] hm r)

theorem after (hm : m ∈ closingMarks) (r : List Char) : Tightens (m :: ' ' :: r) (m :: r) :=
  .single (.after [] hm r)

theorem cons (c : Char) (h : Tightens cs ds) : Tightens (c :: cs) (c :: ds) := by
  induction h with
  | refl => exact refl _
  | tail _ hstep ih => exact .tail ih (hstep.cons c)

theorem append (l : List Char) (h : Tightens cs ds) : Tightens (l ++ cs) (l ++ ds) := by
  induction l with
  | nil => exact h
  | cons c l ih => exact ih.cons c

/-- What each step keeps stays as it is, however many steps there are. -/
theorem keeps {α : Type} {f : List Char → α} (hf : ∀ {cs ds}, TightensOnce cs ds → f ds = f cs)
    (h : Tightens cs ds) : f ds = f cs := by
  induction h with
  | refl => rfl
  | tail _ hstep ih => exact (hf hstep).trans ih

theorem unspaced_eq (h : Tightens cs ds) : unspaced ds = unspaced cs :=
  h.keeps TightensOnce.unspaced_eq

theorem words_eq (h : Tightens cs ds) : words ds = words cs := h.keeps TightensOnce.words_eq

theorem sublist (h : Tightens cs ds) : ds.Sublist cs := by
  induction h with
  | refl => exact .refl cs
  | tail _ hstep ih => exact hstep.sublist.trans ih

/-- Neighbours that are no breaks have been neighbours from the beginning. The induction goes back
from the last step, so the text ahead of them is a variable in it. -/
theorem neighbours (h : Tightens cs ds) (hds : ds = k ++ a :: b :: n) (ha : isBreak a = false)
    (hb : isBreak b = false) : ∃ k' n', cs = k' ++ a :: b :: n' ∧ unspaced k' = unspaced k := by
  induction h generalizing k n with
  | refl => exact ⟨k, n, hds, rfl⟩
  | tail _ hstep ih =>
    obtain ⟨k₁, n₁, hcs, hk₁⟩ := hstep.neighbours hds ha hb
    obtain ⟨k₂, n₂, hcs, hk₂⟩ := ih hcs
    exact ⟨k₂, n₂, hcs, hk₂.trans hk₁⟩

end Tightens

/-! ## The passes -/

/-- Taking out spaces makes of the first text the second one, with anything behind it. -/
structure ClosesUp (old new : List Char) : Prop where
  ne_nil : old ≠ []
  tightens (r : List Char) : Tightens (old ++ r) (new ++ r)

theorem closesUp_before (hm : m ∈ closingMarks) : ClosesUp [' ', m] [m] :=
  ⟨by simp, Tightens.before hm⟩

theorem closesUp_after (hm : m ∈ closingMarks) : ClosesUp [m, ' '] [m] :=
  ⟨by simp, Tightens.after hm⟩

/-- Each of the seven replacements closes up. Two of them, around a double colon, take out two
spaces or one that is not beside the first colon, and need a step inside a text. -/
theorem closesUp_of_mem_tightenings : ∀ p ∈ tightenings, ClosesUp p.1 p.2 := by
  have hcolon : ':' ∈ closingMarks := by decide
  have hbehind : ClosesUp [':', ':', ' '] [':', ':'] :=
    ⟨by simp, fun r => (Tightens.after hcolon r).cons ':'⟩
  have haround : ClosesUp [' ', ':', ':', ' '] [':', ':'] :=
    ⟨by simp, fun r => (Tightens.before hcolon _).trans (hbehind.tightens r)⟩
  simp only [tightenings, List.map_cons, List.map_nil, List.forall_mem_cons]
  exact ⟨haround, hbehind, closesUp_before (by decide), closesUp_after (by decide),
    closesUp_before (by decide), closesUp_before (by decide), closesUp_after (by decide), nofun⟩

/-- The characters that are still to be passed over belong to a match that has its result. The
induction is along the pass; where there is a match, its replacement is made with all the text
behind it still as it was. -/
theorem tightens_replaceFrom {old new : List Char} (h : ClosesUp old new) (skip : Nat)
    (cs : List Char) : Tightens (cs.drop skip) (replaceFrom old new skip cs) := by
  fun_induction replaceFrom old new skip cs with
  | case1 skip => simpa using Tightens.refl []
  | case2 skip c r ih => simpa using ih
  | case3 c r hmatch ih =>
    obtain ⟨t, ht⟩ := List.isPrefixOf_iff_prefix.mp hmatch
    have hrest : r.drop (old.length - 1) = t := by
      obtain ⟨d, old, rfl⟩ := List.exists_cons_of_ne_nil h.ne_nil
      obtain ⟨-, rfl⟩ := List.cons.inj ht
      simp
    rw [hrest] at ih
    rw [List.drop_zero, ← ht]
    exact (h.tightens t).trans (ih.append new)
  | case4 c r hmatch ih => exact ih.cons c

/-- Each pass starts from what the passes before it have made. Nothing is assumed about the text, so
their order does not matter for this. -/
theorem tightens_foldl {ps : List (List Char × List Char)} (h : ∀ p ∈ ps, ClosesUp p.1 p.2)
    (cs : List Char) : Tightens cs (ps.foldl (fun cs p => replaceAll p.1 p.2 cs) cs) := by
  induction ps generalizing cs with
  | nil => exact .refl cs
  | cons p ps ih =>
    obtain ⟨hp, hps⟩ := List.forall_mem_cons.mp h
    exact (tightens_replaceFrom hp 0 cs).trans (ih hps _)

theorem tightens_tighten (cs : List Char) : Tightens cs (tighten cs) :=
  tightens_foldl closesUp_of_mem_tightenings cs

/-! ## One text in another -/

/-- A way to see a text as another one without some of its spaces. -/
structure Thinning (cs ds : List Char) where
  /-- The characters of the text that has all of them, each with whether it stays. -/
  chars : List (Char × Bool)
  all : chars.map Prod.fst = cs
  staying : (chars.filter Prod.snd).map Prod.fst = ds
  spaces : ∀ x ∈ chars, x.2 = false → x.1 = ' '

/-- Of two characters that come together because all between them goes, one is a break. -/
def Thinning.AtBreaks (t : Thinning cs ds) : Prop :=
  ∀ l a gap b r, t.chars = l ++ (a, true) :: gap ++ (b, true) :: r → gap ≠ [] →
    (∀ x ∈ gap, x.2 = false) → isBreak a = true ∨ isBreak b = true

theorem unspaced_staying {chars : List (Char × Bool)} (h : ∀ x ∈ chars, x.2 = false → x.1 = ' ') :
    unspaced ((chars.filter Prod.snd).map Prod.fst) = unspaced (chars.map Prod.fst) := by
  simp only [unspaced, List.filter_map, List.filter_filter]
  congr 1
  refine List.filter_congr fun x hx => ?_
  cases hstays : x.2 with
  | true => simp
  | false => simp [h x hx hstays]

/-- Texts that are alike but for spaces, the second within the first. The induction follows how the
one lies in the other, and a character that is passed over has to be a space, or it would be
missing. -/
theorem exists_thinning (h : ds.Sublist cs) (hu : unspaced ds = unspaced cs) :
    Nonempty (Thinning cs ds) := by
  induction h with
  | slnil => exact ⟨[], rfl, rfl, nofun⟩
  | @cons ds cs c h ih =>
    rcases eq_or_ne c ' ' with rfl | hc
    · obtain ⟨t⟩ := ih (hu.trans unspaced_space)
      exact ⟨(' ', false) :: t.chars, by simp [t.all], by simp [t.staying],
        List.forall_mem_cons.mpr ⟨fun _ => rfl, t.spaces⟩⟩
    · have hle : (unspaced ds).length ≤ (unspaced cs).length := (h.filter _).length_le
      rw [hu, unspaced_cons hc, List.length_cons] at hle
      exact absurd hle (Nat.not_succ_le_self _)
  | cons_cons c h ih =>
    obtain ⟨t⟩ := ih (unspaced_cons_inj.mp hu)
    exact ⟨(c, true) :: t.chars, by simp [t.all], by simp [t.staying],
      List.forall_mem_cons.mpr ⟨nofun, t.spaces⟩⟩

/-- A character that is no space has one place, as far as what stands ahead of it is known but for
its spaces. This is what makes up for spaces being alike: places are counted by the other
characters. -/
theorem eq_of_unspaced_eq (h : k ++ a :: n = l ++ b :: r) (ha : a ≠ ' ') (hb : b ≠ ' ')
    (hu : unspaced k = unspaced l) : k = l := by
  induction k generalizing l with
  | nil =>
    cases l with
    | nil => rfl
    | cons c l =>
      obtain ⟨rfl, -⟩ := List.cons.inj h
      exact absurd (hu.trans (unspaced_cons ha)) (List.cons_ne_nil _ _).symm
  | cons c k ih =>
    cases l with
    | nil =>
      obtain ⟨rfl, -⟩ := List.cons.inj h
      exact absurd ((unspaced_cons hb).symm.trans hu) (List.cons_ne_nil _ _)
    | cons d l =>
      obtain ⟨rfl, htail⟩ := List.cons.inj h
      rw [ih htail (unspaced_cons_inj.mp hu)]

/-- However the one text is seen in the other, what comes together has a break. If neither were one,
they would have been neighbours from the beginning, at the same place, and nothing would have been
between them. -/
theorem Tightens.atBreaks (h : Tightens cs ds) (t : Thinning cs ds) : t.AtBreaks := by
  intro l a gap b r hchars hgap hgone
  by_contra hwords
  obtain ⟨ha, hb⟩ : isBreak a = false ∧ isBreak b = false := by simpa using hwords
  have hcs : cs = l.map Prod.fst ++ a :: (gap.map Prod.fst ++ b :: r.map Prod.fst) := by
    rw [← t.all, hchars]
    simp
  have hds : ds =
      (l.filter Prod.snd).map Prod.fst ++ a :: b :: (r.filter Prod.snd).map Prod.fst := by
    have hnone : gap.filter Prod.snd = [] := List.filter_eq_nil_iff.mpr (by simpa using hgone)
    rw [← t.staying, hchars]
    simp [hnone]
  obtain ⟨k, n, hk, hu⟩ := h.neighbours hds ha hb
  have hsame : k = l.map Prod.fst := by
    refine eq_of_unspaced_eq (hk.symm.trans hcs) (ne_space ha) (ne_space ha) (hu.trans ?_)
    exact unspaced_staying fun x hx => t.spaces x (by simp [hchars, hx])
  -- So `b` stands where the gap begins, which is a space.
  obtain ⟨x, gap, rfl⟩ := List.exists_cons_of_ne_nil hgap
  rw [hk, hsame, List.append_cancel_left_eq, List.map_cons, List.cons_append] at hcs
  have hbx : b = x.1 := (List.cons.inj (List.cons.inj hcs).2).1
  have hx : x.1 = ' ' := t.spaces x (by simp [hchars]) (hgone x List.mem_cons_self)
  exact ne_space hb (hbx.trans hx)

/-- **What the passes leave of a text.** It is the text without some of its spaces. However these
are told from the spaces that stay, none of them leaves two characters beside each other of which
neither is a space or a mark; so the words of the text stay as they are. -/
theorem tighten_spares_words (cs : List Char) :
    Nonempty (Thinning cs (tighten cs)) ∧ unspaced (tighten cs) = unspaced cs ∧
      (∀ t : Thinning cs (tighten cs), t.AtBreaks) ∧ words (tighten cs) = words cs := by
  have htight := tightens_tighten cs
  exact ⟨exists_thinning htight.sublist htight.unspaced_eq, htight.unspaced_eq, htight.atBreaks,
    htight.words_eq⟩

/-- The spaces behind the lifetime stay, and so does the one behind the comma. -/
example : tighten "Map < & 'a  str , b :: C >".toList = "Map<&'a  str, b::C>".toList := by decide

end StoreModel.Source
