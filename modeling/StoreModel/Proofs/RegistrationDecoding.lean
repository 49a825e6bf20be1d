import StoreModel.Proofs.DeclarationReading
import StoreModel.Proofs.ImportNames
import StoreModel.Proofs.RegistrationReading

/-!
# A declaration is told from its registration

Nothing of a declaration is lost when it is registered: declarations whose registrations have the
same tokens are the same (`Declaration.eq_of_registration`). Each part is found in its pieces,
whatever stands behind it. A shape is told by the name of its form, and what it holds is told by
that of the elements in turn; a text stands in a literal of its own, so it cannot be mistaken for
what is written around it; and the fields end at the bracket that closes them.

The name of the type is the one part that stands in the text as it is. It has to be a word, and it
is one if the declared item has been read from a text (`Item.word_of_read`): readers only ever go on
in the tokens they were given (`Advances`), so that what stands at the front has been a token of the
text.
-/

set_option autoImplicit false

namespace StoreModel

open StoreModel.Source StoreModel.Text StoreModel.ModuleText

namespace RegistrationText

variable {x y : List Atom}

/-! ## Shapes and tags in their pieces -/

/-- A text is found in its pieces because it is the only one that can differ: the literal it stands
in is one piece, whatever quotes and brackets the text itself has. -/
theorem decodes_text : Decodes textAtoms := by
  intro a b x y h
  simpa only [textAtoms, kept_append, kept_literal, List.append_assoc, List.cons_append,
    List.append_cancel_left_eq, List.cons.injEq, Atom.literal.injEq] using h

/-- What a shape is written with first is the name of its form, so equal pieces give equal forms,
and then the question is only what the form holds. -/
theorem decode_form {form form' : String} {part part' : List Atom}
    (h : kept (formAtoms form part) ++ x = kept (formAtoms form' part') ++ y) :
    form = form' ∧ kept part ++ x = kept part' ++ y := by
  simpa only [formAtoms, kept_append, kept_word, List.append_assoc, List.cons_append,
    List.append_cancel_left_eq, List.cons.injEq, Atom.word.injEq] using h

/-- Shapes of one form are the same, but for what they hold. The hundred pairs of forms are gone
through here and nowhere else; two shapes whose pieces agree then leave three cases. -/
theorem form_eq_iff {s t : Shape} : s.form = t.form ↔
    s = t ∨ (∃ u v, s = .seq u ∧ t = .seq v) ∨ ∃ a b, s = .unsupported a ∧ t = .unsupported b := by
  cases s <;> cases t <;> simp [Shape.form]

/-- A shape is found in its pieces. The induction is on the first shape; the second is known by its
form, which leaves a sequence of elements to go down into and an unsupported text to read off. -/
theorem decodes_shape : Decodes shapeAtoms := by
  intro s
  induction s with
  | seq s ih =>
    intro t x y h
    obtain ⟨hform, hpart⟩ := decode_form h
    rcases form_eq_iff.mp hform with rfl | ⟨u, v, hs, rfl⟩ | ⟨a, b, hs, -⟩
    · exact ⟨rfl, List.append_cancel_left hpart⟩
    · cases hs
      simp only [partAtoms, kept_append, List.append_assoc, List.append_cancel_left_eq] at hpart
      obtain ⟨rfl, hrest⟩ := ih hpart
      exact ⟨rfl, List.append_cancel_left hrest⟩
    · cases hs
  | unsupported a =>
    intro t x y h
    obtain ⟨hform, hpart⟩ := decode_form h
    rcases form_eq_iff.mp hform with rfl | ⟨u, v, hs, -⟩ | ⟨a, b, hs, rfl⟩
    · exact ⟨rfl, List.append_cancel_left hpart⟩
    · cases hs
    · cases hs
      obtain ⟨rfl, hrest⟩ := decodes_text hpart
      exact ⟨rfl, hrest⟩
  | _ =>
    -- a shape that holds nothing is its form, and the other two forms are not its own
    intro t x y h
    obtain ⟨hform, hpart⟩ := decode_form h
    rcases form_eq_iff.mp hform with rfl | ⟨u, v, hs, -⟩ | ⟨a, b, hs, -⟩
    · exact ⟨rfl, List.append_cancel_left hpart⟩
    · cases hs
    · cases hs

/-- A tag that is missing is told from one that is there by the word it begins with, before any text
is looked at. -/
theorem decodes_tag : Decodes tagAtoms := by
  intro tag tag' x y h
  simp only [tagAtoms, kept_append, List.append_assoc, List.append_cancel_left_eq] at h
  cases tag with
  | none =>
    cases tag' with
    | none => exact ⟨rfl, List.append_cancel_left h⟩
    | some a => simp at h
  | some a =>
    cases tag' with
    | none => simp at h
    | some b =>
      simp only [kept_word, List.cons_append, List.cons.injEq, true_and] at h
      obtain ⟨rfl, htail⟩ := decodes_text h
      exact ⟨rfl, htail⟩

/-! ## Fields -/

/-- A field is found part by part, from the left: each part says where it ends, so the next one
begins at the same place in both. -/
theorem decodes_field : Decodes fieldAtoms := by
  rintro ⟨name, exported, tag, shape⟩ ⟨name', exported', tag', shape'⟩ x y h
  simp only [fieldAtoms, kept_append, kept_word, kept_literal, List.append_assoc,
    List.cons_append, List.append_cancel_left_eq, List.cons.injEq, Atom.word.injEq,
    Atom.literal.injEq] at h
  obtain ⟨rfl, hword, h⟩ := h
  -- the mark is written as one of two words
  have hexported : exported = exported' := by
    revert hword
    cases exported <;> cases exported' <;> simp
  obtain ⟨rfl, h⟩ := decodes_tag h
  simp only [List.append_cancel_left_eq] at h
  obtain ⟨rfl, htail⟩ := decodes_shape h
  exact ⟨by rw [hexported], List.append_cancel_left htail⟩

/-- No field begins like the bracket that closes the list of fields. The list says nothing about its
length, so this is where it is seen to end. -/
theorem field_ne (f : Field) (z w : List Atom) :
    kept (fieldAtoms f) ++ z ≠ kept (atomsOf "], \x7d") ++ w := by
  have hclash : headsApart (kept (atomsOf "::propkit::model::FieldDef \x7b name: "))
      (kept (atomsOf "], \x7d")) = true := headsApart_fixed rfl rfl rfl
  simp only [fieldAtoms, kept_append, List.append_assoc]
  exact ne_of_headsApart hclash _ _

/-- Separators that are not seen in the tokens are left out. The commas between fields are of this
kind, so that fields simply follow one another and the list is found field by field. -/
theorem kept_intercalate {sep : List Atom} (hsep : kept sep = []) (xs : List (List Atom)) :
    kept (sep.intercalate xs) = kept xs.flatten := by
  induction xs with
  | nil => rfl
  | cons x xs ih =>
    cases xs with
    | nil => rw [List.intercalate_singleton, List.flatten_singleton]
    | cons y xs =>
      rw [List.intercalate_cons_cons, kept_append, kept_append, hsep, ih, List.append_nil]
      exact (kept_append x (y :: xs).flatten).symm

/-- An entity is found in its pieces: its name is one literal, and its fields are found one by one
up to the bracket that none of them begins with. -/
theorem decodes_entity : Decodes entityAtoms := by
  rintro ⟨name, fields⟩ ⟨name', fields'⟩ x y h
  have hsep : kept (atomsOf ", ") = [] := by
    rw [atomsOf_eq rfl]
    rfl
  simp only [entityAtoms, kept_append, kept_literal, kept_intercalate hsep, ← List.flatMap_def,
    List.append_assoc, List.cons_append, List.append_cancel_left_eq, List.cons.injEq,
    Atom.literal.injEq] at h
  obtain ⟨rfl, h⟩ := h
  obtain ⟨rfl, htail⟩ :=
    decodes_field.flatMap (fun f z => field_ne f z _) (fun f z => field_ne f z _) h
  exact ⟨rfl, List.append_cancel_left htail⟩

end RegistrationText

/-! ## Declarations -/

open RegistrationText in
/-- A registration is in two halves with the mark of a lifetime between them, which is a sign of its
own in the tokens. The name of the type occurs as a word and as a literal, and either of them tells
it. -/
theorem Declaration.eq_of_atoms {d d' : Declaration}
    (h : kept (frontAtoms d) ++ .sign '\'' :: kept (backAtoms d) =
      kept (frontAtoms d') ++ .sign '\'' :: kept (backAtoms d')) : d = d' := by
  obtain ⟨key, entity⟩ := d
  obtain ⟨key', entity'⟩ := d'
  simp only [frontAtoms, backAtoms, submitAtoms, kept_append, kept_word, kept_literal,
    List.append_assoc, List.cons_append, List.append_cancel_left_eq, List.cons.injEq,
    Atom.word.injEq, Atom.literal.injEq, true_and] at h
  obtain ⟨-, rfl, h⟩ := h
  obtain ⟨rfl, -⟩ := decodes_entity h
  rfl

/-! ## Names of items -/

namespace Source

/-- The reader goes on in the tokens that it was given. -/
def Advances {α : Type} (read : Reader α) : Prop :=
  ∀ ⦃s s' : Rest⦄ ⦃a : α⦄, read s = .ok (a, s') → s'.trees <:+ s.trees

namespace Advances

variable {α β : Type} {read : Reader α} {s s' : Rest}

theorem pure (a : α) : Advances (Pure.pure a) := by
  intro s s' b h
  cases h
  exact List.suffix_rfl

theorem bind {f : α → Reader β} (h : Advances read) (hf : ∀ a, Advances (f a)) :
    Advances (read >>= f) := by
  intro s s' b hb
  obtain ⟨a, s₁, ha, hb⟩ := read_bind_eq_ok_iff.mp hb
  exact (hf a hb).trans (h ha)

theorem ahead : Advances ahead := by
  intro s s' ts h
  cases h
  exact List.suffix_rfl

theorem take (n : Nat) : Advances (take n) := by
  intro s s' ts h
  cases h
  exact List.drop_suffix _ _

theorem refuse (c : Cause) : Advances (refuse c : Reader α) := by
  intro s s' a h
  cases h

theorem ite {test : Prop} [Decidable test] {other : Reader α} (h : Advances read)
    (ho : Advances other) : Advances (if test then read else other) := by
  split
  · exact h
  · exact ho

theorem readMany {more : List Tree → Bool} (h : Advances read) : Advances (readMany more read) := by
  have hupTo : ∀ n, Advances (readManyUpTo more read n) := by
    intro n
    induction n with
    | zero => exact pure _
    | succ n ih =>
      rw [readManyUpTo]
      exact ahead.bind fun ts => (h.bind fun a => ih.bind fun as => pure _).ite (pure _)
  exact ahead.bind fun ts => hupTo _

theorem takeGroup (d : Delimiter) : Advances (takeGroup d) := by
  refine ahead.bind fun ts => ?_
  split
  · exact ((take 1).bind fun _ => pure _).ite (refuse _)
  · exact refuse _

/-- What is left over in brackets is put on record and not read on. -/
theorem inside (d : Delimiter) (content : List Tree) (inner : Reader α) :
    Advances (inside d content inner) := by
  intro s s' a h
  have hleave : ∀ (s : Rest) left, (s.leave d left).trees <:+ s.trees := by
    intro s left
    unfold Rest.leave
    split
    · exact List.suffix_rfl
    · exact List.suffix_rfl
  unfold Source.inside insideThen at h
  split at h
  · cases h
  · cases h
    exact hleave _ _

end Advances

theorem advances_readAttributes (n : Nested) : Advances (readAttributes n) := by
  apply Advances.readMany
  refine Advances.bind (fun _ _ _ h => readOp_ok h) fun _ => ?_
  exact (Advances.takeGroup _).bind fun content => .inside _ content _

theorem advances_readVisibility : Advances readVisibility := by
  have hplace : ∀ content, Advances (readVisibility.place content) := by
    intro content
    exact ((Advances.take 1).bind fun _ => (Advances.inside _ content _).bind fun _ => .pure _).ite
      (.pure _)
  refine Advances.ahead.bind fun ts => Advances.ite ?_ (.pure _)
  refine (Advances.take 1).bind fun _ => Advances.ahead.bind fun ts => ?_
  split
  · split
    · exact ((Advances.take 1).bind fun _ => .pure _).ite (hplace _)
    · exact hplace _
  · exact .pure _

/-- The name of a declared type has been one of its tokens. Attributes and visibility only go on to
a later token, and then the name is taken as it stands behind the word that says what is declared.
-/
theorem readDeclaredType_ok {n : Nested} {s s' : Rest} {i : Item}
    (h : readDeclaredType n s = .ok (i, s')) : .word i.name ∈ s.trees := by
  unfold readDeclaredType at h
  obtain ⟨attributes, s₁, hattributes, h⟩ := read_bind_eq_ok_iff.mp h
  obtain ⟨visibility, s₂, hvisibility, h⟩ := read_bind_eq_ok_iff.mp h
  obtain ⟨ts, s₃, hahead, h⟩ := read_bind_eq_ok_iff.mp h
  cases hahead
  cases hread : declarationAhead? n s₂.trees with
  | none =>
    rw [hread] at h
    cases h
  | some read =>
    rw [hread] at h
    obtain ⟨word, s₄, hword, h⟩ := read_bind_eq_ok_iff.mp h
    obtain ⟨name, s₅, hname, h⟩ := read_bind_eq_ok_iff.mp h
    obtain ⟨generics, s₆, -, h⟩ := read_bind_eq_ok_iff.mp h
    obtain ⟨body, s₇, -, h⟩ := read_bind_eq_ok_iff.mp h
    cases h
    -- three readers have gone by, none of which puts anything in front of what is left
    have hsuffix := ((Advances.take 1 hword).trans (advances_readVisibility hvisibility)).trans
      (advances_readAttributes n hattributes)
    apply hsuffix.subset
    rw [(readIdent_ok hname).1]
    exact List.mem_cons_self

/-- The name of a type that has been read from a text is a word, since it was one of the tokens, and
tokens that are words are words of the text. -/
theorem Item.word_of_read {s : String} {i : Item} (h : read s = .ok i) : Word i.name.toList := by
  obtain ⟨ts, htrees, hread⟩ := readText_ok h
  exact word_of_readTrees htrees (readDeclaredType_ok hread)

end Source

namespace Declaration

variable {i i' : Item} {d d' : Declaration}

/-- Items whose names are words and whose registrations have the same tokens give the same
declaration. The names are all that has to be assumed, because they alone stand in the registration
as they are. -/
theorem eq_of_ofItem (hi : Word i.name.toList) (hi' : Word i'.name.toList) (h : ofItem i = .ok d)
    (h' : ofItem i' = .ok d') (heq : readTrees d.registration = readTrees d'.registration) :
    d = d' := by
  have hname : Word d.entity.typeName.toList := by
    rw [(ofItem_ok_iff.mp h).typeName]
    exact hi
  have hname' : Word d'.entity.typeName.toList := by
    rw [(ofItem_ok_iff.mp h').typeName]
    exact hi'
  obtain ⟨ts, hts, hatoms⟩ := readTrees_registration hname
  obtain ⟨ts', hts', hatoms'⟩ := readTrees_registration hname'
  rw [hts, hts'] at heq
  cases heq
  exact eq_of_atoms (hatoms.symm.trans hatoms')

/-- A declaration that has been read from a text comes from an item, and the name of that item is a
word as the text was scanned into it. -/
theorem ofItem_of_read {s : String} (h : read s = .ok d) :
    ∃ i, Word i.name.toList ∧ ofItem i = .ok d := by
  unfold read at h
  cases hread : Item.read s with
  | error f =>
    rw [hread] at h
    cases h
  | ok i =>
    rw [hread] at h
    dsimp only at h
    refine ⟨i, Item.word_of_read hread, ?_⟩
    cases hitem : ofItem i with
    | error c =>
      rw [hitem] at h
      cases h
    | ok e =>
      rw [hitem] at h
      cases h
      rfl

/-- **Declarations are told from their registrations**, whether they come from items or from
texts. -/
theorem eq_of_registration :
    (∀ (i i' : Item) (d d' : Declaration), Word i.name.toList → Word i'.name.toList →
      ofItem i = .ok d → ofItem i' = .ok d' →
      readTrees d.registration = readTrees d'.registration → d = d') ∧
    (∀ (s s' : String) (d d' : Declaration), read s = .ok d → read s' = .ok d' →
      readTrees d.registration = readTrees d'.registration → d = d') := by
  refine ⟨fun i i' d d' hi hi' h h' heq => eq_of_ofItem hi hi' h h' heq, ?_⟩
  intro s s' d d' h h' heq
  obtain ⟨i, hi, hitem⟩ := ofItem_of_read h
  obtain ⟨i', hi', hitem'⟩ := ofItem_of_read h'
  exact eq_of_ofItem hi hi' hitem hitem' heq

end Declaration

namespace Sample

/-- A type with one field, below an attribute that is passed over or not. -/
def point (attributes : List Attribute) : Item :=
  ⟨attributes, "Point", false,
    .named [⟨[], .inherited, "x", .path false [.plain "i64"]⟩]⟩

def pointText : String := "struct Point \x7b x: i64 \x7d"

def longPointText : String :=
  "/// A point.\npub struct Point \x7b #[serde(skip)] x: (core::primitive::i64), \x7d"

def pointDeclaration : Declaration := ⟨"Point", "Point", [⟨"x", false, none, .i64⟩]⟩

/-- A type that is declared in two ways is described in one. -/
theorem point_of_registration :
    (∃ d d', Declaration.ofItem (point []) = .ok d ∧
      Declaration.ofItem (point [⟨false, ["serde"], .nothing⟩]) = .ok d' ∧ d = d') ∧
    ∃ d d', Declaration.read pointText = .ok d ∧ Declaration.read longPointText = .ok d' ∧
      d = d' := by
  have hname : Word "Point".toList := word_of_scan rfl (by decide +kernel)
  have hitem : Declaration.ofItem (point []) = .ok pointDeclaration := rfl
  have hserde : Declaration.ofItem (point [⟨false, ["serde"], .nothing⟩]) =
      .ok pointDeclaration := rfl
  have hread : Declaration.read pointText = .ok pointDeclaration := by decide +kernel
  have hlong : Declaration.read longPointText = .ok pointDeclaration := by decide +kernel
  obtain ⟨hitems, htexts⟩ := Declaration.eq_of_registration
  exact ⟨⟨_, _, hitem, hserde, hitems _ _ _ _ hname hname hitem hserde rfl⟩,
    _, _, hread, hlong, htexts _ _ _ _ hread hlong rfl⟩

end Sample

end StoreModel
