import StoreModel.Proofs.Correspondence
import StoreModel.Proofs.Storability

/-!
# The views of a schema

A schema keeps its fields in the order of their declaration; the orders of names and of identifiers
and the look-ups go through the two maps of positions. This file says what each of them shows of a
schema that was derived (`Schema.WellFormed`), and it does not ask that the identifiers of the
fields be different.

The two maps are not alike. A stored name is compared with those before it when its field is taken,
so the view by names has every field. An identifier is compared with nothing: a later field takes
the place of an earlier one, and the view by identifiers has the last field of each
(`LastDeclared`). The list of sequences again asks only whether some field of the identifier is one.
-/

set_option autoImplicit false

namespace StoreModel

open StoreModel.Text

/-! ## What tags and shapes allow -/

/-- Bytes are never indexed, and only texts and bytes can be collected. Both are seen by going
through the shapes once. -/
theorem Shape.mapping_ok {s : Shape} {m : Shape.Mapping} (h : s.mapping = .ok m) :
    (m.kind = .bytes → m.forcesNoIndex = true) ∧
      (m.multiple = true → m.kind = .string ∨ m.kind = .bytes) := by
  unfold mapping at h
  split at h <;> cases h <;> simp

namespace Field.StoredAs

variable {f : Field} {p : StoredField}

/-- A stored name is written as tags allow: with something in it, without a comma, and with nothing
blank around it. -/
theorem written (h : f.StoredAs p) :
    p.name ≠ "" ∧ ',' ∉ p.name.toList ∧ Trimmed p.name.toList := by
  obtain ⟨a, m, ha, -, rfl⟩ := h
  have hspells := Tag.read_eq_ok_iff.mp ha
  exact ⟨hspells.ne_empty, hspells.comma, hspells.trimmed⟩

theorem noIndex_of_bytes (h : f.StoredAs p) (hkind : p.kind = .bytes) : p.noIndex = true := by
  obtain ⟨a, m, -, hm, rfl⟩ := h
  show (a.noIndex || m.forcesNoIndex) = true
  rw [(Shape.mapping_ok hm).1 hkind, Bool.or_true]

theorem kind_of_multiple (h : f.StoredAs p) (hmult : p.multiple = true) :
    p.kind = .string ∨ p.kind = .bytes := by
  obtain ⟨a, m, -, hm, rfl⟩ := h
  exact (Shape.mapping_ok hm).2 hmult

end Field.StoredAs

/-! ## Derived schemas -/

/-- What a derived schema is known for, whether its identifiers repeat or not. -/
structure Schema.WellFormed (s : Schema) : Prop where
  names : (s.fields.map (·.name)).Nodup
  written : ∀ p ∈ s.fields, p.name ≠ "" ∧ ',' ∉ p.name.toList ∧ Trimmed p.name.toList
  /-- A stored name leads to the position of the field that has it. -/
  namePositions : ∀ n i, s.namePositions[n]? = some i ↔ NamedAt s.fields n i
  /-- An identifier leads to the position of the last field that has it. -/
  fieldPositions : ∀ f i, s.fieldPositions[f]? = some i ↔ LastAt s.fields f i
  /-- No position lies outside the list, so a look-up that finds one finds a field there. -/
  inRange : (∀ (n : String) i, s.namePositions[n]? = some i → i < s.fields.length) ∧
    ∀ (f : String) i, s.fieldPositions[f]? = some i → i < s.fields.length
  /-- Every field is shown once under its name. -/
  byName_perm : s.byName.Perm s.fields
  byName_lt : s.byName.Pairwise fun p q => bytes p.name < bytes q.name
  getByName : ∀ n p, s.getByName? n = some p ↔ p ∈ s.fields ∧ p.name = n
  /-- Every identifier is shown once, with the last field that has it. -/
  mem_byField : ∀ p, p ∈ s.byField ↔ LastDeclared s.fields p
  exists_byField : ∀ p ∈ s.fields, ∃ q ∈ s.byField, q.field = p.field
  byField_lt : s.byField.Pairwise fun p q => bytes p.field < bytes q.field
  getByField : ∀ f p, s.getByField? f = some p ↔ LastDeclared s.fields p ∧ p.field = f
  mem_sequenceFields : ∀ f, f ∈ s.sequenceFields ↔
    ∃ p ∈ s.fields, p.multiple = true ∧ p.field = f
  sequenceFields_lt : s.sequenceFields.Pairwise fun a b => bytes a < bytes b
  bytes_noIndex : ∀ p ∈ s.fields, p.kind = .bytes → p.noIndex = true
  multiple_kind : ∀ p ∈ s.fields, p.multiple = true → p.kind = .string ∨ p.kind = .bytes

theorem Schema.Indexed.inRange {s : Schema} (h : s.Indexed) :
    (∀ (n : String) i, s.namePositions[n]? = some i → i < s.fields.length) ∧
      ∀ (f : String) i, s.fieldPositions[f]? = some i → i < s.fields.length := by
  constructor
  · intro n i hi
    obtain ⟨p, hp, -⟩ := (h.namePositions n i).mp hi
    exact (List.getElem?_eq_some_iff.mp hp).1
  · intro f i hi
    obtain ⟨⟨p, hp, -⟩, -⟩ := (h.fieldPositions f i).mp hi
    exact (List.getElem?_eq_some_iff.mp hp).1

/-- **What is known of every derived schema.** Its stored names are well written and do not repeat;
its two maps hold positions of the list, of the field with a name and of the last field with an
identifier; its look-ups show the fields as they say, in strict orders; and its marks and kinds go
together. -/
theorem Schema.derive_wellFormed {key : String} {e : Entity} {s : Schema}
    (h : derive key e = .ok s) : s.WellFormed := by
  have hfrom := derive_ok h
  have hindexed := hfrom.indexed
  exact {
    names := hfrom.names
    written := fun p hp => by
      obtain ⟨f, -, hfp⟩ := hfrom.exists_field hp
      exact hfp.written
    namePositions := hindexed.namePositions
    fieldPositions := hindexed.fieldPositions
    inRange := hindexed.inRange
    byName_perm := hindexed.byName_perm
    byName_lt := hindexed.byName_lt.imp lt_iff_bytes_lt.mp
    getByName := fun n p => hindexed.getByName?_eq_some_iff
    mem_byField := fun p => hindexed.mem_byField_iff
    exists_byField := fun p hp => by
      obtain ⟨q, hlast, hfield⟩ := exists_lastDeclared ⟨p, hp, rfl⟩
      exact ⟨q, hindexed.mem_byField_iff.mpr hlast, hfield⟩
    byField_lt := hindexed.byField_lt.imp lt_iff_bytes_lt.mp
    getByField := fun f p => hindexed.getByField?_eq_some_iff
    mem_sequenceFields := fun f => hindexed.mem_sequenceFields
    sequenceFields_lt := hindexed.sequenceFields_lt.imp lt_iff_bytes_lt.mp
    bytes_noIndex := fun p hp hkind => by
      obtain ⟨f, -, hfp⟩ := hfrom.exists_field hp
      exact hfp.noIndex_of_bytes hkind
    multiple_kind := fun p hp hmult => by
      obtain ⟨f, -, hfp⟩ := hfrom.exists_field hp
      exact hfp.kind_of_multiple hmult }

namespace Sample

/-- Scores that are described twice under one identifier, by a sequence and by one value. -/
def rescored : Entity :=
  { typeName := "Score"
    fields := [
      stored "points" " points ,noindex" (.seq .bytes),
      stored "player" "by" .string,
      stored "points" "total" .i64] }

def rescoredSchema : Schema :=
  .ofFields "Score" "Score"
    [⟨"points", "points", .bytes, true, true⟩, ⟨"player", "by", .string, false, false⟩,
      ⟨"points", "total", .int64, false, false⟩]

theorem derive_rescored : Schema.derive "Score" rescored = .ok rescoredSchema := rfl

/-- The two fields of one identifier keep their names and the positions of these. Under the
identifier the position of the last one has taken the place of the first, and still it is the
identifier of a sequence. -/
theorem derive_wellFormed_rescored :
    rescoredSchema.WellFormed ∧
      rescoredSchema.namePositions.toList = [("by", 1), ("points", 0), ("total", 2)] ∧
      rescoredSchema.fieldPositions.toList = [("player", 1), ("points", 2)] ∧
      rescoredSchema.getByName? "points" = some ⟨"points", "points", .bytes, true, true⟩ ∧
      rescoredSchema.getByField? "points" = some ⟨"points", "total", .int64, false, false⟩ ∧
      "points" ∈ rescoredSchema.sequenceFields := by
  have h := Schema.derive_wellFormed derive_rescored
  refine ⟨h, rfl, rfl, (h.getByName _ _).mpr ⟨.head _, rfl⟩, (h.getByField _ _).mpr ⟨?_, rfl⟩,
    (h.mem_sequenceFields _).mpr ⟨_, .head _, rfl, rfl⟩⟩
  exact ⟨rescoredSchema.fields.take 2, [], rfl, by simp⟩

end Sample

end StoreModel
