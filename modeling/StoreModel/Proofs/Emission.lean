import Mathlib.Data.List.Perm.Basic
import StoreModel.Module.Assembly
import StoreModel.Proofs.Derivation
import StoreModel.Proofs.Keyed
import StoreModel.Sample.Model

/-!
# The code of a schema

`Schema.implementation` goes through a schema three times, along its list of sequences and along its
two maps, and may fail at every identifier it meets. Here it is taken apart once: it succeeds
exactly if every name it meets is an identifier (`Schema.Readable`), and what it gives then is a
function of the schema, `Schema.code`. Later proofs are about that function and do not see the steps
in which it is made.

What is met on the way are the declared fields, if the maps agree with them; then the fields alone
decide (`Schema.Indexed.readable_iff`).
-/

set_option autoImplicit false

namespace StoreModel

open StoreModel.Source

/-! ## Identifiers -/

/-- An identifier is there exactly if the text reads as one. Said with a function of the text on the
right, so that a list of identifiers is a `map`. -/
theorem identifier_eq_ok_iff {s : String} {id : Ident} :
    identifier s = .ok id ↔ (∃ i, Ident.read s = .ok i) ∧ id = Ident.ofText s := by
  unfold identifier
  rw [mapError_eq_ok_iff]
  constructor
  · intro h
    exact ⟨⟨id, h⟩, (Ident.ofText_eq h).symm⟩
  · rintro ⟨⟨i, hi⟩, rfl⟩
    rw [Ident.ofText_eq hi, hi]

/-- What is made of an identifier is made exactly where there is one. -/
theorem map_identifier_eq_ok_iff {β : Type} {s : String} {f : Ident → β} {b : β} :
    (identifier s).map f = .ok b ↔ (∃ id, Ident.read s = .ok id) ∧ b = f (Ident.ofText s) := by
  rw [map_eq_ok_iff]
  constructor
  · rintro ⟨id, hid, rfl⟩
    obtain ⟨hread, rfl⟩ := identifier_eq_ok_iff.mp hid
    exact ⟨hread, rfl⟩
  · rintro ⟨hread, rfl⟩
    exact ⟨_, identifier_eq_ok_iff.mpr ⟨hread, rfl⟩, rfl⟩

/-! ## Code -/

/-- The error of an arm: the type and the field by the texts of the description, and the kind by its
name. -/
def Schema.mismatch (s : Schema) (p : StoredField) : Mismatch :=
  ⟨s.typeName, p.field, p.kind.typeName, p.multiple⟩

/-- The arm for a field whose name is an identifier. -/
def Schema.armOf (s : Schema) (p : StoredField) : Arm :=
  { name := p.name, field := p.ident, kind := p.kind, push := p.multiple, mismatch := s.mismatch p }

/-- The saving for a field whose name is an identifier. -/
def StoredField.savingOf (p : StoredField) : Saving :=
  { field := p.ident, name := p.name, kind := p.kind, loop := p.multiple, noIndex := p.noIndex }

/-- The code of a schema whose names are identifiers. -/
def Schema.code (s : Schema) : Implementation :=
  { typeName := Ident.ofText s.typeName
    resets := s.sequenceFields.map Ident.ofText
    arms := s.byName.map s.armOf
    savings := s.byField.map StoredField.savingOf }

/-- The names that code meets are identifiers. -/
structure Schema.Readable (s : Schema) : Prop where
  typeName : ∃ id, Ident.read s.typeName = .ok id
  sequences : ∀ f ∈ s.sequenceFields, ∃ id, Ident.read f = .ok id
  byName : ∀ p ∈ s.byName, ∃ id, Ident.read p.field = .ok id
  byField : ∀ p ∈ s.byField, ∃ id, Ident.read p.field = .ok id

/-- Every list that is gone through has fields of the schema only, and the first has all. So
readable code is code whose fields are identifiers, however many lists they are met in. -/
theorem Schema.Indexed.readable_iff {s : Schema} (h : s.Indexed) :
    s.Readable ↔ (∃ id, Ident.read s.typeName = .ok id) ∧
      ∀ p ∈ s.fields, ∃ id, Ident.read p.field = .ok id := by
  constructor
  · intro hr
    exact ⟨hr.typeName, fun p hp => hr.byName p (h.mem_byName_iff.mpr hp)⟩
  · rintro ⟨htype, hfields⟩
    refine ⟨htype, fun f hf => ?_, fun p hp => hfields p (mem_of_mem_byName hp),
      fun p hp => hfields p (mem_of_mem_byField hp)⟩
    obtain ⟨p, hp, -, rfl⟩ := h.mem_sequenceFields.mp hf
    exact hfields p hp

theorem Schema.Readable.fields {s : Schema} (hr : s.Readable) (h : s.Indexed) {p : StoredField}
    (hp : p ∈ s.fields) : ∃ id, Ident.read p.field = .ok id :=
  (h.readable_iff.mp hr).2 p hp

theorem Schema.arm_eq_ok_iff {s : Schema} {p : StoredField} {a : Arm} :
    s.arm p = .ok a ↔ (∃ id, Ident.read p.field = .ok id) ∧ a = s.armOf p :=
  map_identifier_eq_ok_iff

theorem StoredField.saving_eq_ok_iff {p : StoredField} {a : Saving} :
    p.saving = .ok a ↔ (∃ id, Ident.read p.field = .ok id) ∧ a = p.savingOf :=
  map_identifier_eq_ok_iff

/-- Code is made exactly if the names are identifiers, and then it is the code of the schema. Each
of the four readings is an equivalence of this form, and the steps between them are put together by
one rewriting. -/
theorem Schema.implementation_eq_ok_iff {s : Schema} {i : Implementation} :
    s.implementation = .ok i ↔ s.Readable ∧ i = s.code := by
  unfold implementation
  simp only [bind_eq_ok_iff, identifier_eq_ok_iff, mapM_eq_ok_iff (fun _ _ => identifier_eq_ok_iff),
    mapM_eq_ok_iff (fun _ _ => arm_eq_ok_iff),
    mapM_eq_ok_iff (fun _ _ => StoredField.saving_eq_ok_iff)]
  constructor
  · rintro ⟨t, ⟨ht, rfl⟩, rs, ⟨hresets, rfl⟩, as, ⟨harms, rfl⟩, ss, ⟨hsavings, rfl⟩, h⟩
    cases h
    exact ⟨⟨ht, hresets, harms, hsavings⟩, rfl⟩
  · rintro ⟨hr, rfl⟩
    exact ⟨_, ⟨hr.typeName, rfl⟩, _, ⟨hr.sequences, rfl⟩, _, ⟨hr.byName, rfl⟩, _,
      ⟨hr.byField, rfl⟩, rfl⟩

/-! ## Fields that are kept apart -/

/-- No two fields share their stored name or their identifier. For the names it is the map of
names that tells. -/
structure Schema.Apart (s : Schema) : Prop where
  indexed : s.Indexed
  idents : (s.fields.map (·.ident)).Nodup

namespace Schema.Apart

variable {s : Schema} {p q : StoredField}

theorem names (h : s.Apart) : (s.fields.map (·.name)).Nodup := h.indexed.nodup_map_name

theorem eq_of_name_eq (h : s.Apart) (hp : p ∈ s.fields) (hq : q ∈ s.fields)
    (he : p.name = q.name) : p = q :=
  List.inj_on_of_nodup_map h.names hp hq he

/-- Two fields of one identifier are one field, and with it they share a slot of the record only if
they are the same. -/
theorem eq_of_text_eq (h : s.Apart) (hp : p ∈ s.fields) (hq : q ∈ s.fields)
    (he : p.ident.text = q.ident.text) : p = q :=
  List.inj_on_of_nodup_map h.idents hp hq (congrArg Ident.mk he)

/-- Fields with different identifiers are described by different texts. -/
theorem fields_nodup (h : s.Apart) : (s.fields.map (·.field)).Nodup := by
  refine List.Nodup.of_map Ident.ofText ?_
  rw [List.map_map]
  exact h.idents

end Schema.Apart

/-- Stored names are kept apart by the derivation, identifiers by the type. -/
theorem Schema.DerivedFrom.apart {s : Schema} {key : String} {e : Entity}
    (h : s.DerivedFrom key e) (hd : e.DistinctFields) : s.Apart := by
  refine ⟨h.indexed, ?_⟩
  have hids : s.fields.map (·.ident) = e.exportedFields.map (·.ident) := by
    have := congrArg (List.map Ident.ofText) h.map_field
    rw [List.map_map, List.map_map] at this
    exact this
  rw [hids]
  exact hd

/-! ## A sample -/

namespace Sample

/-- The schema of the entity whose fields are stored under the names of each other. -/
def crossedSchema : Schema :=
  .ofFields "Post" "Post"
    [⟨"title", "tags", .string, false, false⟩, ⟨"tags", "title", .string, true, true⟩]

theorem derive_crossed : Schema.derive "Post" crossed = .ok crossedSchema := rfl

theorem distinctFields_crossed : crossed.DistinctFields := by
  unfold Entity.DistinctFields
  decide

theorem indexed_crossed : crossedSchema.Indexed := (Schema.derive_ok derive_crossed).indexed

theorem implementation_crossed : crossedSchema.implementation = .ok crossedSchema.code := by
  refine Schema.implementation_eq_ok_iff.mpr
    ⟨indexed_crossed.readable_iff.mpr ⟨⟨⟨"Post"⟩, rfl⟩, fun p hp => ?_⟩, rfl⟩
  rcases List.mem_pair.mp hp with rfl | rfl
  · exact ⟨⟨"title"⟩, rfl⟩
  · exact ⟨⟨"tags"⟩, rfl⟩

end Sample

end StoreModel
