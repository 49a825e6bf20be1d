import StoreModel.Proofs.Composition
import StoreModel.Proofs.Views

/-!
# Turning indexing off

A field whose tag is a name and nothing else is indexed unless its type forbids it. This file says
what happens to the generated module when the mark is put behind that name: the constants of the
field are gone, its saving has the mark, and there is no other difference, neither in the code of
the same kind nor in that of another one (`KindCode.TurnedOff`).

The two modules are made from schemas that differ in one mark of one field. Every order of the
fields is by names or by identifiers, and the mark is neither, so it stays where it is through all
traversals (`StoredField.unindexedAt` is mapped over them). Loading never reads it. The constants
are those of the first module without one stretch of them, so whatever did not collide still does
not, and this is why the second module exists at all.
-/

set_option autoImplicit false

namespace StoreModel

open StoreModel.Source

/-! ## The mark of one field -/

/-- The tag with the mark behind it. Without a comma in it the tag is a name only, so the mark
becomes the second part, and the name is trimmed as before. -/
theorem Tag.read_append_mark {t : String} {a : Tag} (hcomma : ',' ∉ t.toList)
    (h : Tag.read t = .ok a) :
    a.noIndex = false ∧ Tag.read (t ++ ",noindex") = .ok { a with noIndex := true } := by
  obtain ⟨hne, hname, htrim, u, v, hu, hv, htext⟩ := Tag.read_eq_ok_iff.mp h
  have hmark : a.noIndex = false := by
    cases hb : a.noIndex with
    | false => rfl
    | true =>
      rw [hb, Tag.mark, if_pos rfl] at htext
      exact absurd (htext ▸ List.mem_append_right _ List.mem_cons_self) hcomma
  refine ⟨hmark, Tag.read_eq_ok_iff.mpr ⟨hne, hname, htrim, u, v, hu, hv, ?_⟩⟩
  rw [hmark, Tag.mark, if_neg (by simp), List.append_nil] at htext
  rw [String.toList_append, htext]
  rfl

/-- The field with the mark. -/
def StoredField.unindexed (p : StoredField) : StoredField := { p with noIndex := true }

/-- The field with the mark, if it has the identifier. -/
def StoredField.unindexedAt (field : String) (p : StoredField) : StoredField :=
  if p.field = field then p.unindexed else p

namespace StoredField

variable {field : String} {p : StoredField} {l : List StoredField}

theorem unindexed_eq_self (h : p.noIndex = true) : p.unindexed = p := by
  unfold unindexed
  rw [← h]

@[simp] theorem name_unindexedAt : (p.unindexedAt field).name = p.name := by
  unfold unindexedAt
  split <;> rfl

@[simp] theorem field_unindexedAt : (p.unindexedAt field).field = p.field := by
  unfold unindexedAt
  split <;> rfl

@[simp] theorem kind_unindexedAt : (p.unindexedAt field).kind = p.kind := by
  unfold unindexedAt
  split <;> rfl

@[simp] theorem multiple_unindexedAt : (p.unindexedAt field).multiple = p.multiple := by
  unfold unindexedAt
  split <;> rfl

@[simp] theorem ident_unindexedAt : (p.unindexedAt field).ident = p.ident :=
  congrArg Ident.ofText field_unindexedAt

theorem map_unindexedAt_of_ne (h : ∀ q ∈ l, q.field ≠ field) : l.map (unindexedAt field) = l :=
  (List.map_congr_left fun q hq => if_neg (h q hq)).trans (List.map_id l)

/-- Among fields of different identifiers only one receives the mark. -/
theorem map_unindexedAt_split {before after : List StoredField}
    (hd : ((before ++ p :: after).map (·.field)).Nodup) :
    (before ++ p :: after).map (unindexedAt p.field) = before ++ p.unindexed :: after := by
  have hne : ∀ q ∈ before ++ after, q.field ≠ p.field := ne_of_nodup_map_middle hd
  rw [List.map_append, List.map_cons,
    map_unindexedAt_of_ne fun q hq => hne q (List.mem_append_left _ hq),
    map_unindexedAt_of_ne fun q hq => hne q (List.mem_append_right _ hq)]
  exact congrArg (fun x => before ++ x :: after) (if_pos rfl)

/-- A position has a field of the same name before and after, so the map of names stays right
without being filled again. -/
theorem namedAt_map_unindexedAt_iff {n : String} {i : Nat} :
    NamedAt (l.map (unindexedAt field)) n i ↔ NamedAt l n i := by
  simp [NamedAt, List.getElem?_map, name_unindexedAt]

theorem lastAt_map_unindexedAt_iff {f : String} {i : Nat} :
    LastAt (l.map (unindexedAt field)) f i ↔ LastAt l f i := by
  simp only [LastAt, List.getElem?_map, Option.map_eq_some_iff]
  constructor
  · rintro ⟨⟨_, ⟨q, hq, rfl⟩, hf⟩, hlast⟩
    refine ⟨⟨q, hq, field_unindexedAt.symm.trans hf⟩, fun j r hj hr => ?_⟩
    have hr' := hlast j _ hj ⟨r, hr, rfl⟩
    rwa [field_unindexedAt] at hr'
  · rintro ⟨⟨q, hq, hf⟩, hlast⟩
    refine ⟨⟨_, ⟨q, hq, rfl⟩, field_unindexedAt.trans hf⟩, ?_⟩
    rintro j _ hj ⟨r, hr, rfl⟩
    rw [field_unindexedAt]
    exact hlast j r hj hr

end StoredField

/-! ## The code of a kind -/

open StoredField

/-- The schema in which the field with an identifier has the mark. -/
def Schema.unindexedAt (s : Schema) (field : String) : Schema :=
  { s with fields := s.fields.map (StoredField.unindexedAt field) }

namespace Schema

variable {s : Schema} {field : String} {p : StoredField}

/-- The maps of the schema agree with the marked fields as they did before. No map has to change,
which is why the marked schema can be compared with the old one at every place. -/
theorem Indexed.unindexedAt (h : s.Indexed) : (s.unindexedAt field).Indexed where
  namePositions n i := (h.namePositions n i).trans namedAt_map_unindexedAt_iff.symm
  fieldPositions f i := (h.fieldPositions f i).trans lastAt_map_unindexedAt_iff.symm
  sequenceFields := by
    show s.sequenceFields = _
    rw [h.sequenceFields, Schema.unindexedAt, List.filter_map, List.map_map]
    simp only [Function.comp_def, field_unindexedAt, multiple_unindexedAt]

/-- The maps stay as they are, so along each of them the same fields are met. -/
theorem fieldsAt_unindexedAt (m : Std.ExtTreeMap String Nat) :
    (s.unindexedAt field).fieldsAt m = (s.fieldsAt m).map (StoredField.unindexedAt field) := by
  unfold fieldsAt unindexedAt
  simp only [List.map_filterMap, List.getElem?_map]

theorem byName_unindexedAt :
    (s.unindexedAt field).byName = s.byName.map (StoredField.unindexedAt field) :=
  fieldsAt_unindexedAt _

theorem byField_unindexedAt :
    (s.unindexedAt field).byField = s.byField.map (StoredField.unindexedAt field) :=
  fieldsAt_unindexedAt _

theorem Readable.unindexedAt (h : s.Readable) : (s.unindexedAt field).Readable := by
  refine ⟨h.typeName, h.sequences, ?_, ?_⟩
  · rw [byName_unindexedAt, List.forall_mem_map]
    intro p hp
    rw [field_unindexedAt]
    exact h.byName p hp
  · rw [byField_unindexedAt, List.forall_mem_map]
    intro p hp
    rw [field_unindexedAt]
    exact h.byField p hp

/-- Of the code only the savings see the mark. -/
theorem code_unindexedAt : (s.unindexedAt field).code =
    { s.code with savings := s.byField.map fun q => (q.unindexedAt field).savingOf } := by
  unfold code
  rw [byName_unindexedAt, byField_unindexedAt, List.map_map, List.map_map]
  have harm : ∀ q : StoredField, (s.unindexedAt field).armOf (q.unindexedAt field) = s.armOf q := by
    intro q
    unfold armOf mismatch
    rw [name_unindexedAt, ident_unindexedAt, kind_unindexedAt, multiple_unindexedAt,
      field_unindexedAt]
    rfl
  simp only [Function.comp_def, harm]
  rfl

end Schema

/-- The code of a kind before and after indexing is turned off for one of its fields: the constants
of the field are gone, and its saving has the mark. -/
structure KindCode.TurnedOff (typeName : String) (p : StoredField) (k k' : KindCode) : Prop where
  key : k'.key = k.key
  constants : ∃ before after,
    k.constants = ⟨Ident.ofText (keyConstant typeName), k.key⟩ ::
      (before ++ (p.constants typeName).map Intended.constant ++ after) ∧
    k'.constants = ⟨Ident.ofText (keyConstant typeName), k.key⟩ :: (before ++ after)
  typeName : k'.implementation.typeName = k.implementation.typeName
  resets : k'.implementation.resets = k.implementation.resets
  arms : k'.implementation.arms = k.implementation.arms
  savings : ∃ before v after, SavingFor p v ∧ v.noIndex = false ∧
    k.implementation.savings = before ++ v :: after ∧
    k'.implementation.savings = before ++ { v with noIndex := true } :: after

namespace Schema

variable {s : Schema} {p : StoredField}

/-- The constants of a field are one stretch of those of its schema, and the mark takes it out. The
fields are cut at the one that is marked; filtering by the mark then goes separately on both sides.
-/
theorem constants_unindexedAt (hp : p ∈ s.fields) (hd : (s.fields.map (·.field)).Nodup)
    (hno : p.noIndex = false) : ∃ before after,
      s.constants = ⟨keyConstant s.typeName, s.key, "kind"⟩ ::
        (before ++ p.constants s.typeName ++ after) ∧
      (s.unindexedAt p.field).constants =
        ⟨keyConstant s.typeName, s.key, "kind"⟩ :: (before ++ after) := by
  obtain ⟨ps, qs, hsplit⟩ := List.append_of_mem hp
  have hindexed : s.indexed = ps.filter (!·.noIndex) ++ p :: qs.filter (!·.noIndex) := by
    rw [indexed, hsplit, List.filter_append, List.filter_cons_of_pos (by simp [hno])]
  have hindexed' : (s.unindexedAt p.field).indexed =
      ps.filter (!·.noIndex) ++ qs.filter (!·.noIndex) := by
    have hfields : (s.unindexedAt p.field).fields = ps ++ p.unindexed :: qs := by
      rw [unindexedAt, hsplit, map_unindexedAt_split (hsplit ▸ hd)]
    rw [indexed, hfields, List.filter_append,
      List.filter_cons_of_neg (by simp [StoredField.unindexed])]
  refine ⟨(ps.filter (!·.noIndex)).flatMap (StoredField.constants s.typeName),
    (qs.filter (!·.noIndex)).flatMap (StoredField.constants s.typeName), ?_, ?_⟩
  · rw [constants, hindexed, List.flatMap_append, List.flatMap_cons, List.append_assoc]
  · rw [constants, hindexed', List.flatMap_append]
    rfl

/-- A field that is not indexed anyway keeps everything as it is, since to mark it a second time is
no change. -/
theorem unindexedAt_eq_self (hp : p ∈ s.fields) (hd : (s.fields.map (·.field)).Nodup)
    (hno : p.noIndex = true) : s.unindexedAt p.field = s := by
  obtain ⟨ps, qs, hsplit⟩ := List.append_of_mem hp
  unfold unindexedAt
  rw [hsplit, map_unindexedAt_split (hsplit ▸ hd), unindexed_eq_self hno, ← hsplit]

/-- Either way the constants become fewer or stay, and that is enough for them to be accepted again.
-/
theorem constants_unindexedAt_sublist (hp : p ∈ s.fields) (hd : (s.fields.map (·.field)).Nodup) :
    (s.unindexedAt p.field).constants.Sublist s.constants := by
  cases hno : p.noIndex with
  | true => rw [unindexedAt_eq_self hp hd hno]
  | false =>
    obtain ⟨before, after, hc, hc'⟩ := constants_unindexedAt hp hd hno
    rw [hc, hc']
    exact ((List.sublist_append_left _ _).append_right _).cons_cons _

/-- Of the savings one gets the mark, where it stands. The cut is made in the map of fields this
time, because savings come in its order. -/
theorem savings_unindexedAt (hs : s.Indexed) (hp : p ∈ s.fields)
    (hd : (s.fields.map (·.field)).Nodup) :
    ∃ before after, s.code.savings = before ++ p.savingOf :: after ∧
      (s.unindexedAt p.field).code.savings =
        before ++ { p.savingOf with noIndex := true } :: after := by
  obtain ⟨ps, qs, hsplit⟩ := List.append_of_mem ((hs.byField_perm hd).mem_iff.mpr hp)
  refine ⟨ps.map savingOf, qs.map savingOf, ?_, ?_⟩
  · show s.byField.map savingOf = _
    rw [hsplit, List.map_append, List.map_cons]
  · show (s.unindexedAt p.field).byField.map savingOf = _
    rw [byField_unindexedAt, hsplit, map_unindexedAt_split (hsplit ▸ hs.nodup_map_field_byField),
      List.map_append, List.map_cons]
    rfl

/-- The code of the kind before and after, for a field that was indexed. Constants and savings have
been treated above; for the rest the two codes are one expression. -/
theorem turnedOff (hr : s.Readable) (hs : s.Indexed) (hp : p ∈ s.fields)
    (hd : (s.fields.map (·.field)).Nodup) (hno : p.noIndex = false) :
    KindCode.TurnedOff s.typeName p s.kindCode (s.unindexedAt p.field).kindCode := by
  have hcode : (s.unindexedAt p.field).kindCode.implementation =
      { s.code with savings := s.byField.map fun q => (q.unindexedAt p.field).savingOf } :=
    code_unindexedAt
  refine ⟨rfl, ?_, congrArg (·.typeName) hcode, congrArg (·.resets) hcode,
    congrArg (·.arms) hcode, ?_⟩
  · obtain ⟨before, after, hc, hc'⟩ := constants_unindexedAt hp hd hno
    refine ⟨before.map Intended.constant, after.map Intended.constant, ?_, ?_⟩
    · show s.constants.map Intended.constant = _
      rw [hc, List.map_cons, List.map_append, List.map_append]
      rfl
    · show (s.unindexedAt p.field).constants.map Intended.constant = _
      rw [hc', List.map_cons, List.map_append]
      rfl
  · obtain ⟨before, after, hv, hv'⟩ := savings_unindexedAt hs hp hd
    exact ⟨before, p.savingOf, after, hr.savingFor hs hp, hno, hv, hv'⟩

end Schema

/-! ## The schemas of a registry -/

/-- The mark behind the tag of one field is the mark of one field of the schema. Fields and stored
fields are cut at it side by side; the two sides are derived as before, and the field itself again
with the longer tag. -/
theorem Schema.derive_unindexedAt {key t : String} {e : Entity} {s : Schema} {f : Field}
    {before after : List Field} (hs : derive key e = .ok s)
    (hd : (e.exportedFields.map (·.name)).Nodup) (hsplit : e.fields = before ++ f :: after)
    (hf : f.exported = true) (ht : f.tag = some t) (hcomma : ',' ∉ t.toList) :
    ∃ p ∈ s.fields, f.StoredAs p ∧ (∃ m, f.shape.mapping = .ok m ∧ p.noIndex = m.forcesNoIndex) ∧
      derive key { e with fields := before ++ { f with tag := some (t ++ ",noindex") } :: after } =
        .ok (s.unindexedAt p.field) := by
  obtain ⟨hkey, htype, hfields, hindexed⟩ := derive_ok hs
  have hexported : e.exportedFields =
      before.filter (·.exported) ++ f :: after.filter (·.exported) := by
    rw [Entity.exportedFields, hsplit, List.filter_append, List.filter_cons_of_pos hf]
  rw [hexported] at hfields
  obtain ⟨ps, p, qs, hps, hbefore, hfp, hafter⟩ := exists_split_of_forall₂ hfields
  have hp : p ∈ s.fields := hps ▸ List.mem_append_right _ List.mem_cons_self
  have hdf : (s.fields.map (·.field)).Nodup := (derive_ok hs).map_field ▸ hd
  have hunindexed : (s.unindexedAt p.field).fields = ps ++ p.unindexed :: qs := by
    rw [unindexedAt, hps, map_unindexedAt_split (hps ▸ hdf)]
  have hstored := hfp
  obtain ⟨a, m, ha, hm, hpm⟩ := hfp
  rw [ht, Option.getD_some] at ha
  obtain ⟨hmark, hread⟩ := Tag.read_append_mark hcomma ha
  refine ⟨p, hp, hstored, ⟨m, hm, ?_⟩, derive_ok_iff.mpr ⟨hkey, htype, ?_, hindexed.unindexedAt⟩⟩
  · rw [hpm, hmark, Bool.false_or]
  · have hf' : ({ f with tag := some (t ++ ",noindex") } : Field).exported = true := hf
    rw [hunindexed, Entity.exportedFields, List.filter_append, List.filter_cons_of_pos hf']
    refine List.rel_append hbefore (.cons ⟨_, m, hread, hm, ?_⟩ hafter)
    rw [hpm]
    rfl

namespace Registry

/-- The registry in which every copy of one entity is replaced by another entity. -/
def replace (r : Registry) (e e' : Entity) : Registry :=
  ⟨r.entries.map fun x => if x.2 = e then (x.1, e') else x⟩

variable {r : Registry} {e e' : Entity} {key : String}

/-- Replacing an entity in all its registrations replaces it in the entries. Entries are known by
order and membership, and a replacement keeps the keys that the order is by. -/
theorem sortedEntries_replace {out : List (String × Entity)} (h : r.sortedEntries = .ok out) :
    (r.replace e e').sortedEntries = .ok (out.map fun x => if x.2 = e then (x.1, e') else x) := by
  obtain ⟨hsorted, hmem⟩ := sortedEntries_ok_iff.mp h
  refine sortedEntries_ok_iff.mpr ⟨List.pairwise_map.mpr (hsorted.imp fun {x y} hxy => ?_), ?_⟩
  · have hkey : ∀ x : String × Entity, (if x.2 = e then (x.1, e') else x).1 = x.1 := fun x => by
      split <;> rfl
    rwa [hkey, hkey]
  · intro x
    simp only [replace, List.mem_map, hmem]

end Registry

/-! ## Modules -/

/-- A schema with fewer constants can take the place of another one: names that do not repeat do not
repeat among fewer, and the other schemas are the same. -/
theorem Assemblable.replace {ss₁ ss₂ : List Schema} {s s' : Schema}
    (h : Assemblable (ss₁ ++ s :: ss₂)) (hsub : s'.constants.Sublist s.constants)
    (hr : s'.Readable) : Assemblable (ss₁ ++ s' :: ss₂) := by
  have hnames : (intendedNames (ss₁ ++ s' :: ss₂)).Sublist (intendedNames (ss₁ ++ s :: ss₂)) := by
    rw [intendedNames_append, intendedNames_append, intendedNames_cons, intendedNames_cons]
    exact ((hsub.map _).append_right _).append_left _
  refine ⟨h.names.sublist hnames, fun n hn => h.constants n (hnames.subset hn), fun q hq => ?_⟩
  rcases List.mem_append.mp hq with hq | hq
  · exact h.schemas q (List.mem_append_left _ hq)
  · rcases List.mem_cons.mp hq with rfl | hq
    · exact hr
    · exact h.schemas q (List.mem_append_right _ (List.mem_cons_of_mem _ hq))

/-- An entity of an accepted model is registered under one key, so replacing it replaces one schema.
A second key for it would claim the constant for the key a second time, and the model would not have
been accepted. -/
theorem Registry.schemas_replace {r : Registry} {entries : List (String × Entity)}
    {ss : List Schema} {key : String} {e e' : Entity} {s s' : Schema}
    (hentries : r.sortedEntries = .ok entries)
    (hss : List.Forall₂ (fun x s => Schema.derive x.1 x.2 = .ok s) entries ss)
    (hok : Assemblable ss) (he : (key, e) ∈ r.entries) (hs : Schema.derive key e = .ok s)
    (hs' : Schema.derive key e' = .ok s') :
    ∃ ss₁ ss₂ entries', ss = ss₁ ++ s :: ss₂ ∧ (r.replace e e').sortedEntries = .ok entries' ∧
      List.Forall₂ (fun x s => Schema.derive x.1 x.2 = .ok s) entries' (ss₁ ++ s' :: ss₂) := by
  obtain ⟨before, after, rfl⟩ := List.append_of_mem ((sortedEntries_ok hentries).2.2 _ |>.mpr he)
  obtain ⟨ss₁, s₀, ss₂, rfl, hbefore, hs₀, hafter⟩ := exists_split_of_forall₂ hss
  obtain rfl : s₀ = s := Except.ok.inj (hs₀.symm.trans hs)
  refine ⟨ss₁, ss₂, _, rfl, sortedEntries_replace hentries, ?_⟩
  -- two entries of one entity would have one type name, and their keys one constant
  have htypes := ne_of_nodup_map_middle hok.typeNames
  have hkeep : ∀ x ∈ before ++ after, (if x.2 = e then (x.1, e') else x) = x := by
    intro x hx
    obtain ⟨q, hq, hxq⟩ := exists_right_of_forall₂ (List.rel_append hbefore hafter) hx
    refine if_neg fun hxe => htypes q hq (congrArg Ident.dropMark ?_)
    rw [(Schema.derive_ok hxq).typeName_eq, (Schema.derive_ok hs).typeName_eq, hxe]
  rw [List.map_append, List.map_cons, if_pos rfl,
    List.map_congr_left fun x hx => hkeep x (List.mem_append_left _ hx),
    List.map_congr_left fun x hx => hkeep x (List.mem_append_right _ hx), List.map_id',
    List.map_id']
  exact List.rel_append hbefore (.cons hs' hafter)

/-- **Turning indexing off is local.** Put the mark behind the tag of an exported field, in every
copy of the description, and the module is still generated. It is made of the same kinds in the same
order, and all but one of them have the code they had. In that one the seven constants of the field
are gone and its saving has the mark; or, if the type of the field forbids the index anyway, nothing
is different at all. -/
theorem Registry.generate_unindexed {r : Registry} {path text key t : String} {e e' : Entity}
    {f : Field} {before after : List Field} (h : (r.generate path).result = .ok text)
    (he : (key, e) ∈ r.entries) (hd : (e.exportedFields.map (·.name)).Nodup)
    (hsplit : e.fields = before ++ f :: after) (hf : f.exported = true) (ht : f.tag = some t)
    (hcomma : ',' ∉ t.toList)
    (he' : e' = { e with
      fields := before ++ { f with tag := some (t ++ ",noindex") } :: after }) :
    ∃ (p : ImportPath) (ss₁ ss₂ : List Schema) (s s' : Schema) (q : StoredField)
      (m : Shape.Mapping),
      r.schemas = .ok (ss₁ ++ s :: ss₂) ∧ (r.replace e e').schemas = .ok (ss₁ ++ s' :: ss₂) ∧
      text = p.moduleText ((ss₁ ++ s :: ss₂).map Schema.kindCode) ∧
      ((r.replace e e').generate path).result =
        .ok (p.moduleText ((ss₁ ++ s' :: ss₂).map Schema.kindCode)) ∧
      Schema.derive key e = .ok s ∧ q ∈ s.fields ∧ f.StoredAs q ∧ f.shape.mapping = .ok m ∧
      if m.forcesNoIndex then ((r.replace e e').generate path).result = .ok text
      else KindCode.TurnedOff e.typeName q s.kindCode s'.kindCode := by
  subst he'
  obtain ⟨entries, ss, m, hentries, hss, hm, rfl⟩ := generate_eq_ok_iff.mp h
  obtain ⟨hpath, hok, -, -⟩ := Module.assemble_eq_ok_iff.mp hm
  obtain ⟨s, hs, hderive⟩ :=
    exists_right_of_forall₂ hss (((sortedEntries_ok hentries).2.2 _).mpr he)
  have hder := Schema.derive_ok hderive
  have hread := hok.schemas s hs
  have hdf : (s.fields.map (·.field)).Nodup := hder.map_field ▸ hd
  obtain ⟨q, hq, hfq, ⟨μ, hμ, hno⟩, hderive'⟩ :=
    Schema.derive_unindexedAt hderive hd hsplit hf ht hcomma
  obtain ⟨ss₁, ss₂, entries', rfl, hentries', hss'⟩ :=
    schemas_replace hentries hss hok he hderive hderive'
  have hok' : Assemblable (ss₁ ++ s.unindexedAt q.field :: ss₂) :=
    hok.replace (Schema.constants_unindexedAt_sublist hq hdf) hread.unindexedAt
  have hm' : Module.assemble (ss₁ ++ s.unindexedAt q.field :: ss₂) path = .ok
      { importPath := m.importPath
        constants := (intendedConstants (ss₁ ++ s.unindexedAt q.field :: ss₂)).map (·.2.constant)
        implementations := (ss₁ ++ s.unindexedAt q.field :: ss₂).map Schema.code } :=
    Module.assemble_eq_ok_iff.mpr ⟨hpath, hok', rfl, rfl⟩
  have htext := Module.text_of_assemble hm
  have hgenerate := generate_eq_ok_iff.mpr
    ⟨_, _, _, hentries', hss', hm', Module.text_of_assemble hm'⟩
  refine ⟨m.importPath, ss₁, ss₂, s, s.unindexedAt q.field, q, μ,
    schemas_eq_ok_iff.mpr ⟨_, hentries, hss⟩, schemas_eq_ok_iff.mpr ⟨_, hentries', hss'⟩,
    htext, hgenerate, hderive, hq, hfq, hμ, ?_⟩
  cases hforced : μ.forcesNoIndex with
  | true =>
    rw [if_pos rfl, hgenerate, htext, Schema.unindexedAt_eq_self hq hdf (hno.trans hforced)]
  | false =>
    rw [if_neg Bool.false_ne_true, ← hder.typeName_eq]
    exact Schema.turnedOff hread hder.indexed hq hdf (hno.trans hforced)

namespace Sample

/-- Posts that were registered twice. -/
def repeated : Registry := (Registry.insert {} "Post" crossed).insert "Post" crossed

/-- Posts whose titles are not indexed. -/
def crossedOff : Entity :=
  { crossed with
    fields := [stored "title" "tags,noindex" .string] ++ crossed.fields.tail }

/-- Both copies are replaced, and the constants of the titles are gone. -/
theorem generate_unindexed_crossed :
    ∃ (text : String) (p : ImportPath) (ss₁ ss₂ : List Schema) (s' : Schema),
      (repeated.generate "super").result = .ok text ∧
      repeated.replace crossed crossedOff =
        (Registry.insert {} "Post" crossedOff).insert "Post" crossedOff ∧
      ((repeated.replace crossed crossedOff).generate "super").result =
        .ok (p.moduleText ((ss₁ ++ s' :: ss₂).map Schema.kindCode)) ∧
      KindCode.TurnedOff "Post" ⟨"title", "tags", .string, false, false⟩
        crossedSchema.kindCode s'.kindCode := by
  have hsorted : repeated.sortedEntries = .ok [("Post", crossed)] := by
    have hsort : repeated.entries.mergeSort Registry.entryLE = repeated.entries :=
      List.mergeSort_of_pairwise (by decide)
    unfold Registry.sortedEntries
    exact (congrArg Registry.collapse hsort).trans rfl
  have hgenerate := Registry.generate_eq_ok_iff.mpr ⟨_, _, _, hsorted, .cons derive_crossed .nil,
    assemblable_crossed.assemble_super, rfl⟩
  have hsplit : crossed.fields = [] ++ stored "title" "tags" .string :: crossed.fields.tail := rfl
  obtain ⟨p, ss₁, ss₂, s, s', q, m, -, -, -, hresult, hs, hq, hfq, hm, hoff⟩ :=
    Registry.generate_unindexed hgenerate List.mem_cons_self (by decide) hsplit rfl rfl (by decide)
      (rfl : crossedOff = _)
  obtain rfl : crossedSchema = s := Except.ok.inj hs
  refine ⟨_, p, ss₁, ss₂, s', hgenerate, rfl, hresult, ?_⟩
  obtain rfl : ⟨.string, false, false⟩ = m := Except.ok.inj hm
  rcases List.mem_pair.mp hq with rfl | rfl
  · exact hoff
  · exact absurd hfq.field_eq (by decide)

end Sample

end StoreModel
