import StoreModel.Proofs.RoundTrip

/-!
# Loading what another type has saved

A type changes, and what was saved before is loaded with the code of the new type. The two schemas
have nothing in common but the stored names, so everything is decided name by name. A field of the
old type stands in the way (`Clashes`) if the new type has its name for another kind and saving
gives anything under it; then loading stops at the first such field in the order of saving. If there
is none, each field of the new type has what `Slot.received` makes of the slot that was saved under
its name.

Saving goes by the identifiers of one type and loading by the stored names of the other. The link
between them is `valuesUnder`: what is saved under a name are the values of one slot
(`Schema.valuesUnder_saved`) or nothing at all, and loading is already known to depend on no more.
-/

set_option autoImplicit false

namespace StoreModel

open StoreModel.Source

variable {s t : Schema} {r d : Record}

/-! ## What is saved for a field -/

/-- Saving gives at least one property for a field: always for a single value, and for a sequence if
it has elements. -/
def StoredField.Emits (p : StoredField) (r : Record) : Prop :=
  p.multiple = true → r.get? p.ident.text ≠ some (.many [])

theorem StoredField.Accepts.emits_iff {p : StoredField} {slot : Slot} (h : p.Accepts slot)
    (hslot : r.get? p.ident.text = some slot) : p.Emits r ↔ slot.values ≠ [] := by
  unfold Emits
  rw [hslot]
  obtain ⟨v, rfl, hm, -⟩ | ⟨vs, rfl, hm, -⟩ := h
  · rw [hm]
    simp [Slot.values]
  · rw [hm]
    simp [Slot.values]

/-- Whatever is saved for a field is saved under its stored name. The name is then all that the
loading type sees of where it came from. -/
theorem StoredField.name_of_mem_properties {p : StoredField} {x : Property}
    (hx : x ∈ p.properties r) : x.name = p.name := by
  obtain ⟨v, -, rfl⟩ := List.mem_map.mp hx
  rfl

theorem valuesUnder_eq_nil {name : String} {ps : List Property} (h : ∀ p ∈ ps, p.name ≠ name) :
    valuesUnder name ps = [] := by
  refine List.eq_nil_iff_forall_not_mem.mpr fun v hv => ?_
  obtain ⟨p, hp, hname, -⟩ := mem_valuesUnder.mp hv
  exact h p hp hname

/-- Something is saved under a name just if the field of that name emits. Stored names are apart, so
no other field can put anything there. -/
theorem Schema.exists_saved_iff (hs : s.Apart)
    (hr : ∀ p ∈ s.fields, ∃ slot, r.get? p.ident.text = some slot ∧ p.Accepts slot)
    {p : StoredField} (hp : p ∈ s.fields) :
    (∃ x ∈ s.byField.flatMap (·.properties r), x.name = p.name) ↔ p.Emits r := by
  obtain ⟨slot, hslot, hacc⟩ := hr p hp
  rw [hacc.emits_iff hslot, ← valuesUnder_saved hs hp hslot]
  constructor
  · rintro ⟨x, hx, hname⟩ hnil
    have hmem := mem_valuesUnder.mpr ⟨x, hx, hname, rfl⟩
    rw [hnil] at hmem
    exact absurd hmem (by simp)
  · intro hne
    obtain ⟨v, hv⟩ := List.exists_mem_of_ne_nil _ hne
    obtain ⟨x, hx, hname, -⟩ := mem_valuesUnder.mp hv
    exact ⟨x, hx, hname⟩

/-! ## Fields that stand in the way -/

/-- A field of another type has the stored name of a field for another kind. -/
def StoredField.Contradicts (q p : StoredField) : Prop := q.name = p.name ∧ q.kind ≠ p.kind

/-- A field that is saved with what the other type cannot take under its name. -/
def Clashes (t : Schema) (r : Record) (p : StoredField) : Prop :=
  p.Emits r ∧ ∃ q ∈ t.fields, q.Contradicts p

/-- A property of a field misfits another type as the field contradicts it: loading looks at the
kind of the value, and in a record that fits its type that is the kind of the field. -/
theorem Schema.misfits_of_mem_properties {p : StoredField} {slot : Slot} (hacc : p.Accepts slot)
    (hslot : r.get? p.ident.text = some slot) {x : Property} (hx : x ∈ p.properties r) :
    t.misfits x = true ↔ ∃ q ∈ t.fields, q.Contradicts p := by
  rw [StoredField.properties_of_get? hslot] at hx
  obtain ⟨v, hv, rfl⟩ := List.mem_map.mp hx
  have hkind : (p.property v).value.kind = p.kind := hacc.kind_eq hv
  rw [misfits_eq_true_iff, hkind]
  exact Iff.rfl

/-- Fields that do not clash are saved with nothing that misfits. A field that contradicts the other
type but emits nothing has no property here to misfit with. -/
theorem Schema.misfits_of_not_clashes
    (hr : ∀ p ∈ s.fields, ∃ slot, r.get? p.ident.text = some slot ∧ p.Accepts slot)
    {l : List StoredField} (hl : ∀ p ∈ l, p ∈ s.fields) (hno : ∀ p ∈ l, ¬ Clashes t r p) :
    ∀ x ∈ l.flatMap (·.properties r), t.misfits x = false := by
  intro x hx
  obtain ⟨p, hp, hxp⟩ := List.mem_flatMap.mp hx
  obtain ⟨slot, hslot, hacc⟩ := hr p (hl p hp)
  rw [Bool.eq_false_iff]
  intro hmis
  have hcontra := (misfits_of_mem_properties hacc hslot hxp).mp hmis
  refine hno p hp ⟨(hacc.emits_iff hslot).mpr ?_, hcontra⟩
  rw [StoredField.properties_of_get? hslot] at hxp
  obtain ⟨v, hv, -⟩ := List.mem_map.mp hxp
  exact List.ne_nil_of_mem hv

/-- Loading stops at the first field that clashes, with the mismatch of the field that has its name.
The properties of the fields before it all fit, and the first one of its own does not. -/
theorem Schema.load_of_clash (ht : t.Apart)
    (hr : ∀ p ∈ s.fields, ∃ slot, r.get? p.ident.text = some slot ∧ p.Accepts slot)
    {before after : List StoredField} {p q : StoredField}
    (hsplit : s.byField = before ++ p :: after) (hno : ∀ p' ∈ before, ¬ Clashes t r p')
    (hemits : p.Emits r) (hq : q ∈ t.fields) (hpq : q.Contradicts p) :
    (t.code.load d (s.byField.flatMap (·.properties r))).fault = some (t.mismatch q) := by
  have hmem : ∀ p' ∈ before ++ p :: after, p' ∈ s.fields := fun p' hp' =>
    mem_of_mem_byField (hsplit ▸ hp')
  have hp := hmem p (List.mem_append_right _ List.mem_cons_self)
  obtain ⟨slot, hslot, hacc⟩ := hr p hp
  -- what is saved for the field begins with a property, and that one misfits
  obtain ⟨v, vs, hvs⟩ := List.exists_cons_of_ne_nil ((hacc.emits_iff hslot).mp hemits)
  have hprops : p.properties r = p.property v :: vs.map p.property := by
    rw [StoredField.properties_of_get? hslot, hvs, List.map_cons]
  have hkind : v.kind = p.kind := hacc.kind_eq (hvs ▸ List.mem_cons_self)
  have hbefore := misfits_of_not_clashes hr
    (fun p' hp' => hmem p' (List.mem_append_left _ hp')) hno
  rw [hsplit, List.flatMap_append, List.flatMap_cons, hprops, List.cons_append,
    load_of_misfit ht hbefore hq hpq.1 (fun he => hpq.2 (he.trans hkind)) d]

/-- Either no field clashes or there is a first one in the order of saving. The condition is not
decided by the program, so this is where the proof reasons classically. -/
theorem Schema.exists_first_clash (s t : Schema) (r : Record) :
    (∀ p ∈ s.byField, ¬ Clashes t r p) ∨ ∃ before p after, s.byField = before ++ p :: after ∧
      (∀ p' ∈ before, ¬ Clashes t r p') ∧ Clashes t r p := by
  classical
  cases hfind : s.byField.find? fun p => decide (Clashes t r p) with
  | none =>
    left
    intro p hp hclash
    exact List.find?_eq_none.mp hfind p hp (decide_eq_true hclash)
  | some p =>
    obtain ⟨hp, before, after, hsplit, hbefore⟩ := List.find?_eq_some_iff_append.mp hfind
    right
    refine ⟨before, p, after, hsplit, fun p' hp' hclash => ?_, of_decide_eq_true hp⟩
    have hno := hbefore p' hp'
    rw [decide_eq_true hclash] at hno
    cases hno

/-- A mismatch comes from the first field that clashes and from nowhere else. Both directions rest
on the same split of the saved fields, since the fault of a loading is unique. -/
theorem Schema.fault_load_iff (ht : t.Apart)
    (hr : ∀ p ∈ s.fields, ∃ slot, r.get? p.ident.text = some slot ∧ p.Accepts slot)
    (m : Mismatch) :
    (t.code.load d (s.byField.flatMap (·.properties r))).fault = some m ↔
      ∃ before p after, s.byField = before ++ p :: after ∧ (∀ p' ∈ before, ¬ Clashes t r p') ∧
        p.Emits r ∧ ∃ q ∈ t.fields, q.Contradicts p ∧ m = t.mismatch q := by
  constructor
  · intro hfault
    rcases s.exists_first_clash t r with hno | ⟨before, p, after, hsplit, hno, hemits, q, hq, hpq⟩
    · have hok := load_ok ht
        (misfits_of_not_clashes hr (fun _ hp => mem_of_mem_byField hp) hno) d
      rw [hok.1] at hfault
      cases hfault
    · refine ⟨before, p, after, hsplit, hno, hemits, q, hq, hpq, ?_⟩
      rw [load_of_clash ht hr hsplit hno hemits hq hpq] at hfault
      exact (Option.some.inj hfault).symm
  · rintro ⟨before, p, after, hsplit, hno, hemits, q, hq, hpq, rfl⟩
    exact load_of_clash ht hr hsplit hno hemits hq hpq

/-- Whether loading fails needs no order: some field clashes. Only here the old type has to keep its
identifiers apart, so that every field of it is saved. -/
theorem Schema.load_fails_iff (hs : s.Apart) (ht : t.Apart)
    (hr : ∀ p ∈ s.fields, ∃ slot, r.get? p.ident.text = some slot ∧ p.Accepts slot) :
    (∃ m, (t.code.load d (s.byField.flatMap (·.properties r))).fault = some m) ↔
      ∃ p ∈ s.fields, Clashes t r p := by
  constructor
  · rintro ⟨m, hm⟩
    obtain ⟨before, p, after, hsplit, -, hemits, q, hq, hpq, -⟩ := (fault_load_iff ht hr m).mp hm
    have hp : p ∈ s.byField := hsplit ▸ List.mem_append_right _ List.mem_cons_self
    exact ⟨p, mem_of_mem_byField hp, hemits, q, hq, hpq⟩
  · rintro ⟨p, hp, hclash⟩
    rcases s.exists_first_clash t r with hno | ⟨before, p, after, hsplit, hno, hemits, q, hq, hpq⟩
    · exact absurd hclash (hno p ((hs.indexed.byField_perm hs.fields_nodup).mem_iff.mpr hp))
    · exact ⟨_, load_of_clash ht hr hsplit hno hemits hq hpq⟩

/-! ## Fields that receive data -/

/-- What a field holds that receives the data of a slot, when it held something before. -/
def Slot.received (multiple : Bool) (slot old : Slot) : Slot :=
  match multiple, slot with
  | false, .one v => .one v
  | true, .many vs => .many vs
  | true, .one v => .many [v]
  | false, .many vs =>
    match vs.getLast? with
    | some v => .one v
    | none => old
  | _, .other _ => old

/-- What loading leaves in a field, said by the two slots and not by a list of values. Of the four
pairs of multiplicities, single from single and many from many are the ordinary ones. -/
theorem StoredField.Accepts.loaded_eq_received {p q : StoredField} {slot : Slot}
    (h : p.Accepts slot) (old : Slot) :
    q.loaded slot.values old = Slot.received q.multiple slot old := by
  unfold StoredField.loaded
  obtain ⟨v, rfl, -, -⟩ | ⟨vs, rfl, -, -⟩ := h
  · cases q.multiple <;> rfl
  · cases q.multiple <;> rfl

/-- A field that nothing is loaded for keeps what it had, unless it is a sequence, which was emptied
before. -/
theorem StoredField.loaded_nil (q : StoredField) (old : Slot) :
    q.loaded [] old = if q.multiple then .many [] else old := by
  unfold loaded
  cases q.multiple <;> rfl

theorem Schema.valuesUnder_of_free {name : String} (hfree : ∀ p ∈ s.fields, p.name ≠ name) :
    valuesUnder name (s.byField.flatMap (·.properties r)) = [] := by
  refine valuesUnder_eq_nil fun x hx => ?_
  obtain ⟨p, hp, hxp⟩ := List.mem_flatMap.mp hx
  rw [StoredField.name_of_mem_properties hxp]
  exact hfree p (mem_of_mem_byField hp)

/-! ## Evolution -/

/-- **Loading what another type has saved.** It fails just if some field clashes: both types have
its stored name, for different kinds, and something is saved under it. The mismatch is that of the
first such field in the order of saving. Otherwise the fields of the new type receive what was saved
under their names; single fields whose names the old type lacks, and all that is not stored, are as
they were, and such sequences are empty. -/
theorem load_saved_other {key key' : String} {e e' : Entity} {i j : Implementation}
    (hs : Schema.derive key e = .ok s) (hi : s.implementation = .ok i) (hd : e.DistinctFields)
    (ht : Schema.derive key' e' = .ok t) (hj : t.implementation = .ok j) (hd' : e'.DistinctFields)
    (hr : e.Describes r) (hdr : e'.Describes d) :
    ∃ ps, i.save? r = some ps ∧
      (∀ p ∈ s.fields, (∃ x ∈ ps, x.name = p.name) ↔
        (p.multiple = true → r.get? p.ident.text ≠ some (.many []))) ∧
      ((∃ m, (j.load d ps).fault = some m) ↔ ∃ p ∈ s.fields, ∃ q ∈ t.fields,
        q.name = p.name ∧ q.kind ≠ p.kind ∧ ∃ x ∈ ps, x.name = p.name) ∧
      (∀ m, (j.load d ps).fault = some m ↔ ∃ before p after, s.byField = before ++ p :: after ∧
        (∀ p' ∈ before, ¬ Clashes t r p') ∧ p.Emits r ∧ ∃ q ∈ t.fields, q.Contradicts p ∧
          m = ⟨t.typeName, q.field, q.kind.typeName, q.multiple⟩) ∧
      ((j.load d ps).fault = none →
        (∀ p ∈ s.fields, ∀ q ∈ t.fields, p.name = q.name → ∃ slot old,
          r.get? p.ident.text = some slot ∧ p.Accepts slot ∧ d.get? q.ident.text = some old ∧
          (j.load d ps).record.get? q.ident.text =
            some (Slot.received q.multiple slot old)) ∧
        (∀ q ∈ t.fields, (∀ p ∈ s.fields, p.name ≠ q.name) →
          (j.load d ps).record.get? q.ident.text =
            if q.multiple then some (.many []) else d.get? q.ident.text) ∧
        ∀ name, (∀ f ∈ e'.exportedFields, f.ident.text ≠ name) →
          (j.load d ps).record.get? name = d.get? name) := by
  have hder' := Schema.derive_ok ht
  have hapart : s.Apart := (Schema.derive_ok hs).apart hd
  have hapart' : t.Apart := hder'.apart hd'
  have hslots := (Schema.derive_ok hs).describes_iff.mp hr
  have hslots' := hder'.describes_iff.mp hdr
  obtain ⟨-, rfl⟩ := Schema.implementation_eq_ok_iff.mp hi
  obtain ⟨-, rfl⟩ := Schema.implementation_eq_ok_iff.mp hj
  refine ⟨_, Schema.save?_code hslots, fun p hp => Schema.exists_saved_iff hapart hslots hp, ?_,
    Schema.fault_load_iff hapart' hslots, fun hnone => ?_⟩
  · -- that a field emits is said in the statement by a property under its name
    rw [Schema.load_fails_iff hapart hapart' hslots]
    refine exists_congr fun p => and_congr_right fun hp => ?_
    constructor
    · rintro ⟨hemits, q, hq, hname, hkind⟩
      exact ⟨q, hq, hname, hkind, (Schema.exists_saved_iff hapart hslots hp).mpr hemits⟩
    · rintro ⟨q, hq, hname, hkind, hsaved⟩
      exact ⟨(Schema.exists_saved_iff hapart hslots hp).mp hsaved, q, hq, hname, hkind⟩
  · -- a loading without a fault has met no clash, so its meaning is that of `load_ok`
    have hno : ∀ p ∈ s.byField, ¬ Clashes t r p := by
      intro p hp hclash
      obtain ⟨m, hm⟩ := (Schema.load_fails_iff (d := d) hapart hapart' hslots).mpr
        ⟨p, Schema.mem_of_mem_byField hp, hclash⟩
      rw [hnone] at hm
      cases hm
    obtain ⟨-, hfields, hframe⟩ := Schema.load_ok hapart'
      (Schema.misfits_of_not_clashes hslots (fun _ hp => Schema.mem_of_mem_byField hp) hno) d
    refine ⟨fun p hp q hq hname => ?_, fun q hq hfree => ?_, fun name hfree => ?_⟩
    · obtain ⟨slot, hslot, hacc⟩ := hslots p hp
      obtain ⟨old, hold, -⟩ := hslots' q hq
      refine ⟨slot, old, hslot, hacc, hold, ?_⟩
      rw [hfields q hq, hold, ← hname, Schema.valuesUnder_saved hapart hp hslot, Option.map_some,
        hacc.loaded_eq_received]
    · obtain ⟨old, hold, -⟩ := hslots' q hq
      rw [hfields q hq, hold, Schema.valuesUnder_of_free hfree, Option.map_some, q.loaded_nil]
      cases q.multiple <;> rfl
    · refine hframe name fun q hq => ?_
      obtain ⟨f, hf, hfq⟩ := hder'.exists_field hq
      rw [hfq.ident_eq]
      exact hfree f hf

namespace Sample

/-- A later form of the posts: titles are collected, and the tags are only counted. -/
def digest : Entity :=
  { typeName := "Digest"
    fields := [
      stored "heads" "tags" (.seq .string),
      stored "count" "title" .i64,
      stored "notes" "notes" (.seq .string)] }

def digestSchema : Schema :=
  .ofFields "Digest" "Digest"
    [⟨"heads", "tags", .string, true, false⟩, ⟨"count", "title", .int64, false, false⟩,
      ⟨"notes", "notes", .string, true, false⟩]

theorem derive_digest : Schema.derive "Digest" digest = .ok digestSchema := rfl

theorem distinctFields_digest : digest.DistinctFields := by
  unfold Entity.DistinctFields
  decide

theorem implementation_digest : digestSchema.implementation = .ok digestSchema.code := by
  have hindexed := (Schema.derive_ok derive_digest).indexed
  refine Schema.implementation_eq_ok_iff.mpr
    ⟨hindexed.readable_iff.mpr ⟨⟨⟨"Digest"⟩, rfl⟩, fun p hp => ?_⟩, rfl⟩
  have hp' : p ∈ [⟨"heads", "tags", .string, true, false⟩,
    ⟨"count", "title", .int64, false, false⟩, ⟨"notes", "notes", .string, true, false⟩] := hp
  simp only [List.mem_cons, List.not_mem_nil, or_false] at hp'
  rcases hp' with rfl | rfl | rfl
  · exact ⟨⟨"heads"⟩, rfl⟩
  · exact ⟨⟨"count"⟩, rfl⟩
  · exact ⟨⟨"notes"⟩, rfl⟩

/-- A digest as it was before. -/
def oldDigest : Record :=
  ⟨[("heads", .many []), ("count", .one (.int64 3)), ("notes", .many [.string "n"])]⟩

theorem describes_oldDigest : digest.Describes oldDigest :=
  Entity.describes_of_fits rfl (by decide) (by decide)

/-- A post without tags. -/
def untagged : Record :=
  ⟨[("title", .one (.string "Old")), ("tags", .many []), ("cache", .other (some "None"))]⟩

theorem describes_untagged : crossed.Describes untagged :=
  Entity.describes_of_fits rfl (by decide) (by decide)

/-- The tags are texts where a number is expected, so a digest loads what a post has saved only if
the post has none; then the title arrives as the one head, and the notes are gone. -/
theorem load_saved_other_crossed :
    (∃ ps, crossedSchema.code.save? post = some ps ∧
      ∃ m, (digestSchema.code.load oldDigest ps).fault = some m) ∧
    ∃ ps, crossedSchema.code.save? untagged = some ps ∧
      (digestSchema.code.load oldDigest ps).fault = none ∧
      (digestSchema.code.load oldDigest ps).record.get? "heads" = some (.many [.string "Old"]) ∧
      (digestSchema.code.load oldDigest ps).record.get? "count" = some (.one (.int64 3)) ∧
      (digestSchema.code.load oldDigest ps).record.get? "notes" = some (.many []) := by
  have htags : (⟨"tags", "title", .string, true, true⟩ : StoredField) ∈ crossedSchema.fields :=
    .tail _ (.head _)
  have htitle : (⟨"title", "tags", .string, false, false⟩ : StoredField) ∈ crossedSchema.fields :=
    .head _
  have hheads : (⟨"heads", "tags", .string, true, false⟩ : StoredField) ∈ digestSchema.fields :=
    .head _
  have hcount : (⟨"count", "title", .int64, false, false⟩ : StoredField) ∈ digestSchema.fields :=
    .tail _ (.head _)
  have hnotes : (⟨"notes", "notes", .string, true, false⟩ : StoredField) ∈ digestSchema.fields :=
    .tail _ (.tail _ (.head _))
  constructor
  · obtain ⟨ps, hsave, hemits, hfails, -, -⟩ := load_saved_other derive_crossed
      implementation_crossed distinctFields_crossed derive_digest implementation_digest
      distinctFields_digest describes_post describes_oldDigest
    refine ⟨ps, hsave, hfails.mpr ⟨_, htags, _, hcount, rfl, by decide, ?_⟩⟩
    exact (hemits _ htags).mpr fun _ => by decide
  · obtain ⟨ps, hsave, hemits, hfails, -, hok⟩ := load_saved_other derive_crossed
      implementation_crossed distinctFields_crossed derive_digest implementation_digest
      distinctFields_digest describes_untagged describes_oldDigest
    have hnone : (digestSchema.code.load oldDigest ps).fault = none := by
      rw [← Option.not_isSome_iff_eq_none, Option.isSome_iff_exists, hfails]
      rintro ⟨p, hp, q, hq, hname, hkind, hsaved⟩
      rcases List.mem_pair.mp hp with rfl | rfl
      · -- only the heads have the name of the title, and they are texts too
        simp only [digestSchema, Schema.fields_ofFields, List.mem_cons, List.not_mem_nil,
          or_false] at hq
        rcases hq with rfl | rfl | rfl
        · exact hkind rfl
        · exact absurd hname (by decide)
        · exact absurd hname (by decide)
      · exact (hemits _ htags).mp hsaved rfl (by decide)
    obtain ⟨hshared, hfree, -⟩ := hok hnone
    obtain ⟨slot, old, hslot, -, -, hgot⟩ := hshared _ htitle _ hheads rfl
    obtain ⟨slot', old', hslot', -, hold', hgot'⟩ := hshared _ htags _ hcount rfl
    cases hslot
    cases hslot'
    cases hold'
    refine ⟨ps, hsave, hnone, hgot, hgot', hfree _ hnotes fun p hp => ?_⟩
    rcases List.mem_pair.mp hp with rfl | rfl
    · decide
    · decide

end Sample

end StoreModel
