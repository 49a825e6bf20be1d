import StoreModel.Proofs.Loading
import StoreModel.Record.Saving

/-!
# Saving and loading back

What a record saves, any record of the same type can load, and it then agrees with the first one in
every stored field. Two name spaces cross on the way, since a field may be stored under the
identifier of another one: saving goes by identifiers, loading by stored names. Both are kept apart
(`Schema.Apart`), so the values under a stored name are those of the one field that has it, however
the properties of the others stand around them.

Nothing is asked of the record that is loaded into but that it is of the type, and loading leaves a
record of the type behind in every case (`Schema.DerivedFrom.describes_load`). So the record may be
one that an earlier loading has left half done.
-/

set_option autoImplicit false

namespace StoreModel

open StoreModel.Source

variable {s : Schema}

/-! ## What saving gives

The code that saves a record goes through the fields in the order of their identifiers and may give
up at each of them. For a record of the entity's type it never does: the properties are those of the
fields, one field after the other, and the properties of a field are the values of its slot under
the stored name and with the marks of the field. -/

def StoredField.property (q : StoredField) (v : Value) : Property :=
  { name := q.name, value := v, multiple := q.multiple, noIndex := q.noIndex }

def StoredField.properties (q : StoredField) (r : Record) : List Property :=
  ((r.get? q.ident.text).elim [] Slot.values).map q.property

/-- A slot that holds what is expected saves its values. -/
theorem StoredField.Accepts.properties?_eq {q : StoredField} {slot : Slot} (h : q.Accepts slot) :
    q.savingOf.properties? slot = some (slot.values.map q.property) := by
  obtain ⟨v, rfl, hm, hk⟩ | ⟨vs, rfl, hm, hk⟩ := h
  · have hcond : (!q.savingOf.loop && v.kind == q.savingOf.kind) = true := by
      simp [savingOf, hm, hk]
    exact if_pos hcond
  · have hcond : (q.savingOf.loop && vs.all (·.kind == q.savingOf.kind)) = true := by
      simpa [savingOf, hm] using hk
    exact if_pos hcond

theorem StoredField.properties_of_get? {q : StoredField} {r : Record} {slot : Slot}
    (h : r.get? q.ident.text = some slot) : q.properties r = slot.values.map q.property := by
  unfold properties
  rw [h]
  rfl

theorem saveFields?_eq {r : Record} {l : List StoredField}
    (h : ∀ q ∈ l, ∃ slot, r.get? q.ident.text = some slot ∧ q.Accepts slot) :
    saveFields? r (l.map StoredField.savingOf) = some (l.flatMap (·.properties r)) := by
  induction l with
  | nil => rfl
  | cons q l ih =>
    obtain ⟨slot, hslot, hacc⟩ := h q List.mem_cons_self
    have hrest := ih fun q' hq' => h q' (List.mem_cons_of_mem _ hq')
    have hget : r.get? q.savingOf.field.text = some slot := hslot
    rw [List.map_cons, saveFields?, hget, Option.bind_eq_bind, Option.bind_some,
      hacc.properties?_eq, hrest, List.flatMap_cons, StoredField.properties_of_get? hslot]
    rfl

/-- A record of the entity's type is saved, field by field in the order of the identifiers. -/
theorem Schema.save?_code {s : Schema} {r : Record}
    (h : ∀ q ∈ s.fields, ∃ slot, r.get? q.ident.text = some slot ∧ q.Accepts slot) :
    s.code.save? r = some (s.byField.flatMap (·.properties r)) :=
  saveFields?_eq fun q hq => h q (mem_of_mem_byField hq)

/-! ## Loading keeps the type -/

theorem StoredField.Accepts.loaded {q : StoredField} {old : Slot} (h : q.Accepts old)
    {vs : List Value} (hvs : ∀ v ∈ vs, v.kind = q.kind) : q.Accepts (q.loaded vs old) := by
  unfold StoredField.loaded
  cases hm : q.multiple with
  | true => exact Or.inr ⟨vs, rfl, hm, hvs⟩
  | false =>
    rw [if_neg (by simp)]
    cases hlast : vs.getLast? with
    | none => exact h
    | some v => exact Or.inl ⟨v, rfl, hm, hvs v (List.mem_of_getLast? hlast)⟩

theorem Schema.kind_eq_of_mem_valuesUnder {ps : List Property} (h : ∀ p ∈ ps, s.misfits p = false)
    {q : StoredField} (hq : q ∈ s.fields) {v : Value} (hv : v ∈ valuesUnder q.name ps) :
    v.kind = q.kind := by
  obtain ⟨p, hp, hname, rfl⟩ := mem_valuesUnder.mp hv
  exact (misfits_eq_false_iff.mp (h p hp) q hq hname.symm).symm

/-- Loading leaves a record of the entity's type behind, also where it fails. -/
theorem Schema.DerivedFrom.describes_load {key : String} {e : Entity} (h : s.DerivedFrom key e)
    (hs : s.Apart) {r : Record} (hr : e.Describes r) (ps : List Property) :
    e.Describes (s.code.load r ps).record := by
  -- a failed loading leaves what the properties before the misfit have left
  have hfit : ∀ qs : List Property, (∀ p ∈ qs, s.misfits p = false) →
      e.Describes (s.code.load r qs).record := by
    intro qs hqs
    refine h.describes_iff.mpr fun q hq => ?_
    obtain ⟨old, hold, hacc⟩ := h.describes_iff.mp hr q hq
    refine ⟨q.loaded (valuesUnder q.name qs) old, ?_,
      hacc.loaded fun v hv => kind_eq_of_mem_valuesUnder hqs hq hv⟩
    rw [(load_ok hs hqs r).2.1 q hq, hold]
    rfl
  cases hidx : ps.findIdx? s.misfits with
  | none => exact hfit ps (List.findIdx?_eq_none_iff.mp hidx)
  | some n =>
    obtain ⟨p, -, hmis, hsplit, hbefore⟩ := exists_of_findIdx? hidx
    obtain ⟨q, hq, hname, hkind⟩ := misfits_eq_true_iff.mp hmis
    have hload : (s.code.load r ps).record = (s.code.load r (ps.take n)).record := by
      rw [congrArg (s.code.load r) hsplit, load_of_misfit hs hbefore hq hname hkind]
    rw [hload]
    exact hfit _ hbefore

/-! ## What was saved -/

/-- The values that are saved under the name of a field are those of its slot. -/
theorem Schema.valuesUnder_saved (hs : s.Apart) {r : Record} {q : StoredField} (hq : q ∈ s.fields)
    {slot : Slot} (hslot : r.get? q.ident.text = some slot) :
    valuesUnder q.name (s.byField.flatMap (·.properties r)) = slot.values := by
  have hperm := hs.indexed.byField_perm hs.fields_nodup
  have hnames : (s.byField.map (·.name)).Nodup := (hperm.map _).nodup_iff.mpr hs.names
  have hname : ∀ p ∈ s.byField, ∀ x ∈ p.properties r, x.name = p.name := by
    intro p _ x hx
    obtain ⟨v, -, rfl⟩ := List.mem_map.mp hx
    rfl
  unfold valuesUnder
  -- saving goes by identifiers; of all it gives, the stored name selects the part of one field
  rw [filter_flatMap_key hnames hname (hperm.mem_iff.mpr hq), StoredField.properties_of_get? hslot,
    List.map_map]
  exact List.map_id slot.values

theorem Schema.misfits_saved (hs : s.Apart) {r : Record}
    (hr : ∀ q ∈ s.fields, ∃ slot, r.get? q.ident.text = some slot ∧ q.Accepts slot) :
    ∀ p ∈ s.byField.flatMap (·.properties r), s.misfits p = false := by
  intro p hp
  obtain ⟨q, hq, hpq⟩ := List.mem_flatMap.mp hp
  have hqf := mem_of_mem_byField hq
  obtain ⟨slot, hslot, hacc⟩ := hr q hqf
  rw [StoredField.properties_of_get? hslot] at hpq
  obtain ⟨v, hv, rfl⟩ := List.mem_map.mp hpq
  refine misfits_eq_false_iff.mpr fun q' hq' hname => ?_
  rw [hs.eq_of_name_eq hq' hqf hname]
  exact (hacc.kind_eq hv).symm

/-- A field that loads the values of a slot that it accepts holds that slot. -/
theorem StoredField.Accepts.loaded_values {q : StoredField} {slot : Slot} (h : q.Accepts slot)
    (old : Slot) : q.loaded slot.values old = slot := by
  unfold StoredField.loaded
  obtain ⟨v, rfl, hm, -⟩ | ⟨vs, rfl, hm, -⟩ := h
  · rw [if_neg (by rw [hm]; simp)]
    rfl
  · rw [if_pos hm]
    rfl

/-! ## The round trip -/

/-- **Saved records load back, from any state.** Saving a record of the type succeeds, loading what
it gives into any record of the type succeeds, and then every exported field is as in the record
that was saved, while everything else is as it was. A record that was loaded into before, with
whatever success, is again of the type. -/
theorem load_saved {key : String} {e : Entity} {i : Implementation}
    (hs : Schema.derive key e = .ok s) (hi : s.implementation = .ok i) (hd : e.DistinctFields)
    {r d : Record} (hr : e.Describes r) (ht : e.Describes d) :
    (∃ ps, i.save? r = some ps ∧ (i.load d ps).fault = none ∧
      (∀ f ∈ e.exportedFields,
        (i.load d ps).record.get? f.ident.text = r.get? f.ident.text) ∧
      ∀ name, (∀ f ∈ e.exportedFields, f.ident.text ≠ name) →
        (i.load d ps).record.get? name = d.get? name) ∧
      ∀ qs, e.Describes (i.load d qs).record := by
  have hder := Schema.derive_ok hs
  have hapart : s.Apart := hder.apart hd
  obtain ⟨-, rfl⟩ := Schema.implementation_eq_ok_iff.mp hi
  have hslots := hder.describes_iff.mp hr
  obtain ⟨hfault, hfields, hframe⟩ :=
    Schema.load_ok hapart (Schema.misfits_saved hapart hslots) d
  refine ⟨⟨_, Schema.save?_code hslots, hfault, fun f hf => ?_, fun name hfree => ?_⟩,
    hder.describes_load hapart ht⟩
  · -- the two name spaces cross here: saved from the slot, loaded by the name, into the same slot
    obtain ⟨p, hp, hfp⟩ := hder.exists_stored hf
    obtain ⟨slot, hslot, hacc⟩ := hslots p hp
    obtain ⟨old, hold, -⟩ := hder.describes_iff.mp ht p hp
    rw [← hfp.ident_eq, hfields p hp, hold, hslot, Schema.valuesUnder_saved hapart hp hslot,
      Option.map_some, hacc.loaded_values]
  · refine hframe name fun p hp => ?_
    obtain ⟨f, hf, hfp⟩ := hder.exists_field hp
    rw [hfp.ident_eq]
    exact hfree f hf

namespace Sample

theorem describes_post : crossed.Describes post :=
  Entity.describes_of_fits rfl (by decide) (by decide)

/-- A loading that went wrong has left two tags behind; loading what was saved puts the old one in
their place. -/
theorem load_saved_crossed :
    ∃ ps, crossedSchema.code.save? post = some ps ∧
      (crossedSchema.code.load
        (crossedSchema.code.load post (storedTags ++ [wrongTitle])).record ps).fault = none ∧
      (crossedSchema.code.load
        (crossedSchema.code.load post (storedTags ++ [wrongTitle])).record ps).record.get? "tags" =
          some (.many [.string "x"]) := by
  have hleft :
      crossed.Describes (crossedSchema.code.load post (storedTags ++ [wrongTitle])).record :=
    (load_saved derive_crossed implementation_crossed distinctFields_crossed describes_post
      describes_post).2 _
  obtain ⟨⟨ps, hsave, hfault, hfields, -⟩, -⟩ := load_saved derive_crossed implementation_crossed
    distinctFields_crossed describes_post hleft
  exact ⟨ps, hsave, hfault, hfields _ (.tail _ (.head _))⟩

end Sample

end StoreModel
