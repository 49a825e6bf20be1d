import Mathlib.Algebra.BigOperators.Group.List.Basic
import Mathlib.Algebra.Ring.Nat
import StoreModel.Proofs.Correspondence
import StoreModel.Proofs.Evolution
import StoreModel.Proofs.Views

/-!
# What a saved record looks like

Saving puts the fields one behind the other in the order of their identifiers, but what it writes
carries their stored names, and the marks come from three places: from the tag, from the type that
must not be indexed, and from the field being a sequence. Here the list of properties is described
from the outside (`Schema.SavedFrom`): it is cut into one part for each field, and a part is read
off the slot of the field (`WrittenFor`).

The length and the runs of one name follow from the parts alone. The length is first counted along
the parts, and only then carried over to the order of declaration, for which a permutation is
enough; the runs need that no two fields have one stored name.
-/

set_option autoImplicit false

namespace StoreModel

open StoreModel.Text

/-- The part of a saved record that belongs to a field. -/
inductive WrittenFor (r : Record) (p : StoredField) : List Property → Prop where
  | single {v : Value} (slot : r.get? p.ident.text = some (.one v)) (multiple : p.multiple = false)
    (kind : v.kind = p.kind) :
    WrittenFor r p [{ name := p.name, value := v, multiple := p.multiple, noIndex := p.noIndex }]
  | sequence {vs : List Value} (slot : r.get? p.ident.text = some (.many vs))
    (multiple : p.multiple = true) (kinds : ∀ v ∈ vs, v.kind = p.kind) :
    WrittenFor r p <| vs.map fun v =>
      { name := p.name, value := v, multiple := p.multiple, noIndex := p.noIndex }

/-- The number of elements of the sequence that a field holds. -/
def Record.lengthOf (r : Record) (field : String) : Nat :=
  match r.get? field with
  | some (.many vs) => vs.length
  | _ => 0

/-- The properties of a name stand together. -/
def Contiguous (n : String) (ps : List Property) : Prop :=
  ∃ before run after, ps = before ++ run ++ after ∧ (∀ x ∈ run, x.name = n) ∧
    ∀ x ∈ before ++ after, x.name ≠ n

/-- The properties of a record, as the fields of its schema ask for them. -/
structure Schema.SavedFrom (s : Schema) (r : Record) (ps : List Property) : Prop where
  parts : ∃ order parts, ps = List.flatten parts ∧ order.Perm s.fields ∧
    order.Pairwise (fun p q => bytes p.field < bytes q.field) ∧
    List.Forall₂ (WrittenFor r) order parts
  length : ps.length = (s.fields.filter (!·.multiple)).length +
    ((s.fields.filter (·.multiple)).map fun p => r.lengthOf p.ident.text).sum
  contiguous : ∀ n, Contiguous n ps
  bytes_noIndex : ∀ x ∈ ps, x.value.kind = .bytes → x.noIndex = true

variable {s : Schema} {r : Record}

/-! ## One field -/

namespace StoredField.Accepts

variable {p : StoredField} {slot : Slot}

/-- What is saved for a field is the part that the field asks for, single or one for each element.
-/
theorem writtenFor (h : p.Accepts slot) (hslot : r.get? p.ident.text = some slot) :
    WrittenFor r p (p.properties r) := by
  rw [properties_of_get? hslot]
  obtain ⟨v, rfl, hm, hk⟩ | ⟨vs, rfl, hm, hks⟩ := h
  · exact .single hslot hm hk
  · exact .sequence hslot hm hks

theorem length_properties (h : p.Accepts slot) (hslot : r.get? p.ident.text = some slot) :
    (p.properties r).length = if p.multiple then r.lengthOf p.ident.text else 1 := by
  rw [properties_of_get? hslot, List.length_map]
  obtain ⟨v, rfl, hm, -⟩ | ⟨vs, rfl, hm, -⟩ := h
  · rw [hm]
    rfl
  · rw [hm, if_pos rfl, Record.lengthOf, hslot]
    rfl

end StoredField.Accepts

/-! ## The parts together -/

/-- Fields count one each, but a sequence counts its elements. -/
theorem sum_counts (count : StoredField → Nat) (l : List StoredField) :
    (l.map fun p => if p.multiple then count p else 1).sum =
      (l.filter (!·.multiple)).length + ((l.filter (·.multiple)).map count).sum := by
  induction l with
  | nil => rfl
  | cons p l ih =>
    rw [List.map_cons, List.sum_cons, ih]
    cases hm : p.multiple with
    | true =>
      rw [List.filter_cons_of_neg (by simp [hm]), List.filter_cons_of_pos (by simp [hm]),
        List.map_cons, List.sum_cons, if_pos rfl]
      omega
    | false =>
      rw [List.filter_cons_of_pos (by simp [hm]), List.filter_cons_of_neg (by simp [hm]),
        List.length_cons, if_neg (by simp)]
      omega

theorem length_flatMap_properties {l : List StoredField}
    (h : ∀ p ∈ l, ∃ slot, r.get? p.ident.text = some slot ∧ p.Accepts slot) :
    (l.flatMap (·.properties r)).length =
      (l.filter (!·.multiple)).length +
        ((l.filter (·.multiple)).map fun p => r.lengthOf p.ident.text).sum := by
  rw [List.length_flatMap, ← sum_counts]
  refine congrArg List.sum (List.map_congr_left fun p hp => ?_)
  obtain ⟨slot, hslot, hacc⟩ := h p hp
  exact hacc.length_properties hslot

/-- The properties of one name are those of one field, and these are saved in one go. A name that no
field has is the run of no properties. -/
theorem contiguous_flatMap_properties {l : List StoredField} (hn : (l.map (·.name)).Nodup)
    (n : String) : Contiguous n (l.flatMap (·.properties r)) := by
  by_cases hmem : n ∈ l.map (·.name)
  · obtain ⟨p, hp, rfl⟩ := List.mem_map.mp hmem
    obtain ⟨before, after, rfl⟩ := List.append_of_mem hp
    refine ⟨before.flatMap (·.properties r), p.properties r, after.flatMap (·.properties r),
      by simp, fun x => StoredField.name_of_mem_properties, fun x hx hname => ?_⟩
    -- the other fields have other names
    rw [← List.flatMap_append] at hx
    obtain ⟨q, hq, hxq⟩ := List.mem_flatMap.mp hx
    rw [StoredField.name_of_mem_properties hxq] at hname
    exact ne_of_nodup_map_middle hn q hq hname
  · refine ⟨l.flatMap (·.properties r), [], [], by simp, by simp, fun x hx hname => hmem ?_⟩
    rw [List.append_nil] at hx
    obtain ⟨p, hp, hxp⟩ := List.mem_flatMap.mp hx
    exact List.mem_map.mpr ⟨p, hp, (StoredField.name_of_mem_properties hxp).symm.trans hname⟩

theorem Schema.WellFormed.savedFrom (h : s.WellFormed) (hs : s.Indexed)
    (hd : (s.fields.map (·.field)).Nodup)
    (hr : ∀ p ∈ s.fields, ∃ slot, r.get? p.ident.text = some slot ∧ p.Accepts slot) :
    s.SavedFrom r (s.byField.flatMap (·.properties r)) := by
  have hperm := hs.byField_perm hd
  have hr' : ∀ p ∈ s.byField, ∃ slot, r.get? p.ident.text = some slot ∧ p.Accepts slot :=
    fun p hp => hr p (hperm.mem_iff.mp hp)
  refine ⟨⟨s.byField, s.byField.map (·.properties r), List.flatMap_def, hperm, h.byField_lt, ?_⟩,
    ?_, contiguous_flatMap_properties ((hperm.map _).nodup_iff.mpr h.names), fun x hx hkind => ?_⟩
  · refine forall₂_map_right fun p hp => ?_
    obtain ⟨slot, hslot, hacc⟩ := hr' p hp
    exact hacc.writtenFor hslot
  · rw [length_flatMap_properties hr', (hperm.filter _).length_eq,
      ((hperm.filter _).map _).sum_eq]
  · obtain ⟨p, hp, hxp⟩ := List.mem_flatMap.mp hx
    obtain ⟨slot, hslot, hacc⟩ := hr' p hp
    rw [StoredField.properties_of_get? hslot] at hxp
    obtain ⟨v, hv, rfl⟩ := List.mem_map.mp hxp
    exact h.bytes_noIndex p (hperm.mem_iff.mp hp) ((hacc.kind_eq hv).symm.trans hkind)

/-- **The shape of what is saved.** A record of the type is saved, and its properties are the parts
of the fields, in strictly increasing order of the identifiers: one property for a single value, one
for each element of a sequence, all with the stored name, the kind and the marks of the field. So
they are as many as there are single fields and elements, those of one name stand together, and
bytes are never indexed. -/
theorem save_shape {key : String} {e : Entity} {i : Implementation}
    (hs : Schema.derive key e = .ok s) (hi : s.implementation = .ok i)
    (hd : (s.fields.map (·.field)).Nodup) (hr : e.Describes r) :
    ∃ ps, i.save? r = some ps ∧ s.SavedFrom r ps := by
  obtain ⟨-, rfl⟩ := Schema.implementation_eq_ok_iff.mp hi
  have hfrom := Schema.derive_ok hs
  have hslots := hfrom.describes_iff.mp hr
  exact ⟨_, Schema.save?_code hslots,
    (Schema.derive_wellFormed hs).savedFrom hfrom.indexed hd hslots⟩

namespace Sample

/-- A post has one title, and this one has one tag. -/
theorem save_shape_post :
    ∃ ps, crossedSchema.code.save? post = some ps ∧ crossedSchema.SavedFrom post ps ∧
      ps.length = 2 := by
  obtain ⟨ps, hsave, h⟩ :=
    save_shape derive_crossed implementation_crossed (by decide) describes_post
  exact ⟨ps, hsave, h, h.length.trans (by decide)⟩

end Sample

end StoreModel
