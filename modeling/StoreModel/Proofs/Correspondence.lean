import Mathlib.Data.List.Forall2
import StoreModel.Proofs.ByteOrder
import StoreModel.Proofs.Emission

/-!
# The parts of the code fit together

Resets, arms and savings are made in three passes over a schema, each over its own index of the
fields. Here each pass is said to serve the fields one by one: some listing of the fields, in a
given strict order of the bytes, stands beside the list that the pass has made, and what is beside a
field does for it what the schema says (`ArmFor`, `SavingFor`). The listings are permutations of the
fields, so nothing is left out and nothing comes twice, and an arm and a saving of one stored name
belong to one field.

Only the texts of the fields have to be apart for this. Fields whose texts differ may still read as
one identifier; then the code would use one field of the record for both, but it would do so in all
three parts alike.
-/

set_option autoImplicit false

namespace StoreModel

open StoreModel.Source StoreModel.Text

/-! ## Strict orders -/

/-- Fields sorted under a key that does not repeat increase strictly, in the order of the bytes.
Sorting gives an order with possible repetitions, and these are ruled out separately. -/
theorem pairwise_bytes_lt_mergeSort {key : StoredField → String} {l : List StoredField}
    (hd : (l.map key).Nodup) :
    (l.mergeSort fun p q => decide (key p ≤ key q)).Pairwise
      fun p q => bytes (key p) < bytes (key q) := by
  have hne : (l.mergeSort fun p q => decide (key p ≤ key q)).Pairwise
      fun p q => key p ≠ key q :=
    List.pairwise_map.mp (((List.mergeSort_perm _ _).map key).nodup_iff.mpr hd)
  refine ((pairwise_le_mergeSort key l).and hne).imp fun {p q} h => ?_
  exact lt_iff_bytes_lt.mp (lt_of_le_of_ne h.1 h.2)

/-! ## What a part does for a field -/

/-- An arm takes the properties of a field: those under its stored name, into the field, if they
have its kind, one after the other if the field is a sequence. -/
structure ArmFor (s : Schema) (p : StoredField) (a : Arm) : Prop where
  name : a.name = p.name
  field : Ident.read p.field = .ok a.field
  kind : a.kind = p.kind
  push : a.push = p.multiple
  mismatch : a.mismatch = ⟨s.typeName, p.field, p.kind.typeName, p.multiple⟩

/-- A saving gives the properties of a field: from the field, under its stored name and of its kind,
one for each element if it is a sequence, with the mark that the schema asks for. -/
structure SavingFor (p : StoredField) (v : Saving) : Prop where
  field : Ident.read p.field = .ok v.field
  name : v.name = p.name
  kind : v.kind = p.kind
  loop : v.loop = p.multiple
  noIndex : v.noIndex = p.noIndex

variable {s : Schema}

theorem Schema.Readable.read_field (h : s.Readable) (hs : s.Indexed) {p : StoredField}
    (hp : p ∈ s.fields) : Ident.read p.field = .ok p.ident := by
  obtain ⟨id, hid⟩ := h.fields hs hp
  rw [hid, StoredField.ident, Ident.ofText_eq hid]

theorem Schema.Readable.armFor (h : s.Readable) (hs : s.Indexed) {p : StoredField}
    (hp : p ∈ s.fields) : ArmFor s p (s.armOf p) :=
  ⟨rfl, h.read_field hs hp, rfl, rfl, rfl⟩

theorem Schema.Readable.savingFor (h : s.Readable) (hs : s.Indexed) {p : StoredField}
    (hp : p ∈ s.fields) : SavingFor p p.savingOf :=
  ⟨h.read_field hs hp, rfl, rfl, rfl, rfl⟩

theorem forall₂_map_right {α β : Type} {R : α → β → Prop} {f : α → β} {l : List α}
    (h : ∀ a ∈ l, R a (f a)) : List.Forall₂ R l (l.map f) := by
  rw [List.forall₂_map_right_iff]
  exact List.forall₂_same.mpr h

/-! ## The correspondence -/

/-- The parts of an implementation serve the fields of a schema. -/
structure Serves (i : Implementation) (s : Schema) : Prop where
  resets : ∃ ps, ps.Perm (s.fields.filter (·.multiple)) ∧
    ps.Pairwise (fun p q => bytes p.field < bytes q.field) ∧
    List.Forall₂ (fun p id => Ident.read p.field = .ok id) ps i.resets
  arms : ∃ ps, ps.Perm s.fields ∧ ps.Pairwise (fun p q => bytes p.name < bytes q.name) ∧
    List.Forall₂ (ArmFor s) ps i.arms
  savings : ∃ ps, ps.Perm s.fields ∧ ps.Pairwise (fun p q => bytes p.field < bytes q.field) ∧
    List.Forall₂ SavingFor ps i.savings

/-- The three passes, one by one. Each goes through an index of the schema, and what is known of it
is that it lists the fields and in which order; then an arm or a saving is made of each. -/
theorem Schema.Readable.serves (h : s.Readable) (hs : s.Indexed)
    (hd : (s.fields.map (·.field)).Nodup) : Serves s.code s where
  resets := by
    refine ⟨(s.fields.filter (·.multiple)).mergeSort fun p q => decide (p.field ≤ q.field),
      List.mergeSort_perm _ _, pairwise_bytes_lt_mergeSort ?_, ?_⟩
    · exact hd.sublist (List.filter_sublist.map _)
    · have hmap : s.code.resets = ((s.fields.filter (·.multiple)).mergeSort fun p q =>
          decide (p.field ≤ q.field)).map (·.ident) := by
        show s.sequenceFields.map Ident.ofText = _
        rw [hs.sequenceFields_eq hd, List.map_map]
        rfl
      rw [hmap]
      refine forall₂_map_right fun p hp => ?_
      exact h.read_field hs (List.mem_of_mem_filter (List.mem_mergeSort.mp hp))
  arms := by
    refine ⟨s.byName, hs.byName_perm, hs.byName_lt.imp lt_iff_bytes_lt.mp, ?_⟩
    exact forall₂_map_right fun p hp => h.armFor hs (mem_of_mem_byName hp)
  savings := by
    refine ⟨s.byField, hs.byField_perm hd, hs.byField_lt.imp lt_iff_bytes_lt.mp, ?_⟩
    exact forall₂_map_right fun p hp => h.savingFor hs (mem_of_mem_byField hp)

namespace Serves

variable {i : Implementation}

theorem exists_field_of_arm (h : Serves i s) {a : Arm} (ha : a ∈ i.arms) :
    ∃ p ∈ s.fields, ArmFor s p a := by
  obtain ⟨ps, hperm, -, hall⟩ := h.arms
  obtain ⟨p, hp, hpa⟩ := exists_left_of_forall₂ hall ha
  exact ⟨p, hperm.mem_iff.mp hp, hpa⟩

theorem exists_field_of_saving (h : Serves i s) {v : Saving} (hv : v ∈ i.savings) :
    ∃ p ∈ s.fields, SavingFor p v := by
  obtain ⟨ps, hperm, -, hall⟩ := h.savings
  obtain ⟨p, hp, hpv⟩ := exists_left_of_forall₂ hall hv
  exact ⟨p, hperm.mem_iff.mp hp, hpv⟩

/-- The arms come in strictly increasing order of their names. The names are those of the fields
beside them, so the order of the listing is the order of the arms. -/
theorem arms_pairwise (h : Serves i s) :
    i.arms.Pairwise fun a b => bytes a.name < bytes b.name := by
  obtain ⟨ps, -, hsorted, hall⟩ := h.arms
  have hnames : i.arms.map (·.name) = ps.map (·.name) :=
    map_eq_of_forall₂ hall fun _ _ ha => ha.name
  rw [← List.pairwise_map (f := fun a : Arm => a.name) (R := fun m n => bytes m < bytes n), hnames,
    List.pairwise_map]
  exact hsorted

theorem armNames_perm (h : Serves i s) : (i.arms.map (·.name)).Perm (s.fields.map (·.name)) := by
  obtain ⟨ps, hperm, -, hall⟩ := h.arms
  rw [map_eq_of_forall₂ hall fun _ _ ha => ha.name]
  exact hperm.map _

/-- Each stored name has one saving, although savings come in the order of the fields and not of the
names. -/
theorem savingNames_perm (h : Serves i s) :
    (i.savings.map (·.name)).Perm (s.fields.map (·.name)) := by
  obtain ⟨ps, hperm, -, hall⟩ := h.savings
  rw [map_eq_of_forall₂ hall fun _ _ hv => hv.name]
  exact hperm.map _

/-- An arm and a saving of one stored name are for one field and agree in all they share. They come
from two listings, and what joins them is that a name belongs to one field. -/
theorem agree (h : Serves i s) (hn : (s.fields.map (·.name)).Nodup) {a : Arm} (ha : a ∈ i.arms)
    {v : Saving} (hv : v ∈ i.savings) (hname : a.name = v.name) :
    ∃ p ∈ s.fields, ArmFor s p a ∧ SavingFor p v := by
  obtain ⟨p, hp, hpa⟩ := h.exists_field_of_arm ha
  obtain ⟨q, hq, hqv⟩ := h.exists_field_of_saving hv
  have hpq : p = q :=
    List.inj_on_of_nodup_map hn hp hq (hpa.name.symm.trans (hname.trans hqv.name))
  exact ⟨p, hp, hpa, hpq ▸ hqv⟩

end Serves

/-- **Loading and saving fit the schema and each other.** There is one reset for each sequence, one
arm for each stored name, in strictly increasing order of the names, and one saving for each field,
in strictly increasing order of the fields. The arm and the saving of one stored name use one field
and one kind; the arm pushes, and calls its mismatch one of an element, just if the saving goes
through the elements and marks them; and the saving keeps the store from indexing just if the schema
says so. -/
theorem load_save_correspond {key : String} {e : Entity} {i : Implementation}
    (hs : Schema.derive key e = .ok s) (hd : (s.fields.map (·.field)).Nodup)
    (hi : s.implementation = .ok i) :
    Serves i s ∧
    (i.arms.Pairwise fun a b => bytes a.name < bytes b.name) ∧
    (i.arms.map (·.name)).Perm (s.fields.map (·.name)) ∧
    (i.savings.map (·.name)).Perm (s.fields.map (·.name)) ∧
    ∀ a ∈ i.arms, ∀ v ∈ i.savings, a.name = v.name →
      a.field = v.field ∧ a.kind = v.kind ∧ a.push = v.loop ∧ a.mismatch.element = v.loop ∧
        ∃ p ∈ s.fields, p.name = v.name ∧ p.multiple = v.loop ∧ p.noIndex = v.noIndex := by
  have hindexed := (Schema.derive_ok hs).indexed
  obtain ⟨hread, rfl⟩ := Schema.implementation_eq_ok_iff.mp hi
  have hserves := hread.serves hindexed hd
  refine ⟨hserves, hserves.arms_pairwise, hserves.armNames_perm, hserves.savingNames_perm,
    fun a ha v hv hname => ?_⟩
  obtain ⟨p, hp, harm, hsaving⟩ := hserves.agree hindexed.nodup_map_name ha hv hname
  have hfield : a.field = v.field := Except.ok.inj (harm.field.symm.trans hsaving.field)
  refine ⟨hfield, harm.kind.trans hsaving.kind.symm, harm.push.trans hsaving.loop.symm, ?_,
    p, hp, hsaving.name.symm, hsaving.loop.symm, hsaving.noIndex.symm⟩
  rw [harm.mismatch, hsaving.loop]

namespace Sample

theorem byName_crossed : crossedSchema.byName = crossedSchema.fields := rfl

theorem byField_crossed : crossedSchema.byField =
    [⟨"tags", "title", .string, true, true⟩, ⟨"title", "tags", .string, false, false⟩] := rfl

/-- The posts that are stored crosswise have their arms and their savings in opposite orders. -/
theorem load_save_correspond_crossed :
    Serves crossedSchema.code crossedSchema ∧
      crossedSchema.code.arms.map (·.field) = [⟨"title"⟩, ⟨"tags"⟩] ∧
      crossedSchema.code.savings.map (·.field) = [⟨"tags"⟩, ⟨"title"⟩] := by
  refine ⟨(load_save_correspond derive_crossed (by decide) implementation_crossed).1, ?_, ?_⟩
  · show (crossedSchema.byName.map crossedSchema.armOf).map (·.field) = _
    rw [byName_crossed]
    rfl
  · show (crossedSchema.byField.map StoredField.savingOf).map (·.field) = _
    rw [byField_crossed]
    rfl

end Sample

end StoreModel
