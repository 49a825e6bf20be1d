import Mathlib.Data.List.Forall2
import Mathlib.Data.List.Nodup
import StoreModel.Proofs.Positions
import StoreModel.Proofs.Results
import StoreModel.Record.Saving
import StoreModel.Source.Member

/-!
# What a derived schema knows

`Schema.derive` takes the exported fields one by one and looks back at the names it has seen. Said
once for all that follows, a schema that comes out of it has the entity's exported fields in their
order, each with what its tag and its shape say (`Field.StoredAs`), and maps that agree with them
(`Schema.Indexed`), so that no stored name comes twice. Everything that is proved of loading and
saving starts from these facts and never from the derivation itself.

The second half says what it is to be a record of an entity's type. A slot is found under the
*identifier* of a field and not under the text that describes it: the text may have gaps and
comments around the word, and generated code sees the word alone.
-/

set_option autoImplicit false

namespace StoreModel

open Std (ExtTreeMap)
open StoreModel.Source

/-! ## Fields -/

/-- How a field is stored that has a readable tag and a shape that can be stored. -/
def Field.StoredAs (f : Field) (p : StoredField) : Prop :=
  ∃ a m, Tag.read (f.tag.getD "") = .ok a ∧ f.shape.mapping = .ok m ∧
    p = { field := f.name
          name := a.name
          kind := m.kind
          multiple := m.multiple
          noIndex := a.noIndex || m.forcesNoIndex }

theorem Field.StoredAs.field_eq {f : Field} {p : StoredField} (h : f.StoredAs p) :
    p.field = f.name := by
  obtain ⟨a, m, -, -, rfl⟩ := h
  rfl

/-- A field that is taken has a tag that can be read, a name that is new and a shape that can be
stored, in the order in which they are looked at. -/
theorem Schema.deriveField_ok {t : String} {seen : ExtTreeMap String String} {f : Field}
    {p : StoredField} (h : deriveField t seen f = .ok p) :
    f.StoredAs p ∧ seen[p.name]? = none := by
  unfold deriveField at h
  split at h
  · cases h
  · cases hread : Tag.read (f.tag.getD "") with
    | error err => cases err <;> simp only [hread, reduceCtorEq] at h
    | ok a =>
      cases hseen : seen[a.name]? with
      | some previous => simp only [hread, hseen, reduceCtorEq] at h
      | none =>
        cases hm : f.shape.mapping with
        | error err => cases err <;> simp only [hread, hseen, hm, reduceCtorEq] at h
        | ok m =>
          simp only [hread, hseen, hm, Except.ok.injEq] at h
          subst h
          exact ⟨⟨a, m, hread, hm, rfl⟩, hseen⟩

/-- Taking fields adds what each is stored as, and keeps the draft coherent: the name of a field
that is taken has been looked up among those before. -/
theorem Draft.Coherent.foldlM_take {t : String} {d d' : Draft} {fs : List Field} (h : d.Coherent)
    (hrun : fs.foldlM (Draft.take t) d = .ok d') :
    d'.Coherent ∧ ∃ ps, List.Forall₂ Field.StoredAs fs ps ∧ d' = ps.foldl Draft.add d := by
  induction fs generalizing d with
  | nil =>
    cases hrun
    exact ⟨h, [], .nil, rfl⟩
  | cons f fs ih =>
    rw [List.foldlM_cons] at hrun
    obtain ⟨d₁, htake, hrun⟩ := bind_eq_ok_iff.mp hrun
    obtain ⟨p, hp, rfl⟩ := map_eq_ok_iff.mp htake
    obtain ⟨hstored, hnew⟩ := Schema.deriveField_ok hp
    obtain ⟨hd', ps, hps, rfl⟩ := ih (h.add hnew) hrun
    exact ⟨hd', p :: ps, .cons hstored hps, rfl⟩

/-! ## Schemas -/

section Forall₂

variable {α β γ : Type} {R : α → β → Prop} {l : List α} {m : List β}

theorem map_eq_of_forall₂ {f : α → γ} {g : β → γ} (h : List.Forall₂ R l m)
    (hR : ∀ a b, R a b → g b = f a) : m.map g = l.map f := by
  induction h with
  | nil => rfl
  | cons hab _ ih => rw [List.map_cons, List.map_cons, hR _ _ hab, ih]

theorem exists_right_of_forall₂ (h : List.Forall₂ R l m) {a : α} (ha : a ∈ l) :
    ∃ b ∈ m, R a b := by
  induction h with
  | nil => exact absurd ha (by simp)
  | cons hab _ ih =>
    rcases List.mem_cons.mp ha with rfl | hr
    · exact ⟨_, List.mem_cons_self, hab⟩
    · obtain ⟨b, hb, hab'⟩ := ih hr
      exact ⟨b, List.mem_cons_of_mem _ hb, hab'⟩

theorem exists_left_of_forall₂ (h : List.Forall₂ R l m) {b : β} (hb : b ∈ m) :
    ∃ a ∈ l, R a b := exists_right_of_forall₂ h.flip hb

/-- What stands beside a list with an element in it is cut at that element too. The induction is on
what stands before the element, which is all that has to be passed. -/
theorem exists_split_of_forall₂ {before after : List α} {a : α}
    (h : List.Forall₂ R (before ++ a :: after) m) :
    ∃ m₁ b m₂, m = m₁ ++ b :: m₂ ∧ List.Forall₂ R before m₁ ∧ R a b ∧ List.Forall₂ R after m₂ := by
  induction before generalizing m with
  | nil =>
    obtain ⟨b, m₂, hab, hafter, rfl⟩ := List.forall₂_cons_left_iff.mp h
    exact ⟨[], b, m₂, rfl, .nil, hab, hafter⟩
  | cons x before ih =>
    obtain ⟨y, m', hxy, hm', rfl⟩ := List.forall₂_cons_left_iff.mp h
    obtain ⟨m₁, b, m₂, rfl, hbefore, hab, hafter⟩ := ih hm'
    exact ⟨y :: m₁, b, m₂, rfl, .cons hxy hbefore, hab, hafter⟩

end Forall₂

/-- If no key repeats, the elements before and after one have other keys than it. -/
theorem ne_of_nodup_map_middle {α β : Type} {f : α → β} {before after : List α} {a : α}
    (h : ((before ++ a :: after).map f).Nodup) : ∀ x ∈ before ++ after, f x ≠ f a := by
  have hother : f a ∉ (before ++ after).map f :=
    (List.nodup_cons.mp ((List.perm_middle.map f).nodup_iff.mp h)).1
  exact fun x hx he => hother (List.mem_map.mpr ⟨x, hx, he⟩)

/-- What a schema has from the entity it was derived from. -/
structure Schema.DerivedFrom (s : Schema) (key : String) (e : Entity) : Prop where
  key_eq : s.key = key
  typeName_eq : s.typeName = e.typeName
  /-- The exported fields in the order of their declaration. -/
  fields : List.Forall₂ Field.StoredAs e.exportedFields s.fields
  /-- The maps agree with the fields. -/
  indexed : s.Indexed

/-- A schema has what `DerivedFrom` says. The run over the fields gives a coherent draft and what
each field is stored as, and finishing keeps both. -/
theorem Schema.derive_ok {key : String} {e : Entity} {s : Schema} (h : derive key e = .ok s) :
    s.DerivedFrom key e := by
  obtain ⟨d, hrun, rfl⟩ := map_eq_ok_iff.mp h
  obtain ⟨hd, ps, hps, rfl⟩ := Draft.Coherent.empty.foldlM_take hrun
  refine ⟨rfl, rfl, ?_, hd.finish key e.typeName⟩
  show List.Forall₂ Field.StoredAs e.exportedFields (ps.foldl Draft.add {}).fields
  rw [Draft.fields_foldl_add]
  exact hps

namespace Schema.DerivedFrom

variable {s : Schema} {key : String} {e : Entity}

theorem names (h : s.DerivedFrom key e) : (s.fields.map (·.name)).Nodup :=
  h.indexed.nodup_map_name

theorem exists_field (h : s.DerivedFrom key e) {p : StoredField} (hp : p ∈ s.fields) :
    ∃ f ∈ e.exportedFields, f.StoredAs p := exists_left_of_forall₂ h.fields hp

theorem exists_stored (h : s.DerivedFrom key e) {f : Field} (hf : f ∈ e.exportedFields) :
    ∃ p ∈ s.fields, f.StoredAs p := exists_right_of_forall₂ h.fields hf

theorem map_field (h : s.DerivedFrom key e) :
    s.fields.map (·.field) = e.exportedFields.map (·.name) :=
  map_eq_of_forall₂ h.fields fun _ _ hp => hp.field_eq

end Schema.DerivedFrom

/-! ## Records of an entity's type -/

/-- The identifier that a text holds. A text that holds none stands for itself. -/
def Source.Ident.ofText (s : String) : Ident :=
  match read s with
  | .ok id => id
  | .error _ => ⟨s⟩

theorem Source.Ident.ofText_eq {s : String} {id : Ident} (h : Ident.read s = .ok id) :
    ofText s = id := by
  unfold ofText
  rw [h]

def Field.ident (f : Field) : Ident := Ident.ofText f.name

/-- The identifier of a field in generated code. -/
def StoredField.ident (p : StoredField) : Ident := Ident.ofText p.field

theorem Field.StoredAs.ident_eq {f : Field} {p : StoredField} (h : f.StoredAs p) :
    p.ident = f.ident := by
  unfold StoredField.ident Field.ident
  rw [h.field_eq]

/-- No two exported fields have one identifier, as it is with the fields of every structure. -/
def Entity.DistinctFields (e : Entity) : Prop := (e.exportedFields.map (·.ident)).Nodup

/-- A record has the exported fields of an entity: a slot under the identifier of each, which holds
what the shape of the field asks for. Nothing is asked of slots that are never stored. -/
def Entity.Describes (e : Entity) (r : Record) : Prop :=
  ∀ f ∈ e.exportedFields, ∃ slot, r.get? f.ident.text = some slot ∧ slot.fits f.shape = true

/-- The slots of fields side by side with the fields: the one of a name is the one of its field.
Slots are looked up by name from the front, so names must not repeat, or an earlier slot would be
found. -/
theorem exists_slot_of_zip {slots : List (String × Slot)} {fs : List Field}
    (hnames : slots.map (·.1) = fs.map (·.name)) (hd : (fs.map (·.name)).Nodup) {f : Field}
    (hf : f ∈ fs) : ∃ slot, ((f.name, slot), f) ∈ slots.zip fs ∧
      (slots.find? (·.1 == f.name)).map (·.2) = some slot := by
  induction slots generalizing fs with
  | nil =>
    rw [List.map_nil] at hnames
    rw [List.map_eq_nil_iff.mp hnames.symm] at hf
    exact absurd hf (by simp)
  | cons e r ih =>
    cases fs with
    | nil => exact absurd hf (by simp)
    | cons g gs =>
      rw [List.map_cons, List.map_cons, List.cons.injEq] at hnames
      rw [List.map_cons, List.nodup_cons] at hd
      rcases List.mem_cons.mp hf with rfl | hgs
      · refine ⟨e.2, ?_, ?_⟩
        · rw [List.zip_cons_cons, ← hnames.1]
          exact List.mem_cons_self
        · rw [List.find?_cons_of_pos (by simpa using hnames.1)]
          rfl
      · obtain ⟨slot, hzip, hfind⟩ := ih hnames.2 hd.2 hgs
        refine ⟨slot, ?_, ?_⟩
        · rw [List.zip_cons_cons]
          exact List.mem_cons_of_mem _ hzip
        · rw [List.find?_cons_of_neg, hfind]
          intro he
          -- the first slot is that of another field, and names do not repeat
          have hfg : f.name = g.name := by
            rw [← hnames.1]
            exact (by simpa using he : e.1 = f.name).symm
          exact hd.1 (hfg ▸ List.mem_map_of_mem hgs)

/-- A record that belongs to an entity has its exported fields, if the fields of the entity are
described by their identifiers and no two have one name. -/
theorem Entity.describes_of_fits {e : Entity} {r : Record} (h : r.fits e = true)
    (hd : (e.fields.map (·.name)).Nodup) (hid : ∀ f ∈ e.exportedFields, f.ident.text = f.name) :
    e.Describes r := by
  unfold Record.fits at h
  rw [Bool.and_eq_true, beq_iff_eq, List.all_eq_true] at h
  intro f hf
  obtain ⟨slot, hzip, hfind⟩ := exists_slot_of_zip h.1 hd (List.mem_of_mem_filter hf)
  refine ⟨slot, ?_, h.2 _ hzip⟩
  rw [hid f hf]
  exact hfind

/-! ## What code expects of a slot -/

/-- The values in a slot, if it is one that is stored. -/
def Slot.values : Slot → List Value
  | .one v => [v]
  | .many vs => vs
  | .other _ => []

/-- A slot holds what code for a stored field expects there. -/
def StoredField.Accepts (p : StoredField) (slot : Slot) : Prop :=
  (∃ v, slot = .one v ∧ p.multiple = false ∧ v.kind = p.kind) ∨
    ∃ vs, slot = .many vs ∧ p.multiple = true ∧ ∀ v ∈ vs, v.kind = p.kind

theorem StoredField.Accepts.kind_eq {p : StoredField} {slot : Slot} (h : p.Accepts slot)
    {v : Value} (hv : v ∈ slot.values) : v.kind = p.kind := by
  obtain ⟨w, rfl, -, hw⟩ | ⟨vs, rfl, -, hvs⟩ := h
  · rw [List.mem_singleton.mp hv]
    exact hw
  · exact hvs v hv

/-- What fits the shape of a stored field is just what its code expects. The shape speaks of the
field as it is declared and the code of how it is stored; the mapping between them keeps kind and
multiplicity. -/
theorem Field.StoredAs.fits_iff_accepts {f : Field} {p : StoredField} (h : f.StoredAs p)
    {slot : Slot} : slot.fits f.shape = true ↔ p.Accepts slot := by
  obtain ⟨a, m, -, hm, rfl⟩ := h
  unfold Slot.fits StoredField.Accepts
  rw [hm]
  cases slot with
  | one v => simp
  | many vs => simp
  | other t => simp

/-- A record has the exported fields of an entity just if it has what the code of its schema
expects. Fields and stored fields stand beside each other, so either side can be walked through. -/
theorem Schema.DerivedFrom.describes_iff {s : Schema} {key : String} {e : Entity}
    (h : s.DerivedFrom key e) {r : Record} :
    e.Describes r ↔ ∀ p ∈ s.fields, ∃ slot, r.get? p.ident.text = some slot ∧ p.Accepts slot := by
  constructor
  · intro hr p hp
    obtain ⟨f, hf, hfp⟩ := h.exists_field hp
    obtain ⟨slot, hslot, hfits⟩ := hr f hf
    exact ⟨slot, hfp.ident_eq ▸ hslot, hfp.fits_iff_accepts.mp hfits⟩
  · intro hr f hf
    obtain ⟨p, hp, hfp⟩ := h.exists_stored hf
    obtain ⟨slot, hslot, hacc⟩ := hr p hp
    exact ⟨slot, hfp.ident_eq ▸ hslot, hfp.fits_iff_accepts.mpr hacc⟩

end StoreModel
