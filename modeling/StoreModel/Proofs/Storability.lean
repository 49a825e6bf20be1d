import Mathlib.Data.List.Pairwise
import StoreModel.Proofs.Derivation
import StoreModel.Proofs.Keyed
import StoreModel.Proofs.Tags
import StoreModel.Sample.Model

/-!
# Which entities can be stored

`Schema.derive` goes through the exported fields once and stops at the first that it cannot take.
What it can take depends on the fields before, but only through their names. So both answers are
said here about the entity alone: its schema exists exactly if each field has a tag and a shape that
can be stored and no two tags spell one name (`StorableTogether`), and otherwise the fault is that
of the first field which spoils this (`Field.Fault`), with the faults of one field in their order.

The induction goes along the fields, with those that were taken standing beside the stored fields
that were made of them.
-/

set_option autoImplicit false

namespace StoreModel

open Std (ExtTreeMap)
open StoreModel.Text

/-! ## Fields and their tags -/

namespace Field

/-- The tag of the field spells this. -/
def Tagged (f : Field) (a : Tag) : Prop := ∃ text, f.tag = some text ∧ a.Spells text

/-- The field is to be stored under this name, with the mark or without. -/
def AsksFor (f : Field) (name : String) : Prop := ∃ noIndex, f.Tagged ⟨name, noIndex⟩

/-- The field has a tag that can be read and a shape that can be stored. -/
def Storable (f : Field) : Prop := ∃ a m, f.Tagged a ∧ f.shape.mapping = .ok m

/-- There is no name that both fields ask for. -/
def Apart (f g : Field) : Prop := ∀ n, f.AsksFor n → ¬ g.AsksFor n

instance : Std.Symm Apart := ⟨fun _ _ h n hg hf => h n hf hg⟩

variable {f : Field} {p : StoredField}

/-- A missing tag is read like an empty one, which spells nothing; so the tag of a field can be
taken apart without a case for its absence. -/
theorem tagged_iff {a : Tag} : f.Tagged a ↔ Tag.read (f.tag.getD "") = .ok a := by
  unfold Tagged
  cases htag : f.tag with
  | none =>
    constructor
    · rintro ⟨text, hnone, -⟩
      cases hnone
    · intro h
      cases h
  | some text =>
    simp only [Option.some.injEq, exists_eq_left', Option.getD_some, Tag.read_eq_ok_iff]

theorem Tagged.unique {a b : Tag} (ha : f.Tagged a) (hb : f.Tagged b) : a = b :=
  Except.ok.inj ((tagged_iff.mp ha).symm.trans (tagged_iff.mp hb))

theorem storedAs_iff : f.StoredAs p ↔ ∃ a m, f.Tagged a ∧ f.shape.mapping = .ok m ∧
    p = { field := f.name
          name := a.name
          kind := m.kind
          multiple := m.multiple
          noIndex := a.noIndex || m.forcesNoIndex } := by
  simp only [StoredAs, tagged_iff]

/-- A field that is stored asks for the name under which it is. -/
theorem StoredAs.asksFor_iff (h : f.StoredAs p) {n : String} : f.AsksFor n ↔ p.name = n := by
  obtain ⟨a, m, ha, -, rfl⟩ := storedAs_iff.mp h
  constructor
  · rintro ⟨b, hb⟩
    rw [ha.unique hb]
  · rintro rfl
    exact ⟨a.noIndex, ha⟩

theorem storable_iff : f.Storable ↔ ∃ p, f.StoredAs p := by
  simp only [Storable, storedAs_iff]
  constructor
  · rintro ⟨a, m, ha, hm⟩
    exact ⟨_, a, m, ha, hm, rfl⟩
  · rintro ⟨p, a, m, ha, hm, -⟩
    exact ⟨a, m, ha, hm⟩

/-! ## Faults of a field -/

/-- What is wrong with a field that comes after others. The faults are in the order in which they
are looked for: whoever has one of them has none of those above it. -/
inductive Fault (typeName : String) (earlier : List Field) (f : Field) : SchemaError → Prop where
  | missingTag (h : f.tag = none ∨ f.tag = some "") :
    Fault typeName earlier f (.missingTag typeName f.name)
  | invalidTag {text : String} (htag : f.tag = some text) (hne : text ≠ "")
      (h : ∀ stretch noIndex, ¬ Tag.Splits text stretch noIndex) :
    Fault typeName earlier f (.invalidTag typeName f.name text)
  | emptyName {text : String} {stretch : List Char} {noIndex : Bool} (htag : f.tag = some text)
      (hne : text ≠ "") (h : Tag.Splits text stretch noIndex) (hblank : AllBlank stretch) :
    Fault typeName earlier f (.emptyName typeName f.name text)
  /-- The one field before it that has asked for the name is the previous one. -/
  | duplicateName {a : Tag} {g : Field} (ha : f.Tagged a) (hg : g ∈ earlier)
      (hname : g.AsksFor a.name) (honly : ∀ h ∈ earlier, h.AsksFor a.name → h = g) :
    Fault typeName earlier f (.duplicateName a.name typeName f.name g.name)
  | unsupportedType {a : Tag} (ha : f.Tagged a) (hnew : ∀ g ∈ earlier, ¬ g.AsksFor a.name)
      (hshape : f.shape.mapping = .error .type) :
    Fault typeName earlier f (.unsupportedType typeName f.name f.shape.text)
  | unsupportedElement {a : Tag} (ha : f.Tagged a) (hnew : ∀ g ∈ earlier, ¬ g.AsksFor a.name)
      (hshape : f.shape.mapping = .error .element) :
    Fault typeName earlier f (.unsupportedElement typeName f.name f.shape.text)

end Field

/-! ## Fields together -/

/-- Every field can be stored, and no two ask for one name. -/
structure StorableTogether (fs : List Field) : Prop where
  storable : ∀ f ∈ fs, f.Storable
  apart : fs.Pairwise Field.Apart

variable {fs before : List Field} {ps : List StoredField} {t : String}

/-- That no two fields ask for one name is said of the declared fields, that names do not repeat of
the stored ones. Beside each other they are the same, field by field. -/
theorem apart_iff_of_forall₂ (h : List.Forall₂ Field.StoredAs fs ps) :
    fs.Pairwise Field.Apart ↔ (ps.map (·.name)).Nodup := by
  induction h with
  | nil => exact iff_of_true .nil List.nodup_nil
  | @cons f p fs ps hfp hall ih =>
    rw [List.pairwise_cons, ih, List.map_cons, List.nodup_cons]
    refine and_congr_left fun _ => ?_
    constructor
    · intro hapart hmem
      obtain ⟨q, hq, hname⟩ := List.mem_map.mp hmem
      obtain ⟨g, hg, hgq⟩ := exists_left_of_forall₂ hall hq
      exact hapart g hg p.name (hfp.asksFor_iff.mpr rfl) (hgq.asksFor_iff.mpr hname)
    · intro hmem g hg n hf hgn
      obtain ⟨q, hq, hgq⟩ := exists_right_of_forall₂ hall hg
      refine hmem (List.mem_map.mpr ⟨q, hq, ?_⟩)
      rw [hgq.asksFor_iff.mp hgn, hfp.asksFor_iff.mp hf]

theorem storableTogether_iff :
    StorableTogether fs ↔ ∃ ps, List.Forall₂ Field.StoredAs fs ps ∧ (ps.map (·.name)).Nodup := by
  constructor
  · rintro ⟨hstorable, hapart⟩
    have hps : ∃ ps, List.Forall₂ Field.StoredAs fs ps := by
      clear hapart
      induction fs with
      | nil => exact ⟨[], .nil⟩
      | cons f fs ih =>
        obtain ⟨hf, hfs⟩ := List.forall_mem_cons.mp hstorable
        obtain ⟨p, hp⟩ := Field.storable_iff.mp hf
        obtain ⟨ps, hps⟩ := ih hfs
        exact ⟨p :: ps, .cons hp hps⟩
    obtain ⟨ps, hps⟩ := hps
    exact ⟨ps, hps, (apart_iff_of_forall₂ hps).mp hapart⟩
  · rintro ⟨ps, hps, hnodup⟩
    refine ⟨fun f hf => ?_, (apart_iff_of_forall₂ hps).mpr hnodup⟩
    obtain ⟨p, -, hfp⟩ := exists_right_of_forall₂ hps hf
    exact Field.storable_iff.mpr ⟨p, hfp⟩

/-- Of fields that were taken, one at most asks for a name. -/
theorem eq_of_asksFor (hb : List.Forall₂ Field.StoredAs before ps)
    (hn : (ps.map (·.name)).Nodup) {f g : Field} (hf : f ∈ before) (hg : g ∈ before)
    {n : String} (hfn : f.AsksFor n) (hgn : g.AsksFor n) : f = g := by
  by_contra hne
  exact ((apart_iff_of_forall₂ hb).mpr hn).forall hf hg hne n hfn hgn

/-! ## One field -/

namespace Schema

variable {f : Field} {p : StoredField} {err : SchemaError} {seen : ExtTreeMap String String}

theorem deriveField_of_text {text : String} (htag : f.tag = some text) (hne : text ≠ "") :
    deriveField t seen f =
      match Tag.read text with
      | .error .invalid => .error (.invalidTag t f.name text)
      | .error .emptyName => .error (.emptyName t f.name text)
      | .ok a =>
        match seen[a.name]? with
        | some previous => .error (.duplicateName a.name t f.name previous)
        | none =>
          match f.shape.mapping with
          | .error .type => .error (.unsupportedType t f.name f.shape.text)
          | .error .element => .error (.unsupportedElement t f.name f.shape.text)
          | .ok m =>
            .ok { field := f.name
                  name := a.name
                  kind := m.kind
                  multiple := m.multiple
                  noIndex := a.noIndex || m.forcesNoIndex } := by
  unfold deriveField
  rw [htag, Option.getD_some]
  split
  · exact absurd rfl hne
  · rfl

/-- With a readable tag what remains of judging a field is the name and then the shape. The proofs
below start here and not at the definition, which looks at the tag first. -/
theorem deriveField_of_tagged {a : Tag} (ha : f.Tagged a) :
    deriveField t seen f =
      match seen[a.name]? with
      | some previous => .error (.duplicateName a.name t f.name previous)
      | none =>
        match f.shape.mapping with
        | .error .type => .error (.unsupportedType t f.name f.shape.text)
        | .error .element => .error (.unsupportedElement t f.name f.shape.text)
        | .ok m =>
          .ok { field := f.name
                name := a.name
                kind := m.kind
                multiple := m.multiple
                noIndex := a.noIndex || m.forcesNoIndex } := by
  obtain ⟨text, htag, hspells⟩ := ha
  rw [deriveField_of_text htag hspells.text_ne_empty, Tag.read_eq_ok_iff.mpr hspells]

theorem deriveField_ok_iff :
    deriveField t seen f = .ok p ↔ f.StoredAs p ∧ seen[p.name]? = none := by
  refine ⟨deriveField_ok, fun ⟨hp, hnew⟩ => ?_⟩
  obtain ⟨a, m, ha, hm, rfl⟩ := Field.storedAs_iff.mp hp
  rw [deriveField_of_tagged ha, hnew, hm]

end Schema

/-! ## One field after others

A draft is coherent and stands beside the fields it was made of. So what it has seen can be said of
these: a name is not there just if no field has asked for it, and the field noted under a name is
the one that has. -/

namespace Draft

variable {f : Field} {p : StoredField} {err : SchemaError} {d : Draft}

/-- A name has not been seen just if no earlier field asks for it. What a draft has noted are names
and texts; this says what they mean for the fields. -/
theorem seen_eq_none_iff (hd : d.Coherent) (hb : List.Forall₂ Field.StoredAs before d.fields)
    {n : String} : d.seen[n]? = none ↔ ∀ g ∈ before, ¬ g.AsksFor n := by
  rw [hd.seen_eq_none_iff]
  constructor
  · intro h g hg hgn
    obtain ⟨q, hq, hgq⟩ := exists_right_of_forall₂ hb hg
    exact h q hq (hgq.asksFor_iff.mp hgn)
  · intro h q hq hqn
    obtain ⟨g, hg, hgq⟩ := exists_left_of_forall₂ hb hq
    exact h g hg (hgq.asksFor_iff.mpr hqn)

theorem exists_of_seen (hd : d.Coherent) (hb : List.Forall₂ Field.StoredAs before d.fields)
    {n previous : String} (h : d.seen[n]? = some previous) :
    ∃ g ∈ before, g.AsksFor n ∧ previous = g.name := by
  obtain ⟨q, hq, hqn, hfield⟩ := (hd.seen n previous).mp h
  obtain ⟨g, hg, hgq⟩ := exists_left_of_forall₂ hb hq
  exact ⟨g, hg, hgq.asksFor_iff.mpr hqn, hfield.symm.trans hgq.field_eq⟩

/-- Whatever is found wrong with a field is the fault that it has. For this the draft has to know
the earlier fields, as one of the faults names one of them. -/
theorem fault_of_deriveField (hd : d.Coherent) (hb : List.Forall₂ Field.StoredAs before d.fields)
    (h : Schema.deriveField t d.seen f = .error err) : f.Fault t before err := by
  -- the cases follow the order in which a field is judged: tag, name twice, type; so each fault
  -- comes with the conditions that were passed before it
  cases htag : f.tag with
  | none =>
    rw [Schema.deriveField, htag] at h
    cases h
    exact .missingTag (Or.inl htag)
  | some text =>
    by_cases hne : text = ""
    · subst hne
      rw [Schema.deriveField, htag] at h
      cases h
      exact .missingTag (Or.inr htag)
    · cases hread : Tag.read text with
      | error e =>
        rw [Schema.deriveField_of_text htag hne, hread] at h
        cases e with
        | invalid =>
          cases h
          exact .invalidTag htag hne (Tag.read_eq_invalid_iff.mp hread)
        | emptyName =>
          cases h
          obtain ⟨s, b, hs, hblank⟩ := Tag.read_eq_emptyName_iff.mp hread
          exact .emptyName htag hne hs hblank
      | ok a =>
        have ha : f.Tagged a := ⟨text, htag, Tag.read_eq_ok_iff.mp hread⟩
        rw [Schema.deriveField_of_tagged ha] at h
        cases hseen : d.seen[a.name]? with
        | some previous =>
          simp only [hseen, Except.error.injEq] at h
          subst h
          -- the name that is noted is that of an earlier field, and only one can have it
          obtain ⟨g, hg, hgn, rfl⟩ := exists_of_seen hd hb hseen
          exact .duplicateName ha hg hgn fun g' hg' hgn' =>
            eq_of_asksFor hb hd.nodup_map_name hg' hg hgn' hgn
        | none =>
          have hnew := (seen_eq_none_iff hd hb).mp hseen
          cases hshape : f.shape.mapping with
          | ok m => simp only [hseen, hshape, reduceCtorEq] at h
          | error e =>
            rw [hseen, hshape] at h
            cases e with
            | type =>
              cases h
              exact .unsupportedType ha hnew hshape
            | element =>
              cases h
              exact .unsupportedElement ha hnew hshape

/-- And the fault that a field has is found, since those that would be found before it are excluded
by what the fault says. -/
theorem deriveField_of_fault (hd : d.Coherent) (hb : List.Forall₂ Field.StoredAs before d.fields)
    (h : f.Fault t before err) : Schema.deriveField t d.seen f = .error err := by
  cases h with
  | missingTag h =>
    have htext : f.tag.getD "" = "" := by
      rcases h with h | h
      · rw [h]
        rfl
      · rw [h]
        rfl
    rw [Schema.deriveField, htext]
    rfl
  | invalidTag htag hne h =>
    rw [Schema.deriveField_of_text htag hne, Tag.read_eq_invalid_iff.mpr h]
  | emptyName htag hne h hblank =>
    rw [Schema.deriveField_of_text htag hne, Tag.read_eq_emptyName_iff.mpr ⟨_, _, h, hblank⟩]
  | @duplicateName a g ha hg hname honly =>
    cases hseen : d.seen[a.name]? with
    | none => exact absurd hname ((seen_eq_none_iff hd hb).mp hseen g hg)
    | some previous =>
      obtain ⟨g', hg', hgn', rfl⟩ := exists_of_seen hd hb hseen
      rw [Schema.deriveField_of_tagged ha, hseen, ← honly g' hg' hgn']
  | unsupportedType ha hnew hshape =>
    rw [Schema.deriveField_of_tagged ha, (seen_eq_none_iff hd hb).mpr hnew, hshape]
  | unsupportedElement ha hnew hshape =>
    rw [Schema.deriveField_of_tagged ha, (seen_eq_none_iff hd hb).mpr hnew, hshape]

theorem take_error_iff (hd : d.Coherent) (hb : List.Forall₂ Field.StoredAs before d.fields) :
    d.take t f = .error err ↔ f.Fault t before err := by
  rw [take, map_eq_error_iff]
  exact ⟨fault_of_deriveField hd hb, deriveField_of_fault hd hb⟩

/-! ## All fields -/

/-- All fields are taken just if each can be stored and no name comes twice, those of the draft
counted in. The induction is on the fields, and the draft grows with it. -/
theorem foldlM_take_ok_iff {d' : Draft} (hd : d.Coherent) :
    fs.foldlM (take t) d = .ok d' ↔ ∃ ps, List.Forall₂ Field.StoredAs fs ps ∧
      ((d.fields ++ ps).map (·.name)).Nodup ∧ d' = ps.foldl add d := by
  constructor
  · intro hrun
    obtain ⟨hd', ps, hps, rfl⟩ := hd.foldlM_take hrun
    refine ⟨ps, hps, ?_, rfl⟩
    rw [← fields_foldl_add]
    exact hd'.nodup_map_name
  · rintro ⟨ps, hps, hnodup, rfl⟩
    induction hps generalizing d with
    | nil => rfl
    | @cons f p fs ps hfp _ ih =>
      -- the draft grows with the induction, so that a name is new has to be said of it each time
      have hnew : d.seen[p.name]? = none := hd.seen_eq_none_iff.mpr fun q hq => by
        rw [List.map_append, List.nodup_append] at hnodup
        exact hnodup.2.2 _ (List.mem_map_of_mem hq) _ (List.mem_map_of_mem List.mem_cons_self)
      have htake : d.take t f = .ok (d.add p) :=
        map_eq_ok_iff.mpr ⟨p, Schema.deriveField_ok_iff.mpr ⟨hfp, hnew⟩, rfl⟩
      rw [List.foldlM_cons]
      refine bind_eq_ok_iff.mpr ⟨_, htake, ih (hd.add hnew) ?_⟩
      show ((d.fields ++ [p] ++ ps).map (·.name)).Nodup
      rwa [List.append_assoc, List.singleton_append]

theorem empty_foldlM_take_ok_iff {d' : Draft} :
    fs.foldlM (take t) {} = .ok d' ↔ ∃ ps, List.Forall₂ Field.StoredAs fs ps ∧
      (ps.map (·.name)).Nodup ∧ d' = ps.foldl add {} :=
  foldlM_take_ok_iff Coherent.empty

/-- The fault is that of the first field that cannot be taken after those before it. The fields that
made the draft are a variable of the induction, since each field that is taken joins them. -/
theorem foldlM_take_error_iff (hd : d.Coherent)
    (hb : List.Forall₂ Field.StoredAs before d.fields) :
    fs.foldlM (take t) d = .error err ↔ ∃ taken f rest, fs = taken ++ f :: rest ∧
      (∃ d', taken.foldlM (take t) d = .ok d') ∧ f.Fault t (before ++ taken) err := by
  induction fs generalizing before d with
  | nil =>
    constructor
    · intro h
      cases h
    · rintro ⟨taken, f, rest, hnil, -⟩
      simp at hnil
  | cons f fs ih =>
    -- a field that is taken joins those before, on either side
    have hnext : ∀ d₁, d.take t f = .ok d₁ →
        (fs.foldlM (take t) d₁ = .error err ↔ ∃ taken g rest, fs = taken ++ g :: rest ∧
          (∃ d', taken.foldlM (take t) d₁ = .ok d') ∧
            g.Fault t (before ++ [f] ++ taken) err) := by
      intro d₁ htake
      obtain ⟨p, hp, rfl⟩ := map_eq_ok_iff.mp htake
      obtain ⟨hfp, hnew⟩ := Schema.deriveField_ok hp
      exact ih (hd.add hnew) (List.rel_append hb (.cons hfp .nil))
    rw [List.foldlM_cons, bind_eq_error_iff, take_error_iff hd hb]
    constructor
    · rintro (hfault | ⟨d₁, htake, hrest⟩)
      · exact ⟨[], f, fs, rfl, ⟨d, rfl⟩, by rwa [List.append_nil]⟩
      · obtain ⟨taken, g, rest, rfl, ⟨d', hd'⟩, hfault⟩ := (hnext d₁ htake).mp hrest
        refine ⟨f :: taken, g, rest, rfl, ⟨d', ?_⟩, List.append_cons _ _ _ ▸ hfault⟩
        rw [List.foldlM_cons]
        exact bind_eq_ok_iff.mpr ⟨d₁, htake, hd'⟩
    · rintro ⟨taken, g, rest, hfs, ⟨d', hd'⟩, hfault⟩
      cases taken with
      | nil =>
        cases hfs
        exact Or.inl (by rwa [List.append_nil] at hfault)
      | cons f' taken =>
        cases hfs
        rw [List.foldlM_cons] at hd'
        obtain ⟨d₁, htake, hd'⟩ := bind_eq_ok_iff.mp hd'
        refine Or.inr ⟨d₁, htake, (hnext d₁ htake).mpr ⟨taken, g, rest, rfl, ⟨d', hd'⟩, ?_⟩⟩
        rwa [List.append_cons] at hfault

end Draft

/-! ## Entities -/

namespace Schema

variable {err : SchemaError}

/-- A schema is derived just if it is what `DerivedFrom` describes. That it is no other schema with
the same fields follows from the maps, which the fields decide. -/
theorem derive_ok_iff {key : String} {e : Entity} {s : Schema} :
    derive key e = .ok s ↔ s.DerivedFrom key e := by
  refine ⟨derive_ok, fun h => ?_⟩
  have hrun : e.exportedFields.foldlM (Draft.take e.typeName) {} =
      .ok (s.fields.foldl Draft.add {}) :=
    Draft.empty_foldlM_take_ok_iff.mpr ⟨s.fields, h.fields, h.names, rfl⟩
  refine map_eq_ok_iff.mpr ⟨_, hrun, ?_⟩
  -- the schema that is made has the same fields, and these decide the rest
  exact (indexed_ofFields h.names).eq_of_fields h.indexed h.key_eq.symm h.typeName_eq.symm
    fields_ofFields

theorem derive_exists_iff {key : String} {e : Entity} :
    (∃ s, derive key e = .ok s) ↔ StorableTogether e.exportedFields := by
  rw [storableTogether_iff]
  constructor
  · rintro ⟨s, hs⟩
    exact ⟨s.fields, (derive_ok hs).fields, (derive_ok hs).names⟩
  · rintro ⟨ps, hps, hnames⟩
    refine ⟨ofFields key e.typeName ps, derive_ok_iff.mpr ⟨rfl, rfl, ?_, indexed_ofFields hnames⟩⟩
    rwa [fields_ofFields]

/-- An entity without a schema has a first field that cannot be taken, and all before it could be
stored together. -/
theorem derive_error_iff {key : String} {e : Entity} :
    derive key e = .error err ↔ ∃ before f after, e.exportedFields = before ++ f :: after ∧
      StorableTogether before ∧ f.Fault e.typeName before err := by
  rw [derive, map_eq_error_iff, Draft.foldlM_take_error_iff .empty .nil]
  have hexists : ∀ taken : List Field,
      (∃ d', taken.foldlM (Draft.take e.typeName) {} = .ok d') ↔ StorableTogether taken := by
    intro taken
    simp only [Draft.empty_foldlM_take_ok_iff, storableTogether_iff]
    constructor
    · rintro ⟨_, ps, hps, hnames, -⟩
      exact ⟨ps, hps, hnames⟩
    · rintro ⟨ps, hps, hnames⟩
      exact ⟨_, ps, hps, hnames, rfl⟩
  simp only [hexists, List.nil_append]

/-- **Which entities have a schema, and what is the matter with the others.** There is one exactly
if every exported field has a tag that can be read and a shape that can be stored and no two tags
spell one name; it has the exported fields in their order, each as its tag and its shape say, and
maps and a list of sequences that agree with them. Otherwise the fault is that of the first field
that spoils this, and of its faults the first. -/
theorem derive_first_fault (key : String) (e : Entity) :
    ((∃ s, derive key e = .ok s) ↔ StorableTogether e.exportedFields) ∧
    (∀ s, derive key e = .ok s ↔ StorableTogether e.exportedFields ∧ s.key = key ∧
      s.typeName = e.typeName ∧ List.Forall₂ (fun f p => ∃ a m, f.Tagged a ∧
        f.shape.mapping = .ok m ∧ p = ⟨f.name, a.name, m.kind, m.multiple,
          a.noIndex || m.forcesNoIndex⟩) e.exportedFields s.fields ∧ s.Indexed) ∧
    ∀ err, derive key e = .error err ↔ ∃ before f after, e.exportedFields = before ++ f :: after ∧
      StorableTogether before ∧ f.Fault e.typeName before err := by
  refine ⟨derive_exists_iff, fun s => ?_, fun err => derive_error_iff⟩
  simp only [← Field.storedAs_iff, derive_ok_iff]
  constructor
  · intro h
    exact ⟨storableTogether_iff.mpr ⟨_, h.fields, h.names⟩, h.key_eq, h.typeName_eq, h.fields,
      h.indexed⟩
  · rintro ⟨-, hkey, htype, hfields, hindexed⟩
    exact ⟨hkey, htype, hfields, hindexed⟩

/-- A name that is taken counts before a type that cannot be stored. -/
example : derive "Post" { typeName := "Post", fields := [Sample.stored "title" "name" .string,
    Sample.stored "slug" " name ,noindex" (.seq .i64)] } =
    .error (.duplicateName "name" "Post" "slug" "title") := rfl

end Schema

end StoreModel
