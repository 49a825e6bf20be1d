import StoreModel.Proofs.Collisions
import StoreModel.Proofs.Evolution
import StoreModel.Proofs.Views

/-!
# What is loaded and never saved

Code loads by stored names and saves by identifiers. Both go through the same fields as long as
every field is the last one with its identifier; a field that has another one of its identifier
behind it is still loaded, into the field of the record that both describe, but it has no saving,
and what was stored under its name is gone from what the record saves.

So three things are one: that `byField` lists every field, that every field is found under its
identifier, and that a record saves under every name that is loaded. They hold exactly if no two
exported fields have one name (`loaded_is_saved_iff`). Derivation does not ask for that. The
constants of a module do, but only for fields that are indexed.
-/

set_option autoImplicit false

namespace StoreModel

open StoreModel.Source

variable {s : Schema}

/-! ## Fields that are all the last -/

/-- Every field is the last of its identifier just if no identifier repeats. Stored names tell the
fields apart here, for without them one field could stand twice in the list. -/
theorem forall_lastDeclared_iff {l : List StoredField} (hn : (l.map (·.name)).Nodup) :
    (∀ p ∈ l, LastDeclared l p) ↔ (l.map (·.field)).Nodup := by
  constructor
  · intro h
    refine (List.nodup_map_iff_inj_on (List.Nodup.of_map _ hn)).mpr fun p hp q hq hfield => ?_
    exact List.inj_on_of_nodup_map (nodup_map_field_lastOfEach l) (mem_lastOfEach_iff.mpr (h p hp))
      (mem_lastOfEach_iff.mpr (h q hq)) hfield
  · intro hd p hp
    rw [← mem_lastOfEach_iff, lastOfEach_eq_self hd]
    exact hp

namespace Schema.Indexed

theorem byField_perm_iff (hs : s.Indexed) :
    s.byField.Perm s.fields ↔ (s.fields.map (·.field)).Nodup :=
  ⟨fun h => (h.map _).nodup_iff.mp hs.nodup_map_field_byField, hs.byField_perm⟩

theorem getByField?_field_iff (hs : s.Indexed) :
    (∀ p ∈ s.fields, s.getByField? p.field = some p) ↔ (s.fields.map (·.field)).Nodup := by
  rw [← forall_lastDeclared_iff hs.nodup_map_name]
  simp only [hs.getByField?_eq_some_iff, and_true]

/-! ## Names in code -/

theorem mem_armNames_iff (hs : s.Indexed) {n : String} :
    n ∈ s.code.arms.map (·.name) ↔ ∃ p ∈ s.fields, p.name = n := by
  have harms : s.code.arms.map (·.name) = s.byName.map (·.name) := List.map_map
  rw [harms, (hs.byName_perm.map _).mem_iff, List.mem_map]

theorem mem_savingNames_iff (hs : s.Indexed) {n : String} :
    n ∈ s.code.savings.map (·.name) ↔ ∃ p, LastDeclared s.fields p ∧ p.name = n := by
  have hsavings : s.code.savings.map (·.name) = s.byField.map (·.name) := List.map_map
  simp only [hsavings, List.mem_map, hs.mem_byField_iff]

/-- Every name that is loaded has a saving just if every field is the last of its identifier. The
names of arms are those of all fields and the names of savings those of the last ones, and no two
fields share a name. -/
theorem savingNames_eq_iff (hs : s.Indexed) :
    (∀ n, n ∈ s.code.savings.map (·.name) ↔ n ∈ s.code.arms.map (·.name)) ↔
      (s.fields.map (·.field)).Nodup := by
  have hn := hs.nodup_map_name
  rw [← forall_lastDeclared_iff hn]
  simp only [hs.mem_savingNames_iff, hs.mem_armNames_iff]
  constructor
  · intro h p hp
    obtain ⟨q, hlast, hname⟩ := (h p.name).mpr ⟨p, hp, rfl⟩
    exact List.inj_on_of_nodup_map hn hlast.mem hp hname ▸ hlast
  · intro h n
    constructor
    · rintro ⟨p, hlast, hname⟩
      exact ⟨p, hlast.mem, hname⟩
    · rintro ⟨p, hp, hname⟩
      exact ⟨p, h p hp, hname⟩

/-- A record whose sequences all have elements saves under the names that have a saving. -/
theorem mem_savedNames_iff (hs : s.Indexed) {r : Record}
    (hr : ∀ p ∈ s.fields, ∃ slot, r.get? p.ident.text = some slot ∧ p.Accepts slot)
    (hne : ∀ p ∈ s.fields, p.Emits r) {n : String} :
    n ∈ (s.byField.flatMap (·.properties r)).map (·.name) ↔
      n ∈ s.code.savings.map (·.name) := by
  rw [hs.mem_savingNames_iff, List.mem_map]
  constructor
  · rintro ⟨x, hx, rfl⟩
    obtain ⟨p, hp, hxp⟩ := List.mem_flatMap.mp hx
    exact ⟨p, hs.mem_byField_iff.mp hp, (StoredField.name_of_mem_properties hxp).symm⟩
  · rintro ⟨p, hlast, rfl⟩
    obtain ⟨slot, hslot, hacc⟩ := hr p hlast.mem
    obtain ⟨v, hv⟩ := List.exists_mem_of_ne_nil _
      ((hacc.emits_iff hslot).mp (hne p hlast.mem))
    refine ⟨p.property v, List.mem_flatMap.mpr ⟨p, hs.mem_byField_iff.mpr hlast, ?_⟩, rfl⟩
    rw [StoredField.properties_of_get? hslot]
    exact List.mem_map_of_mem hv

end Schema.Indexed

/-! ## What is left unsaved -/

/-- **When nothing that is loaded is left unsaved.** The names that code loads are those of all
fields, the names that it saves those of the fields with none of their identifier behind them, and
a record without empty sequences saves under each of these. The two sets of names are the same,
every field is listed by its identifier and every field is found under it, exactly if no two
exported fields have one name. -/
theorem loaded_is_saved_iff {key : String} {e : Entity} (hs : Schema.derive key e = .ok s) :
    (s.byField.Perm s.fields ↔ (e.exportedFields.map (·.name)).Nodup) ∧
    ((∀ p ∈ s.fields, s.getByField? p.field = some p) ↔ (e.exportedFields.map (·.name)).Nodup) ∧
    ∀ i, s.implementation = .ok i →
      (∀ n, n ∈ i.arms.map (·.name) ↔ ∃ p ∈ s.fields, p.name = n) ∧
      (∀ n, n ∈ i.savings.map (·.name) ↔ ∃ p, LastDeclared s.fields p ∧ p.name = n) ∧
      ((∀ n, n ∈ i.savings.map (·.name) ↔ n ∈ i.arms.map (·.name)) ↔
        (e.exportedFields.map (·.name)).Nodup) ∧
      ∀ r, e.Describes r → (∀ f ∈ e.exportedFields, r.get? f.ident.text ≠ some (.many [])) →
        ∃ ps, i.save? r = some ps ∧
          ∀ n, n ∈ ps.map (·.name) ↔ n ∈ i.savings.map (·.name) := by
  have hfrom := Schema.derive_ok hs
  have hindexed := hfrom.indexed
  rw [← hfrom.map_field]
  refine ⟨hindexed.byField_perm_iff, hindexed.getByField?_field_iff, fun i hi => ?_⟩
  obtain ⟨-, rfl⟩ := Schema.implementation_eq_ok_iff.mp hi
  refine ⟨fun n => hindexed.mem_armNames_iff, fun n => hindexed.mem_savingNames_iff,
    hindexed.savingNames_eq_iff, fun r hr hne => ?_⟩
  have hslots := hfrom.describes_iff.mp hr
  refine ⟨_, Schema.save?_code hslots, fun n =>
    hindexed.mem_savedNames_iff hslots fun p hp _ => ?_⟩
  obtain ⟨f, hf, hfp⟩ := hfrom.exists_field hp
  exact hfp.ident_eq ▸ hne f hf

namespace Sample

/-- Posts whose fields have the names of each other save all that they load; scores that are
described twice do not. -/
theorem loaded_is_saved_crossed :
    (crossedSchema.byField.Perm crossedSchema.fields ∧
      ∃ ps, crossedSchema.code.save? post = some ps ∧
        ∀ n, n ∈ ps.map (·.name) ↔ n ∈ crossedSchema.code.arms.map (·.name)) ∧
    ¬ rescoredSchema.byField.Perm rescoredSchema.fields := by
  obtain ⟨hperm, -, hcode⟩ := loaded_is_saved_iff derive_crossed
  obtain ⟨hperm', -, -⟩ := loaded_is_saved_iff derive_rescored
  have hnames : (crossed.exportedFields.map (·.name)).Nodup := by decide
  have hrepeat : ¬ (rescored.exportedFields.map (·.name)).Nodup := by decide
  obtain ⟨-, -, hsame, hsave⟩ := hcode _ implementation_crossed
  obtain ⟨ps, hps, hwritten⟩ := hsave post describes_post fun f hf => by
    rcases List.mem_pair.mp hf with rfl | rfl
    · decide
    · decide
  exact ⟨⟨hperm.mpr hnames, ps, hps, fun n => (hwritten n).trans (hsame.mpr hnames n)⟩,
    fun h => hrepeat (hperm'.mp h)⟩

/-- Posts with a score that is described twice, once under a name that is not indexed. -/
def doubled : Entity :=
  { typeName := "Post"
    fields := [stored "score" "old,noindex" .i64, stored "score" "new" .i64] }

def doubledSchema : Schema :=
  .ofFields "Post" "Post"
    [⟨"score", "old", .int64, false, true⟩, ⟨"score", "new", .int64, false, false⟩]

theorem derive_doubled : Schema.derive "Post" doubled = .ok doubledSchema := rfl

/-- A post with a score of seven. -/
def scored : Record := ⟨[("score", .one (.int64 7))]⟩

theorem describes_scored : doubled.Describes scored := by
  intro f hf
  rcases List.mem_pair.mp hf with rfl | rfl
  · exact ⟨.one (.int64 7), rfl, rfl⟩
  · exact ⟨.one (.int64 7), rfl, rfl⟩

theorem byField_doubled :
    doubledSchema.byField = [⟨"score", "new", .int64, false, false⟩] := rfl

/-- A post that is described like this is derived and made into a module. Its code loads a score
from both names and saves it under the second one only. -/
theorem unsaved_doubled :
    Schema.derive "Post" doubled = .ok doubledSchema ∧
    (∃ m, Module.assemble [doubledSchema] "super" = .ok m ∧
      m.implementations = [doubledSchema.code]) ∧
    ¬ doubledSchema.byField.Perm doubledSchema.fields ∧
    ¬ (∀ p ∈ doubledSchema.fields, doubledSchema.getByField? p.field = some p) ∧
    "old" ∈ doubledSchema.code.arms.map (·.name) ∧
    doubled.Describes scored ∧
    ∃ ps, doubledSchema.code.save? scored = some ps ∧ ps.map (·.name) = ["new"] := by
  have hold : (⟨"score", "old", .int64, false, true⟩ : StoredField) ∈ doubledSchema.fields :=
    .head _
  have hindexed := (Schema.derive_ok derive_doubled).indexed
  have hreadable : doubledSchema.Readable := by
    refine hindexed.readable_iff.mpr ⟨⟨⟨"Post"⟩, rfl⟩, fun p hp => ?_⟩
    rcases List.mem_pair.mp hp with rfl | rfl
    · exact ⟨⟨"score"⟩, rfl⟩
    · exact ⟨⟨"score"⟩, rfl⟩
  have hassemblable : Assemblable [doubledSchema] := by
    refine ⟨by decide, fun n hn => ?_, fun s hs => List.mem_singleton.mp hs ▸ hreadable⟩
    have hn' : n ∈ ["PostKind", "Post_score", "Post_score_asc", "Post_score_desc",
      "Post_score_gt", "Post_score_gte", "Post_score_lt", "Post_score_lte"] := hn
    simp only [List.mem_cons, List.not_mem_nil, or_false] at hn'
    rcases hn' with rfl | rfl | rfl | rfl | rfl | rfl | rfl | rfl
    all_goals exact ⟨_, rfl⟩
  have hslots := (Schema.derive_ok derive_doubled).describes_iff.mp describes_scored
  refine ⟨derive_doubled, ⟨_, hassemblable.assemble_super, rfl⟩, fun h => ?_, fun h => ?_,
    hindexed.mem_armNames_iff.mpr ⟨_, hold, rfl⟩, describes_scored, _, Schema.save?_code hslots, ?_⟩
  · exact absurd h.length_eq (by rw [byField_doubled]; decide)
  · exact absurd (h _ hold) (by decide)
  · rw [byField_doubled]
    rfl

end Sample

end StoreModel
