import Mathlib.Data.List.Forall2
import StoreModel.Proofs.Collisions
import StoreModel.Proofs.Correspondence
import StoreModel.Proofs.Storability

/-!
# The order of declarations

What is stored of a record is told by names, so it should not show in which order the fields of its
type are declared, nor what other fields stand between them. This file compares two entities whose
exported fields are the same up to their order. Either both have a schema or none has one, and the
stored fields are again the same up to their order (`Schema.derive_perm`).

Code goes through the fields in the orders of names and of identifiers, which are orders of the
fields themselves, so it is the same code. Constants are the one place where the declared order is
seen: the seven constants of a field stay together, and the fields come as they are declared.
-/

set_option autoImplicit false

namespace StoreModel

open StoreModel.Source StoreModel.Text

/-! ## Schemas -/

/-- With the exported fields in another order there is a schema too, and its fields are in that
order. What is rearranged is the list of pairs of a field and what it is stored as, so that no field
has to be derived again. -/
theorem Schema.derive_perm {key : String} {e e' : Entity} {s : Schema}
    (hperm : e.exportedFields.Perm e'.exportedFields) (hs : derive key e = .ok s) :
    ∃ s', derive key e' = .ok s' ∧ s.fields.Perm s'.fields := by
  have hfrom := derive_ok hs
  obtain ⟨ps, hps, hpsperm⟩ := List.perm_comp_forall₂ hperm.symm hfrom.fields
  have hnames : (ps.map (·.name)).Nodup := (hpsperm.map _).nodup_iff.mpr hfrom.names
  refine ⟨ofFields key e'.typeName ps,
    derive_ok_iff.mpr ⟨rfl, rfl, ?_, indexed_ofFields hnames⟩, ?_⟩
  · rwa [fields_ofFields]
  · rw [fields_ofFields]
    exact hpsperm.symm

/-! ## Code -/

/-- Fields whose keys do not repeat are put in one order, however they stood before. Sorting is
stable, so without this condition the order of declarations would show among equal keys. -/
theorem mergeSort_eq_of_perm {key : StoredField → String} {l l' : List StoredField}
    (hp : l.Perm l') (hd : (l.map key).Nodup) :
    (l.mergeSort fun p q => decide (key p ≤ key q)) =
      l'.mergeSort fun p q => decide (key p ≤ key q) := by
  have hd' : (l'.map key).Nodup := (hp.map key).nodup_iff.mp hd
  have hperm := (List.mergeSort_perm l fun p q => decide (key p ≤ key q)).trans
    (hp.trans (List.mergeSort_perm l' fun p q => decide (key p ≤ key q)).symm)
  exact hperm.eq_of_pairwise (fun p q _ _ hpq hqp => absurd hqp (List.lt_asymm hpq))
    (pairwise_bytes_lt_mergeSort hd) (pairwise_bytes_lt_mergeSort hd')

section Code

variable {s s' : Schema}

/-- What is met along the map of names does not depend on the order of the fields. Stored names
never repeat, so nothing has to be assumed. -/
theorem Schema.byName_of_perm (hs : s.Indexed) (hs' : s'.Indexed) (hp : s.fields.Perm s'.fields) :
    s.byName = s'.byName := by
  rw [hs.byName_eq, hs'.byName_eq]
  exact mergeSort_eq_of_perm hp hs.nodup_map_name

/-- Nor what is met along the map of fields, if no identifier is there twice: of two it would be the
one declared last. -/
theorem Schema.byField_of_perm (hs : s.Indexed) (hs' : s'.Indexed)
    (hp : s.fields.Perm s'.fields) (hd : (s.fields.map (·.field)).Nodup) :
    s.byField = s'.byField := by
  have hd' : (s'.fields.map (·.field)).Nodup := (hp.map _).nodup_iff.mp hd
  rw [hs.byField_eq, hs'.byField_eq, lastOfEach_eq_self hd, lastOfEach_eq_self hd']
  exact mergeSort_eq_of_perm hp hd

theorem Schema.sequenceFields_of_perm (hs : s.Indexed) (hs' : s'.Indexed)
    (hp : s.fields.Perm s'.fields) (hd : (s.fields.map (·.field)).Nodup) :
    s.sequenceFields = s'.sequenceFields := by
  have hd' : (s'.fields.map (·.field)).Nodup := (hp.map _).nodup_iff.mp hd
  have hfilter : ((s.fields.filter (·.multiple)).map (·.field)).Nodup :=
    hd.sublist (List.filter_sublist.map _)
  rw [hs.sequenceFields_eq hd, hs'.sequenceFields_eq hd',
    mergeSort_eq_of_perm (hp.filter _) hfilter]

/-- The same fields in another order have the same code, or fail to have any for the same reason:
the positions in the maps differ, but not what is met along them. -/
theorem Schema.implementation_of_perm (hs : s.Indexed) (hs' : s'.Indexed)
    (htype : s.typeName = s'.typeName) (hp : s.fields.Perm s'.fields)
    (hd : (s.fields.map (·.field)).Nodup) : s.implementation = s'.implementation := by
  have harm : s.arm = s'.arm := funext fun p => by rw [arm, arm, htype]
  unfold implementation
  rw [htype, harm, sequenceFields_of_perm hs hs' hp hd, byName_of_perm hs hs' hp,
    byField_of_perm hs hs' hp hd]

end Code

/-! ## Constants -/

/-- The constant for the key of a schema. -/
def Schema.keyItem (s : Schema) : Constant := ⟨Ident.ofText (keyConstant s.typeName), s.key⟩

/-- The constants for the queries of a field. -/
def StoredField.block (typeName : String) (p : StoredField) : List Constant :=
  (p.constants typeName).map Intended.constant

theorem StoredField.length_block (t : String) (p : StoredField) : (p.block t).length = 7 := rfl

/-- The constants of schemas that are accepted. -/
def constantsOf (ss : List Schema) : List Constant :=
  (intendedConstants ss).map (·.2.constant)

theorem constantsOf_append (ss ss' : List Schema) :
    constantsOf (ss ++ ss') = constantsOf ss ++ constantsOf ss' := by
  unfold constantsOf intendedConstants
  rw [List.flatMap_append, List.map_append]

/-- The constants of a schema in front of those of the others: the one for its key, and then a block
of seven for each indexed field. -/
theorem constantsOf_cons (s : Schema) (ss : List Schema) :
    constantsOf (s :: ss) =
      s.keyItem :: (s.indexed.map (StoredField.block s.typeName)).flatten ++ constantsOf ss := by
  unfold constantsOf intendedConstants
  rw [List.flatMap_cons, List.map_append, List.map_map]
  refine congrArg (· ++ _) ?_
  unfold Schema.constants
  rw [List.map_cons, List.map_flatMap, List.flatMap_def]
  rfl

/-- Schemas that differ in the order of fields have the same constants up to order, wherever they
stand among others. The blocks of seven stay together, but that is not needed for this. -/
theorem intendedConstants_of_perm {s s' : Schema} (hkey : s.key = s'.key)
    (htype : s.typeName = s'.typeName) (hp : s.fields.Perm s'.fields)
    (before after : List Schema) :
    (intendedConstants (before ++ s :: after)).Perm
      (intendedConstants (before ++ s' :: after)) := by
  have hindexed : s.indexed.Perm s'.indexed := hp.filter _
  have hconstants : s.constants.Perm s'.constants := by
    unfold Schema.constants
    rw [hkey, htype]
    exact (hindexed.flatMap_right _).cons _
  unfold intendedConstants
  rw [List.flatMap_append, List.flatMap_append, List.flatMap_cons, List.flatMap_cons, htype]
  exact ((hconstants.map _).append_right _).append_left _

/-- Whether constants are accepted does not depend on their order, because no text is to be there
twice and each is looked at by itself. Which of two is refused would depend on it. -/
theorem claimAll_exists_of_perm {l l' : List (String × Intended)} (hp : l.Perm l') :
    (∃ ks, claimAll [] l = .ok ks) ↔ ∃ ks, claimAll [] l' = .ok ks := by
  have hnames : (l.map (·.2.name)).Perm (l'.map (·.2.name)) := hp.map _
  simp only [claimAll_eq_ok_iff, exists_and_left, exists_eq, and_true, hnames.nodup_iff, hp.mem_iff]

theorem eq_constantsOf_of_claimAll {before after : List Schema} {s : Schema} {ks : List Constant}
    (h : claimAll [] (intendedConstants (before ++ s :: after)) = .ok ks) :
    ks = constantsOf before ++
      (s.keyItem :: (s.indexed.map (StoredField.block s.typeName)).flatten ++
        constantsOf after) := by
  rw [← constantsOf_cons, ← constantsOf_append]
  exact (claimAll_eq_ok_iff.mp h).2

/-! ## What is stored -/

/-- **Neither the order of declarations nor other fields matter.** Take two entities of one name
whose exported fields are the same up to their order, with no identifier twice among them. If one of
them has a schema, so has the other, and the code is the same. Wherever among other schemas these
stand, the constants are accepted with the one exactly if they are with the other. They differ then
at most in the order of the fields: the constant for the key comes first, and the seven constants of
a field stay together. -/
theorem stored_alike_of_perm {e e' : Entity} (htype : e.typeName = e'.typeName)
    (hperm : e.exportedFields.Perm e'.exportedFields)
    (hd : (e.exportedFields.map (·.name)).Nodup) (key : String) :
    ((∃ s, Schema.derive key e = .ok s) ↔ ∃ s, Schema.derive key e' = .ok s) ∧
    ∀ s s', Schema.derive key e = .ok s → Schema.derive key e' = .ok s' →
      s.implementation = s'.implementation ∧ s.indexed.Perm s'.indexed ∧
      (∀ p ∈ s.indexed, (p.block s.typeName).length = 7) ∧
      ∀ before after,
        ((∃ ks, claimAll [] (intendedConstants (before ++ s :: after)) = .ok ks) ↔
          ∃ ks, claimAll [] (intendedConstants (before ++ s' :: after)) = .ok ks) ∧
        ∀ ks ks', claimAll [] (intendedConstants (before ++ s :: after)) = .ok ks →
          claimAll [] (intendedConstants (before ++ s' :: after)) = .ok ks' →
          ks = constantsOf before ++ (s.keyItem ::
            (s.indexed.map (StoredField.block s.typeName)).flatten ++ constantsOf after) ∧
          ks' = constantsOf before ++ (s.keyItem ::
            (s'.indexed.map (StoredField.block s.typeName)).flatten ++ constantsOf after) := by
  refine ⟨⟨fun ⟨s, hs⟩ => ?_, fun ⟨s, hs⟩ => ?_⟩, fun s s' hs hs' => ?_⟩
  · obtain ⟨s', hs', -⟩ := Schema.derive_perm hperm hs
    exact ⟨s', hs'⟩
  · obtain ⟨s', hs', -⟩ := Schema.derive_perm hperm.symm hs
    exact ⟨s', hs'⟩
  · -- the schema that the first one gives is the only one, so it is the second
    obtain ⟨s₁, hs₁, hp⟩ := Schema.derive_perm hperm hs
    cases hs'.symm.trans hs₁
    have hfrom := Schema.derive_ok hs
    have hfrom' := Schema.derive_ok hs'
    have hkey : s.key = s'.key := hfrom.key_eq.trans hfrom'.key_eq.symm
    have htypes : s.typeName = s'.typeName :=
      hfrom.typeName_eq.trans (htype.trans hfrom'.typeName_eq.symm)
    have hfields : (s.fields.map (·.field)).Nodup := by
      rw [hfrom.map_field]
      exact hd
    have hitem : s.keyItem = s'.keyItem := by rw [Schema.keyItem, Schema.keyItem, htypes, hkey]
    refine ⟨Schema.implementation_of_perm hfrom.indexed hfrom'.indexed htypes hp hfields,
      hp.filter _, fun p _ => p.length_block _, fun before after =>
      ⟨claimAll_exists_of_perm (intendedConstants_of_perm hkey htypes hp before after),
        fun ks ks' hks hks' => ⟨eq_constantsOf_of_claimAll hks, ?_⟩⟩⟩
    rw [hitem, htypes]
    exact eq_constantsOf_of_claimAll hks'

namespace Sample

/-- The posts that are stored crosswise, declared the other way round. -/
def crossedBack : Entity :=
  { typeName := "Post"
    fields := [
      { name := "draft", exported := false, shape := .u8 },
      stored "tags" " title ,noindex" (.seq .string),
      stored "title" "tags" .string] }

def crossedBackSchema : Schema :=
  .ofFields "Post" "Post"
    [⟨"tags", "title", .string, true, true⟩, ⟨"title", "tags", .string, false, false⟩]

theorem derive_crossedBack : Schema.derive "Post" crossedBack = .ok crossedBackSchema := rfl

theorem stored_alike_of_perm_crossed :
    crossed.exportedFields.Perm crossedBack.exportedFields ∧
    (∃ s, Schema.derive "Post" crossedBack = .ok s ∧ s ≠ crossedSchema) ∧
    ∀ s, Schema.derive "Post" crossedBack = .ok s →
      crossedSchema.implementation = s.implementation ∧ crossedSchema.indexed.Perm s.indexed := by
  have hperm : crossed.exportedFields.Perm crossedBack.exportedFields := List.Perm.swap _ _ _
  have htype : crossed.typeName = crossedBack.typeName := rfl
  have halike := stored_alike_of_perm htype hperm (by decide) "Post"
  refine ⟨hperm, ⟨_, derive_crossedBack, fun heq => ?_⟩, fun s hs => ?_⟩
  · exact absurd (congrArg Schema.fields heq) (by decide)
  · obtain ⟨hcode, hindexed, -, -⟩ := halike.2 crossedSchema s derive_crossed hs
    exact ⟨hcode, hindexed⟩

end Sample

end StoreModel
