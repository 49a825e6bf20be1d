import Mathlib.Data.List.Flatten
import Mathlib.Data.List.Forall2
import StoreModel.Proofs.Collisions
import StoreModel.Proofs.Printing
import StoreModel.Proofs.SortedEntries

/-!
# Models compose

A model that is accepted stays accepted when kinds are taken away from it, and the code of the kinds
that are left does not change. Three facts make this up. The entries of a part of a registry are
those of the whole with keys of the part. Each schema is derived from its own entry. And the names
that are claimed for some of the schemas are among those claimed for all of them, so what was
without a repetition stays so.

The code of a kind is said here by itself, as data that the key and the entity determine
(`KindCode`), and the text of a module is put together from the texts of its kinds. That the text of
one kind does not depend on its neighbours is `Module.text_eq`.
-/

set_option autoImplicit false

namespace StoreModel

open StoreModel.Source StoreModel.Layout

/-! ## Kind by kind -/

/-- What a module has of one kind. -/
structure KindCode where
  key : String
  constants : List Constant
  implementation : Implementation

/-- The code of a schema: its constants, each under its identifier, and its implementation. -/
def Schema.kindCode (s : Schema) : KindCode :=
  { key := s.key, constants := s.constants.map Intended.constant, implementation := s.code }

namespace KindCode

def constantsText (k : KindCode) : String :=
  String.join (k.constants.map fun c => render (ModuleText.constant c ++ hard))

def implementationText (k : KindCode) : String :=
  render (ModuleText.implementation k.implementation ++ hard)

end KindCode

/-- What every module with an import path begins with. -/
def ImportPath.header (p : ImportPath) : String :=
  String.join ((ModuleText.header.map word ++ [ModuleText.importLine p]).map fun item =>
    render (item ++ hard))

/-- The text of a module of kinds: first the constants of all of them, then the implementations. -/
def ImportPath.moduleText (p : ImportPath) (ks : List KindCode) : String :=
  p.header ++ String.join (ks.map KindCode.constantsText) ++
    String.join (ks.map KindCode.implementationText)

theorem join_flatMap {α : Type} (l : List α) (f : α → List String) :
    String.join (l.flatMap f) = String.join (l.map fun a => String.join (f a)) := by
  induction l with
  | nil => rfl
  | cons a r ih => rw [List.flatMap_cons, String.join_append, ih, List.map_cons, String.join_cons]

/-- The text of a module from the texts of its kinds. Every item is set by itself and ends its line,
so where the items of one kind end and those of the next begin does not show. -/
theorem Module.text_eq_moduleText {m : Module} {ks : List KindCode}
    (hconstants : m.constants = ks.flatMap (·.constants))
    (himpls : m.implementations = ks.map (·.implementation)) :
    m.text = m.importPath.moduleText ks := by
  have hconstantsText : ks.map KindCode.constantsText =
      ks.map fun k => String.join (k.constants.map fun c =>
        render (ModuleText.constant c ++ hard)) := rfl
  have himplsText : ks.map KindCode.implementationText =
      ks.map fun k => render (ModuleText.implementation k.implementation ++ hard) := rfl
  rw [text_eq]
  unfold ModuleText.items ImportPath.moduleText ImportPath.header
  rw [hconstantsText, himplsText, hconstants, himpls, List.append_cons, List.map_append,
    List.map_append, String.join_append, String.join_append, List.map_map, List.map_map,
    List.map_flatMap, join_flatMap, List.map_map]
  simp only [Function.comp_def]

/-! ## Parts of a model -/

/-- A part of what can be made into a module can be made into one. Of the three conditions two are
about each member, and names that do not repeat do not repeat among fewer. -/
theorem Assemblable.sublist {ss ss' : List Schema} (h : Assemblable ss) (hsub : ss'.Sublist ss) :
    Assemblable ss' := by
  have hnames : (intendedNames ss').Sublist (intendedNames ss) := (hsub.flatMap _).map _
  refine ⟨h.names.sublist hnames, fun n hn => ?_, fun s hs => ?_⟩
  · exact h.constants n (hnames.subset hn)
  · exact h.schemas s (hsub.subset hs)

/-- All schemas are there just if each is derived from its own entry, one beside the other. What
became of the first fault need not be said here: there is none. -/
theorem deriveEach_eq_iff {l : List (String × Entity)} {ss : List Schema} :
    deriveEach l = { schemas := ss } ↔
      List.Forall₂ (fun x s => Schema.derive x.1 x.2 = .ok s) l ss := by
  induction l generalizing ss with
  | nil =>
    rw [List.forall₂_nil_left_iff, deriveEach, Derivation.mk.injEq, eq_comm]
    exact and_iff_left rfl
  | cons x r ih =>
    rw [List.forall₂_cons_left_iff, deriveEach]
    cases hx : Schema.derive x.1 x.2 with
    | error err => simp
    | ok s =>
      simp only [← ih]
      constructor
      · intro h
        -- the fault of the whole is that of the rest, so the rest has none either
        obtain ⟨hss, hfault⟩ := Derivation.mk.inj h
        have hr : deriveEach r = { schemas := (deriveEach r).schemas } := by
          rw [← hfault]
        exact ⟨s, _, rfl, hr, hss.symm⟩
      · rintro ⟨s', ss', hs', hr, rfl⟩
        cases hs'
        rw [hr]

/-- A text is generated just if each stage passes, and then the stages are told by what they gave.
What is logged on the way is left out, as only the result is asked about. -/
theorem Registry.generate_eq_ok_iff {r : Registry} {path text : String} :
    (r.generate path).result = .ok text ↔ ∃ entries ss m,
      r.sortedEntries = .ok entries ∧
      List.Forall₂ (fun x s => Schema.derive x.1 x.2 = .ok s) entries ss ∧
      Module.assemble ss path = .ok m ∧ m.text = text := by
  simp only [← deriveEach_eq_iff]
  unfold generate
  cases hentries : r.sortedEntries with
  | error f => simp
  | ok entries =>
    cases hd : deriveEach entries with
    | mk ss fault =>
      cases fault with
      | some f => simp [hd]
      | none => simp [hd, map_eq_ok_iff]

theorem Registry.schemas_eq_ok_iff {r : Registry} {ss : List Schema} :
    r.schemas = .ok ss ↔ ∃ entries, r.sortedEntries = .ok entries ∧
      List.Forall₂ (fun x s => Schema.derive x.1 x.2 = .ok s) entries ss := by
  unfold schemas
  rw [bind_eq_ok_iff]
  simp only [← deriveEach_eq_iff]
  constructor
  · rintro ⟨entries, hentries, h⟩
    refine ⟨entries, hentries, ?_⟩
    cases hd : deriveEach entries with
    | mk schemas fault =>
      rw [hd] at h
      cases fault with
      | some f => cases h
      | none =>
        cases h
        rfl
  · rintro ⟨entries, hentries, h⟩
    refine ⟨entries, hentries, ?_⟩
    rw [h]

/-! ## Composing -/

section Entries

variable {entries : List (String × Entity)} {ss : List Schema}

theorem map_key_of_derived
    (h : List.Forall₂ (fun x s => Schema.derive x.1 x.2 = .ok s) entries ss) :
    ss.map (·.key) = entries.map (·.1) :=
  map_eq_of_forall₂ h fun _ _ hs => (Schema.derive_ok hs).key_eq

theorem derived_filter
    (h : List.Forall₂ (fun x s => Schema.derive x.1 x.2 = .ok s) entries ss) (P : String → Bool) :
    List.Forall₂ (fun x s => Schema.derive x.1 x.2 = .ok s) (entries.filter fun x => P x.1)
      (ss.filter fun s => P s.key) := by
  refine List.rel_filter (fun x s hs => ?_) h
  show P x.1 = true ↔ P s.key = true
  rw [(Schema.derive_ok hs).key_eq]

/-- The code of a kind is made of the entry with its key, and of nothing else. This says which kinds
a module has without a word about their order. -/
theorem mem_map_kindCode_iff
    (h : List.Forall₂ (fun x s => Schema.derive x.1 x.2 = .ok s) entries ss) {k : KindCode} :
    k ∈ ss.map Schema.kindCode ↔
      ∃ e s, (k.key, e) ∈ entries ∧ Schema.derive k.key e = .ok s ∧ k = s.kindCode := by
  rw [List.mem_map]
  constructor
  · rintro ⟨s, hs, rfl⟩
    obtain ⟨⟨key, e⟩, hx, hd⟩ := exists_left_of_forall₂ h hs
    obtain rfl : s.key = key := (Schema.derive_ok hd).key_eq
    exact ⟨e, s, hx, hd, rfl⟩
  · rintro ⟨e, s, hx, hd, rfl⟩
    obtain ⟨s', hs', hd'⟩ := exists_right_of_forall₂ h hx
    have hss : s' = s := Except.ok.inj (hd'.symm.trans hd)
    exact ⟨s', hs', congrArg _ hss⟩

end Entries

theorem Module.text_of_assemble {ss : List Schema} {path : String} {m : Module}
    (h : assemble ss path = .ok m) : m.text = m.importPath.moduleText (ss.map Schema.kindCode) := by
  obtain ⟨-, -, hconstants, himpls⟩ := assemble_eq_ok_iff.mp h
  refine text_eq_moduleText ?_ ?_
  · rw [hconstants]
    unfold intendedConstants
    rw [List.map_flatMap, List.flatMap_map]
    simp only [List.map_map]
    rfl
  · rw [himpls, List.map_map]
    rfl

/-- **Taking kinds away from an accepted model takes their constants and implementations away, and
nothing else.** The code of each kind is made from its own entry, in the order of the keys. -/
theorem Registry.generate_of_subset {r r' : Registry} {path text' : String}
    (hsub : ∀ x ∈ r.entries, x ∈ r'.entries) (h : (r'.generate path).result = .ok text') :
    ∃ (p : ImportPath) (ks : List KindCode),
      ks.Pairwise (fun k k' => k.key < k'.key) ∧
      (∀ k, k ∈ ks ↔
        ∃ e s, (k.key, e) ∈ r'.entries ∧ Schema.derive k.key e = .ok s ∧ k = s.kindCode) ∧
      text' = p.moduleText ks ∧
      (r.generate path).result =
        .ok (p.moduleText (ks.filter fun k => r.keys.contains k.key)) := by
  obtain ⟨entries, ss, m, hentries, hss, hm, rfl⟩ := generate_eq_ok_iff.mp h
  obtain ⟨-, hsorted, hmem⟩ := sortedEntries_ok hentries
  obtain ⟨hpath, hok, -, -⟩ := Module.assemble_eq_ok_iff.mp hm
  refine ⟨m.importPath, ss.map Schema.kindCode, ?_, fun k => ?_, Module.text_of_assemble hm, ?_⟩
  · have hkeys : (ss.map (·.key)).Pairwise (· < ·) := by
      rw [map_key_of_derived hss]
      exact List.pairwise_map.mpr hsorted
    exact List.pairwise_map.mpr (List.pairwise_map.mp hkeys)
  · rw [mem_map_kindCode_iff hss]
    simp only [hmem]
  · -- the part is assembled from the schemas with its keys, and imports from the same path
    have hm' : Module.assemble (ss.filter fun s => r.keys.contains s.key) path = .ok
        { importPath := m.importPath
          constants := (intendedConstants (ss.filter fun s => r.keys.contains s.key)).map
            (·.2.constant)
          implementations := (ss.filter fun s => r.keys.contains s.key).map Schema.code } :=
      Module.assemble_eq_ok_iff.mpr ⟨hpath, hok.sublist List.filter_sublist, rfl, rfl⟩
    refine generate_eq_ok_iff.mpr ⟨_, _, _, sortedEntries_of_subset hsub hentries,
      derived_filter hss _, hm', ?_⟩
    rw [Module.text_of_assemble hm', List.filter_map]
    rfl

namespace Sample

/-- What is put on posts. -/
def label : Entity := { typeName := "Label", fields := [stored "text" "text,noindex" .string] }

def labelSchema : Schema := .ofFields "Tag" "Label" [⟨"text", "text", .string, false, true⟩]

theorem derive_label : Schema.derive "Tag" label = .ok labelSchema := rfl

theorem assemblable_labelled : Assemblable [crossedSchema, labelSchema] where
  names := by decide
  constants := by
    intro n hn
    have hn' : n ∈ intendedNames [crossedSchema] ++ ["LabelKind"] := hn
    rcases List.mem_append.mp hn' with hpost | hlabel
    · exact assemblable_crossed.constants n hpost
    · rw [List.mem_singleton.mp hlabel]
      exact ⟨_, rfl⟩
  schemas := by
    intro s hs
    rcases List.mem_pair.mp hs with rfl | rfl
    · exact assemblable_crossed.schemas _ List.mem_cons_self
    · refine (Schema.derive_ok derive_label).indexed.readable_iff.mpr ⟨⟨_, rfl⟩, fun p hp => ?_⟩
      rw [List.mem_singleton.mp hp]
      exact ⟨_, rfl⟩

/-- Posts keep their code when labels join them. -/
theorem generate_of_subset_labelled :
    ∃ (text : String) (p : ImportPath) (ks : List KindCode),
      (((Registry.insert {} "Post" crossed).insert "Tag" label).generate "super").result =
        .ok text ∧
      text = p.moduleText ks ∧ crossedSchema.kindCode ∈ ks ∧ labelSchema.kindCode ∈ ks ∧
      ((Registry.insert {} "Post" crossed).generate "super").result =
        .ok (p.moduleText (ks.filter fun k => ["Post"].contains k.key)) := by
  have hsorted : ((Registry.insert {} "Post" crossed).insert "Tag" label).sortedEntries =
      .ok [("Post", crossed), ("Tag", label)] := by
    have hsort : [("Post", crossed), ("Tag", label)].mergeSort Registry.entryLE =
        [("Post", crossed), ("Tag", label)] := List.mergeSort_of_pairwise (by decide)
    unfold Registry.sortedEntries
    exact (congrArg Registry.collapse hsort).trans rfl
  have hgenerate := Registry.generate_eq_ok_iff.mpr ⟨_, _, _, hsorted,
    .cons derive_crossed (.cons derive_label .nil),
    assemblable_labelled.assemble_super, rfl⟩
  obtain ⟨p, ks, -, hmem, htext, hpart⟩ := Registry.generate_of_subset
    (fun x hx => Registry.mem_insert.mpr (Or.inl hx)) hgenerate
  refine ⟨_, p, ks, hgenerate, htext, ?_, ?_, hpart⟩
  · exact (hmem _).mpr ⟨crossed, crossedSchema, List.mem_cons_self, derive_crossed, rfl⟩
  · exact (hmem _).mpr
      ⟨label, labelSchema, List.mem_cons_of_mem _ List.mem_cons_self, derive_label, rfl⟩

end Sample

end StoreModel
