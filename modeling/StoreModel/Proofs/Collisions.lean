import Mathlib.Data.List.Nodup
import StoreModel.Proofs.Emission
import StoreModel.Proofs.Words
import StoreModel.Schema.Registry

/-!
# Names in a module

The names of constants are claimed as texts, but what a module ends up with are the identifiers that
the texts hold. Gaps and comments vanish on the way, so two texts that are claimed one beside the
other may come out as one identifier, and the module is accepted with two items of one name.

How the names come out is known from `Ident.eq_spelled`: every text becomes its first word. So an
accepted module has no name twice exactly if no two names that are claimed are spelled alike, and no
two types are. This holds whenever the names of types and fields are written with nothing around
them, because then every constant is named by one word, which is its own spelling.
-/

set_option autoImplicit false

namespace StoreModel

open StoreModel.Source StoreModel.Text

/-! ## Claiming -/

/-- A constant under the identifier that its name holds. -/
def Intended.constant (c : Intended) : Constant := ⟨Ident.ofText c.name, c.value⟩

/-- One claim: the text is new and holds an identifier. The two tests are made on different things,
the text as it is written and the identifier in it, and this is where names may come to repeat. -/
theorem claim_eq_ok_iff {seen : List String} {t : String} {c : Intended} {k : Constant} :
    claim seen t c = .ok k ↔
      (c.name ∉ seen ∧ ∃ id, Ident.read c.name = .ok id) ∧ k = c.constant := by
  unfold claim
  by_cases hseen : c.name ∈ seen
  · rw [if_pos (List.contains_iff_mem.mpr hseen)]
    constructor
    · intro h
      cases h
    · rintro ⟨⟨hfree, -⟩, -⟩
      exact absurd hseen hfree
  · rw [if_neg fun h => hseen (List.contains_iff_mem.mp h), map_identifier_eq_ok_iff]
    constructor
    · rintro ⟨hread, rfl⟩
      exact ⟨⟨hseen, hread⟩, rfl⟩
    · rintro ⟨⟨-, hread⟩, rfl⟩
      exact ⟨hread, rfl⟩

/-- Constants are accepted exactly if their names are identifiers and no text among them is used
twice, neither here nor before. The induction is on the constants, with the texts that are taken as
a variable. -/
theorem claimAll_eq_ok_iff {seen : List String} {l : List (String × Intended)}
    {ks : List Constant} :
    claimAll seen l = .ok ks ↔
      ((l.map (·.2.name)).Nodup ∧
        ∀ x ∈ l, x.2.name ∉ seen ∧ ∃ id, Ident.read x.2.name = .ok id) ∧
      ks = l.map (·.2.constant) := by
  induction l generalizing seen ks with
  | nil =>
    rw [claimAll]
    constructor
    · intro h
      cases h
      exact ⟨⟨List.nodup_nil, by simp⟩, rfl⟩
    · rintro ⟨-, rfl⟩
      rfl
  | cons x l ih =>
    obtain ⟨t, c⟩ := x
    simp only [claimAll, bind_eq_ok_iff, claim_eq_ok_iff, ih]
    constructor
    · rintro ⟨k, ⟨hc, rfl⟩, ks', ⟨⟨hnodup, hl⟩, rfl⟩, h⟩
      cases h
      refine ⟨⟨?_, ?_⟩, rfl⟩
      · rw [List.map_cons, List.nodup_cons]
        refine ⟨fun hmem => ?_, hnodup⟩
        obtain ⟨y, hy, hname⟩ := List.mem_map.mp hmem
        exact (hl y hy).1 (hname ▸ List.mem_cons_self)
      · intro y hy
        rcases List.mem_cons.mp hy with rfl | hyl
        · exact hc
        · exact ⟨fun hseen => (hl y hyl).1 (List.mem_cons_of_mem _ hseen), (hl y hyl).2⟩
    · rintro ⟨⟨hnodup, hl⟩, rfl⟩
      rw [List.map_cons, List.nodup_cons] at hnodup
      -- a later name is new also with the first one among those before it
      refine ⟨_, ⟨hl _ List.mem_cons_self, rfl⟩, _, ⟨⟨hnodup.2, fun y hy => ⟨?_, ?_⟩⟩, rfl⟩, rfl⟩
      · intro hseen
        rcases List.mem_cons.mp hseen with hname | hold
        · exact hnodup.1 (List.mem_map.mpr ⟨y, hy, hname⟩)
        · exact (hl y (List.mem_cons_of_mem _ hy)).1 hold
      · exact (hl y (List.mem_cons_of_mem _ hy)).2

/-! ## Assembling -/

/-- The names of all constants, as texts. -/
def intendedNames (ss : List Schema) : List String := (intendedConstants ss).map (·.2.name)

theorem intendedNames_append (ss ss' : List Schema) :
    intendedNames (ss ++ ss') = intendedNames ss ++ intendedNames ss' := by
  unfold intendedNames intendedConstants
  rw [List.flatMap_append, List.map_append]

theorem intendedNames_cons (s : Schema) (ss : List Schema) :
    intendedNames (s :: ss) = s.constants.map (·.name) ++ intendedNames ss := by
  unfold intendedNames intendedConstants
  rw [List.flatMap_cons, List.map_append, List.map_map]
  rfl

/-- The schemas can be made into a module: no constant is named by a text that another one has, and
every text that becomes an identifier holds one. -/
structure Assemblable (ss : List Schema) : Prop where
  names : (intendedNames ss).Nodup
  constants : ∀ n ∈ intendedNames ss, ∃ id, Ident.read n = .ok id
  schemas : ∀ s ∈ ss, s.Readable

/-- A module is made exactly of schemas that can be made into one, with a path to import from, and
then it has their constants and their code. Later proofs start here and do not follow the steps of
assembling. -/
theorem Module.assemble_eq_ok_iff {ss : List Schema} {path : String} {m : Module} :
    assemble ss path = .ok m ↔
      (∃ leading segments names,
        readText (readTrees path) readTypePath = .ok (leading, segments) ∧
        importNames segments = .ok names ∧ m.importPath = ⟨leading, names⟩) ∧
      Assemblable ss ∧ m.constants = (intendedConstants ss).map (·.2.constant) ∧
      m.implementations = ss.map Schema.code := by
  unfold assemble
  simp only [bind_eq_ok_iff, mapError_eq_ok_iff, claimAll_eq_ok_iff,
    mapM_eq_ok_iff (fun _ _ => Schema.implementation_eq_ok_iff)]
  constructor
  · rintro ⟨⟨leading, segments⟩, hpath, ks, ⟨⟨hnames, hks⟩, rfl⟩, is, ⟨his, rfl⟩, ns, hns, h⟩
    cases h
    refine ⟨⟨leading, segments, ns, hpath, hns, rfl⟩, ⟨hnames, fun n hn => ?_, his⟩, rfl, rfl⟩
    obtain ⟨x, hx, rfl⟩ := List.mem_map.mp hn
    exact (hks x hx).2
  · rintro ⟨⟨leading, segments, ns, hpath, hns, himport⟩, hok, hconstants, himpls⟩
    refine ⟨(leading, segments), hpath, _, ⟨⟨hok.names, fun x hx => ⟨by simp, ?_⟩⟩, rfl⟩, _,
      ⟨hok.schemas, rfl⟩, ns, hns, ?_⟩
    · exact hok.constants _ (List.mem_map_of_mem hx)
    · rw [← himport, ← hconstants, ← himpls]

theorem readTypePath_super :
    readText (readTrees "super") readTypePath = .ok (false, [.plain "super"]) := rfl

theorem Assemblable.assemble_super {ss : List Schema} (h : Assemblable ss) :
    Module.assemble ss "super" = .ok
      { importPath := ⟨false, ["super"]⟩
        constants := (intendedConstants ss).map (·.2.constant)
        implementations := ss.map Schema.code } :=
  Module.assemble_eq_ok_iff.mpr
    ⟨⟨false, [.plain "super"], ["super"], readTypePath_super, rfl, rfl⟩, h, rfl, rfl⟩

/-! ## Names as they come out -/

theorem Source.Ident.ofText_eq_spelled {s : String} (h : ∃ id, read s = .ok id) :
    ofText s = spelled s := by
  obtain ⟨id, hid⟩ := h
  rw [ofText_eq hid]
  exact eq_spelled hid

theorem Assemblable.map_constant {ss : List Schema} (h : Assemblable ss) :
    ((intendedConstants ss).map (·.2.constant)).map (·.name) =
      (intendedNames ss).map Ident.spelled := by
  unfold intendedNames
  rw [List.map_map, List.map_map]
  refine List.map_congr_left fun x hx => ?_
  exact Ident.ofText_eq_spelled (h.constants _ (List.mem_map_of_mem hx))

/-- The names of the types too. These are not claimed, so nothing has been tested about their texts
but that they hold identifiers. -/
theorem Assemblable.map_code {ss : List Schema} (h : Assemblable ss) :
    (ss.map Schema.code).map (·.typeName) = (ss.map (·.typeName)).map Ident.spelled := by
  rw [List.map_map, List.map_map]
  refine List.map_congr_left fun s hs => ?_
  exact Ident.ofText_eq_spelled (h.schemas s hs).typeName

/-- The constants for the keys are among all constants, one for each schema and in their order. That
the claimed names do not repeat so says something about the types. -/
theorem keyConstants_sublist (ss : List Schema) :
    (ss.map fun s => keyConstant s.typeName).Sublist (intendedNames ss) := by
  induction ss with
  | nil => exact List.Sublist.refl _
  | cons s ss ih =>
    have hkey : [keyConstant s.typeName].Sublist (s.constants.map (·.name)) :=
      List.singleton_sublist.mpr List.mem_cons_self
    rw [intendedNames_cons]
    exact hkey.append ih

/-- Two types whose names differ in nothing but the mark would have one constant for their keys. So
the claims keep the names of types apart, although types are not claimed themselves. -/
theorem Assemblable.typeNames {ss : List Schema} (h : Assemblable ss) :
    (ss.map fun s => Ident.dropMark s.typeName).Nodup := by
  have hkeys : (ss.map fun s => keyConstant s.typeName).Nodup :=
    h.names.sublist (keyConstants_sublist ss)
  refine List.Nodup.of_map (· ++ "Kind") ?_
  rw [List.map_map]
  exact hkeys

/-! ## Names with nothing around them -/

/-- An identifier without its mark. For a compiler it is the same one. -/
def Source.Ident.bare (id : Ident) : String := dropMark id.text

/-- The names that constants are made of are identifiers just as they are written. -/
def Schema.PlainlyNamed (s : Schema) : Prop :=
  Ident.read s.typeName = .ok ⟨s.typeName⟩ ∧ ∀ p ∈ s.indexed, Ident.read p.field = .ok ⟨p.field⟩

theorem Query.continues_suffix (q : Query) : ∀ d ∈ q.suffix.toList, isWordContinue d = true := by
  cases q <;> simp [suffix, isWordContinue, isWordStart]

/-- Every constant is named by one word, if the names it is made of have nothing around them. -/
theorem Schema.PlainlyNamed.plainWord {s : Schema} (h : s.PlainlyNamed) {c : Intended}
    (hc : c ∈ s.constants) : PlainWord c.name.toList := by
  have htype := Ident.plainWord_dropMark h.1
  -- the name of the type begins every name, and all that follows is what words go on with
  rcases List.mem_cons.mp hc with rfl | hquery
  · rw [keyConstant, String.toList_append]
    exact htype.append (by simp [isWordContinue, isWordStart])
  · obtain ⟨p, hp, hcp⟩ := List.mem_flatMap.mp hquery
    obtain ⟨q, -, rfl⟩ := List.mem_map.mp hcp
    have hfield := Ident.plainWord_dropMark (h.2 p hp)
    simp only [queryConstant, String.toList_append]
    exact ((htype.append (by simp [isWordContinue, isWordStart])).append
      hfield.continues).append q.continues_suffix

theorem plainWord_of_mem_intendedNames {ss : List Schema} (h : ∀ s ∈ ss, s.PlainlyNamed)
    {n : String} (hn : n ∈ intendedNames ss) : PlainWord n.toList := by
  obtain ⟨x, hx, rfl⟩ := List.mem_map.mp hn
  obtain ⟨s, hs, hxs⟩ := List.mem_flatMap.mp hx
  obtain ⟨c, hc, rfl⟩ := List.mem_map.mp hxs
  exact (h s hs).plainWord hc

/-- Each constant is named by a word, so it comes out under the text that was claimed. For a word
the spelling is the word, and dropping the mark changes nothing in it. -/
theorem Assemblable.map_constant_bare {ss : List Schema} (h : Assemblable ss)
    (hplain : ∀ s ∈ ss, s.PlainlyNamed) :
    ((intendedConstants ss).map (·.2.constant)).map (·.name.bare) = intendedNames ss := by
  have hmap : ((intendedConstants ss).map (·.2.constant)).map (·.name.bare) =
      (((intendedConstants ss).map (·.2.constant)).map (·.name)).map Ident.bare := by
    rw [List.map_map, List.map_map, List.map_map]
    rfl
  rw [hmap, h.map_constant, List.map_map]
  refine (List.map_congr_left fun n hn => ?_).trans (List.map_id _)
  have hword := plainWord_of_mem_intendedNames hplain hn
  rw [Function.comp_apply, Ident.spelled_self hword]
  exact Ident.dropMark_self hword

theorem map_code_bare {ss : List Schema} (hplain : ∀ s ∈ ss, s.PlainlyNamed) :
    (ss.map Schema.code).map (·.typeName.bare) = ss.map fun s => Ident.dropMark s.typeName := by
  rw [List.map_map]
  refine List.map_congr_left fun s hs => ?_
  exact congrArg Ident.bare (Ident.ofText_eq (hplain s hs).1)

/-! ## Names of an accepted module -/

/-- **When an accepted module has no name twice.** It is exactly if no two names of constants that
are different texts are spelled alike, and no two names of types. If the names of types and indexed
fields have nothing around them, it is always so, and marks do not hide a repetition either. -/
theorem distinct_items_iff {ss : List Schema} {path : String} {m : Module}
    (h : Module.assemble ss path = .ok m) :
    (((m.constants.map (·.name)).Nodup ∧ (m.implementations.map (·.typeName)).Nodup) ↔
      (∀ a ∈ intendedNames ss, ∀ b ∈ intendedNames ss,
        Ident.spelled a = Ident.spelled b → a = b) ∧
      ∀ a ∈ ss.map (·.typeName), ∀ b ∈ ss.map (·.typeName),
        Ident.spelled a = Ident.spelled b → a = b) ∧
    ((∀ s ∈ ss, s.PlainlyNamed) →
      (m.constants.map (·.name.bare)).Nodup ∧ (m.implementations.map (·.typeName.bare)).Nodup) := by
  obtain ⟨-, hok, hconstants, himpls⟩ := Module.assemble_eq_ok_iff.mp h
  have htypes : (ss.map (·.typeName)).Nodup := by
    refine List.Nodup.of_map Ident.dropMark ?_
    rw [List.map_map]
    exact hok.typeNames
  rw [hconstants, himpls]
  refine ⟨?_, fun hplain => ⟨?_, ?_⟩⟩
  · -- neither list of texts has a repetition, so one among the identifiers is two texts in one
    rw [hok.map_constant, hok.map_code, List.nodup_map_iff_inj_on hok.names,
      List.nodup_map_iff_inj_on htypes]
  · rw [hok.map_constant_bare hplain]
    exact hok.names
  · rw [map_code_bare hplain]
    exact hok.typeNames

namespace Sample

/-- The constants of the posts that are stored crosswise. -/
theorem assemblable_crossed : Assemblable [crossedSchema] where
  names := by decide
  constants := by
    intro n hn
    have hn' : n ∈ ["PostKind", "Post_title", "Post_title_asc", "Post_title_desc", "Post_title_gt",
      "Post_title_gte", "Post_title_lt", "Post_title_lte"] := hn
    simp only [List.mem_cons, List.not_mem_nil, or_false] at hn'
    rcases hn' with rfl | rfl | rfl | rfl | rfl | rfl | rfl | rfl
    all_goals exact ⟨_, rfl⟩
  schemas := by
    intro s hs
    rw [List.mem_singleton.mp hs]
    exact (Schema.implementation_eq_ok_iff.mp implementation_crossed).1

theorem distinct_items_crossed :
    ∃ m, Module.assemble [crossedSchema] "super" = .ok m ∧ m.constants.length = 8 ∧
      (m.constants.map (·.name.bare)).Nodup ∧ (m.implementations.map (·.typeName.bare)).Nodup := by
  have hassemble : Module.assemble [crossedSchema] "super" = .ok
      { importPath := ⟨false, ["super"]⟩
        constants := (intendedConstants [crossedSchema]).map (·.2.constant)
        implementations := [crossedSchema.code] } :=
    Module.assemble_eq_ok_iff.mpr
      ⟨⟨false, [.plain "super"], ["super"], rfl, rfl, rfl⟩, assemblable_crossed, rfl, rfl⟩
  refine ⟨_, hassemble, rfl, (distinct_items_iff hassemble).2 fun s hs => ?_⟩
  rw [List.mem_singleton.mp hs]
  refine ⟨rfl, fun p hp => ?_⟩
  have hp' : p ∈ [⟨"title", "tags", .string, false, false⟩] := hp
  rw [List.mem_singleton.mp hp']
  rfl

/-- Two types of one name, with a blank before it in one of the descriptions. -/
def spaced : Registry :=
  (Registry.insert {} "a" { typeName := " A" }).insert "b" { typeName := "A" }

theorem schemas_spaced :
    spaced.schemas = .ok [.ofFields "a" " A" [], .ofFields "b" "A" []] := by
  have hsorted : spaced.entries.mergeSort Registry.entryLE = spaced.entries :=
    List.mergeSort_of_pairwise (by decide)
  unfold Registry.schemas Registry.sortedEntries
  rw [hsorted]
  rfl

/-- The module of these types is accepted, with two constants of one name and two implementations
for one type. -/
theorem repeated_items_spaced :
    ∃ ss m, spaced.schemas = .ok ss ∧ Module.assemble ss "super" = .ok m ∧
      ¬ (m.constants.map (·.name)).Nodup ∧ ¬ (m.implementations.map (·.typeName)).Nodup := by
  have hassemble : Module.assemble [.ofFields "a" " A" [], .ofFields "b" "A" []] "super" = .ok
      { importPath := ⟨false, ["super"]⟩
        constants := [⟨⟨"AKind"⟩, "a"⟩, ⟨⟨"AKind"⟩, "b"⟩]
        implementations := [(Schema.ofFields "a" " A" []).code,
          (Schema.ofFields "b" "A" []).code] } := by
    refine Module.assemble_eq_ok_iff.mpr ⟨⟨false, [.plain "super"], ["super"], rfl, rfl, rfl⟩,
      ⟨by decide, fun n hn => ?_, fun s hs => ?_⟩, rfl, rfl⟩
    · have hn' : n ∈ [" AKind", "AKind"] := hn
      rcases List.mem_pair.mp hn' with rfl | rfl
      · exact ⟨_, rfl⟩
      · exact ⟨_, rfl⟩
    · rcases List.mem_pair.mp hs with rfl | rfl
      · exact (Schema.indexed_ofFields (by simp)).readable_iff.mpr ⟨⟨_, rfl⟩, by simp⟩
      · exact (Schema.indexed_ofFields (by simp)).readable_iff.mpr ⟨⟨_, rfl⟩, by simp⟩
  have htypes : ¬ [(⟨"A"⟩ : Ident), ⟨"A"⟩].Nodup := by decide
  exact ⟨_, _, schemas_spaced, hassemble, by decide, htypes⟩

end Sample

end StoreModel
