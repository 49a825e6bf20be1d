import StoreModel.Proofs.Acceptance
import StoreModel.Proofs.Composition
import StoreModel.Proofs.DeclarationOrder
import StoreModel.Proofs.FileOutput
import StoreModel.Proofs.ImportNames
import StoreModel.Proofs.ModuleDecoding

/-!
# Different models make different modules

Modules with the same import and the same tokens are the same (`Module.eq_of_readTrees_eq`), so what
is left is to find the schemas in the data of their module. The implementations are one for each
schema, and saving goes through all fields of one. The constants stand in one list, and nothing in
it says where those of a schema end; but each indexed field has seven, and how many of them are
indexed is known from the code. What the constants add are the keys, and the order in which indexed
fields are declared.
-/

set_option autoImplicit false

namespace StoreModel

open StoreModel.Source

/-! ## What the code tells -/

/-- The schemas are of one kind. Their fields may be declared in different orders, but those that
are indexed stand in the same one. -/
structure Schema.Alike (s s' : Schema) : Prop where
  key : s.key = s'.key
  typeName : s.typeName = s'.typeName
  fields : s.fields.Perm s'.fields
  indexed : s.indexed = s'.indexed

/-- The field that is saved by code. -/
def Saving.stored (a : Saving) : StoredField := ⟨a.field.text, a.name, a.kind, a.loop, a.noIndex⟩

variable {s s' : Schema}

/-- Each saving has all that is known of its field, if the identifier in it is the text of the
field. So the savings of code are the fields again. -/
theorem Schema.WellNamed.map_stored (h : s.WellNamed) :
    s.code.savings.map Saving.stored = s.byField := by
  show (s.byField.map StoredField.savingOf).map Saving.stored = s.byField
  rw [List.map_map]
  apply (List.map_congr_left _).trans (List.map_id _)
  intro p hp
  have hident : p.ident = ⟨p.field⟩ := Ident.ofText_eq (h.fields p (mem_of_mem_byField hp))
  show (⟨p.ident.text, p.name, p.kind, p.multiple, p.noIndex⟩ : StoredField) = p
  rw [hident]

/-- From code the name of the type and the fields are known. Arms would not do for this, as they do
not say whether a field is indexed. -/
theorem Schema.WellNamed.of_code_eq (h : s.WellNamed) (h' : s'.WellNamed)
    (hs : s.Indexed) (hs' : s'.Indexed) (hd : (s.fields.map (·.field)).Nodup)
    (hd' : (s'.fields.map (·.field)).Nodup) (heq : s.code = s'.code) :
    s.typeName = s'.typeName ∧ s.fields.Perm s'.fields := by
  have htype : Ident.ofText s.typeName = Ident.ofText s'.typeName :=
    congrArg Implementation.typeName heq
  rw [Ident.ofText_eq h.typeName, Ident.ofText_eq h'.typeName] at htype
  have hfields : s.byField = s'.byField := by
    rw [← h.map_stored, ← h'.map_stored, heq]
  constructor
  · exact congrArg Ident.text htype
  · exact (hs.byField_perm hd).symm.trans (hfields ▸ hs'.byField_perm hd')

/-! ## What the constants tell -/

/-- The query for an order from below is the stored name. -/
theorem StoredField.name_of_block (t : String) (p : StoredField) :
    (p.block t)[1]?.map Constant.value = some p.name := rfl

/-- The fields stand one behind the other with seven constants each, one of which is the stored
name. The induction is on the first list; blocks of one length are cut off in front of both. -/
theorem map_name_of_blocks {t : String} {l l' : List StoredField}
    (h : (l.map (StoredField.block t)).flatten = (l'.map (StoredField.block t)).flatten) :
    l.map (·.name) = l'.map (·.name) := by
  induction l generalizing l' with
  | nil =>
    cases l' with
    | nil => rfl
    | cons q l' => cases h
  | cons p l ih =>
    cases l' with
    | nil => cases h
    | cons q l' =>
      rw [List.map_cons, List.map_cons, List.flatten_cons, List.flatten_cons] at h
      have hlength := (p.length_block t).trans (q.length_block t).symm
      obtain ⟨hblock, hrest⟩ := List.append_inj h hlength
      have hname : some p.name = some q.name := by
        rw [← p.name_of_block t, hblock, q.name_of_block]
      rw [List.map_cons, List.map_cons, Option.some.inj hname, ih hrest]

/-- Of two orders of fields that are told apart by their names, the names tell which one it is.
Position by position the two lists have fields of one name, and there is one such field. -/
theorem eq_of_map_name_eq {l l' : List StoredField} (hp : l.Perm l')
    (hd : (l.map (·.name)).Nodup) (h : l.map (·.name) = l'.map (·.name)) : l = l' := by
  have hlength : l.length = l'.length := hp.length_eq
  apply List.ext_getElem hlength
  intro i hi hi'
  apply List.inj_on_of_nodup_map hd (List.getElem_mem hi) (hp.mem_iff.mpr (List.getElem_mem hi'))
  have hget : (l.map (·.name))[i]? = (l'.map (·.name))[i]? := by rw [h]
  simpa only [List.getElem?_map, List.getElem?_eq_getElem hi, List.getElem?_eq_getElem hi',
    Option.map_some, Option.some.injEq] using hget

/-- Where the fields of schemas are known up to their order, the constants tell the rest. As many
blocks belong to a schema as it has indexed fields, which is known, so the list is cut at the right
place for the next one. -/
theorem alike_of_constants {ss ss' : List Schema}
    (h : List.Forall₂ (fun s s' => (s.fields.map (·.name)).Nodup ∧ s.typeName = s'.typeName ∧
      s.fields.Perm s'.fields) ss ss')
    (hconstants : constantsOf ss = constantsOf ss') : List.Forall₂ Schema.Alike ss ss' := by
  induction h with
  | nil => exact .nil
  | @cons s s' ss ss' hs _ ih =>
    obtain ⟨hnames, htype, hfields⟩ := hs
    have hperm : s.indexed.Perm s'.indexed := hfields.filter _
    -- as many fields are indexed on both sides, so the constants of the rest begin at one place
    rw [constantsOf_cons, constantsOf_cons, htype] at hconstants
    have hlength : (s.keyItem :: (s.indexed.map (StoredField.block s'.typeName)).flatten).length =
        (s'.keyItem :: (s'.indexed.map (StoredField.block s'.typeName)).flatten).length := by
      rw [List.length_cons, List.length_cons, ((hperm.map _).flatten).length_eq]
    obtain ⟨hown, hrest⟩ := List.append_inj hconstants hlength
    obtain ⟨hkey, hblocks⟩ := List.cons.inj hown
    have hindexed : (s.indexed.map (·.name)).Nodup := hnames.sublist (List.filter_sublist.map _)
    exact .cons
      { key := congrArg Constant.value hkey
        typeName := htype
        fields := hfields
        indexed := eq_of_map_name_eq hperm hindexed (map_name_of_blocks hblocks) }
      (ih hrest)

/-! ## From modules to models -/

theorem Registry.generate_of_schemas {r : Registry} {ss : List Schema} {path : String} {m : Module}
    (h : r.schemas = .ok ss) (hm : Module.assemble ss path = .ok m) :
    (r.generate path).result = .ok m.text := by
  obtain ⟨entries, hentries, hderived⟩ := schemas_eq_ok_iff.mp h
  exact generate_eq_ok_iff.mpr ⟨entries, ss, m, hentries, hderived, hm, rfl⟩

theorem Registry.indexed_of_schemas {r : Registry} {ss : List Schema} (h : r.schemas = .ok ss) :
    ∀ s ∈ ss, s.Indexed := by
  intro s hs
  obtain ⟨entries, -, hderived⟩ := schemas_eq_ok_iff.mp h
  obtain ⟨x, -, hx⟩ := exists_left_of_forall₂ hderived hs
  exact (Schema.derive_ok hx).indexed

/-- The schemas of a registry. Types and fields are named by identifiers, and no two fields of a
type by one, as it is where types are declared. -/
structure Registry.Describes (r : Registry) (ss : List Schema) : Prop where
  derived : r.schemas = .ok ss
  named : ∀ s ∈ ss, s.WellNamed
  fields : ∀ s ∈ ss, (s.fields.map (·.field)).Nodup

section Describes

variable {r r' : Registry} {ss ss' : List Schema} {path : String}

/-- Equal codes, one beside the other, give types of one name and fields that are the same up to
order. This is done for all schemas before the constants are looked at, since these have to be cut
by the number of fields. -/
theorem Registry.Describes.fields_of_codes (h : r.Describes ss) (h' : r'.Describes ss')
    (heq : ss.map Schema.code = ss'.map Schema.code) :
    List.Forall₂ (fun s s' => (s.fields.map (·.name)).Nodup ∧ s.typeName = s'.typeName ∧
      s.fields.Perm s'.fields) ss ss' := by
  have hcodes : List.Forall₂ (fun s s' => s.code = s'.code) ss ss' := by
    have hsame : List.Forall₂ Eq (ss.map Schema.code) (ss'.map Schema.code) := by
      rw [List.forall₂_eq_eq_eq]
      exact heq
    rwa [List.forall₂_map_left_iff, List.forall₂_map_right_iff] at hsame
  rw [List.forall₂_iff_zip] at hcodes ⊢
  refine ⟨hcodes.1, fun {s s'} hmem => ?_⟩
  obtain ⟨hs, hs'⟩ := List.of_mem_zip hmem
  have hindexed := indexed_of_schemas h.derived s hs
  have hindexed' := indexed_of_schemas h'.derived s' hs'
  exact ⟨hindexed.nodup_map_name, (h.named s hs).of_code_eq (h'.named s' hs') hindexed hindexed'
    (h.fields s hs) (h'.fields s' hs') (hcodes.2 hmem)⟩

/-- Schemas that make one module are of one kind each: first the implementations give the fields,
and then the constants keys and orders. -/
theorem Registry.Describes.alike {m : Module} (h : r.Describes ss) (h' : r'.Describes ss')
    (hm : Module.assemble ss path = .ok m) (hm' : Module.assemble ss' path = .ok m) :
    List.Forall₂ Schema.Alike ss ss' := by
  obtain ⟨-, -, hconstants, himpls⟩ := Module.assemble_eq_ok_iff.mp hm
  obtain ⟨-, -, hconstants', himpls'⟩ := Module.assemble_eq_ok_iff.mp hm'
  have hfields := h.fields_of_codes h' (himpls.symm.trans himpls')
  exact alike_of_constants hfields (hconstants.symm.trans hconstants')

/-- Modules for one path import from the same place, as the path is read before all else. -/
theorem Module.importPath_eq {m m' : Module} (hm : assemble ss path = .ok m)
    (hm' : assemble ss' path = .ok m') : m.importPath = m'.importPath := by
  obtain ⟨⟨leading, segments, names, hpath, hnames, himport⟩, -⟩ := assemble_eq_ok_iff.mp hm
  obtain ⟨⟨leading', segments', names', hpath', hnames', himport'⟩, -⟩ := assemble_eq_ok_iff.mp hm'
  cases hpath.symm.trans hpath'
  cases hnames.symm.trans hnames'
  exact himport.trans himport'.symm

/-- **Different models make different modules.** Take two models whose names are identifiers, with
modules that are generated for one import path. Each module can be read. If both have the same
tokens, then the models have the same keys and type names in the same order, and for each of them
the same fields, of which those that are indexed are declared in the same order. So a file with the
module of one model is not taken for up to date when the module of another one is to be written. -/
theorem alike_of_same_tokens {m m' : Module} (h : r.Describes ss) (h' : r'.Describes ss')
    (hm : Module.assemble ss path = .ok m) (hm' : Module.assemble ss' path = .ok m') :
    (∃ ts, readTrees m.text = some ts) ∧
    (readTrees m.text = readTrees m'.text → List.Forall₂ Schema.Alike ss ss') ∧
    ∀ (t : FileTree) (p : OutputPath), t.node? p.place = some (.file m.text.toUTF8) →
      (r'.writeModule path t p).result = .ok false → List.Forall₂ Schema.Alike ss ss' := by
  have hlexical := Module.lexical_of_assemble hm
  have hlexical' := Module.lexical_of_assemble hm'
  have htokens : readTrees m.text = readTrees m'.text → List.Forall₂ Schema.Alike ss ss' := by
    intro heq
    have hsame := Module.eq_of_readTrees_eq hlexical hlexical' (Module.importPath_eq hm hm') heq
    exact h.alike h' hm (hsame ▸ hm')
  refine ⟨?_, htokens, fun t p hfile hresult => ?_⟩
  · obtain ⟨ts, hts, -⟩ := Module.readTrees_text hlexical
    exact ⟨ts, hts⟩
  · -- a file is up to date if it has the text that is to be written, so both texts are one
    have hsaved := (Registry.writeModule_of_ok (Registry.generate_of_schemas h'.derived hm') t p).2
    rw [hresult] at hsaved
    have hcontent := (FileTree.save_ok (Prod.ext rfl hsaved.symm)).changed_iff.mp rfl
    have htext : some m.text = some m'.text :=
      (FileTree.readText?_eq_some_iff.mpr hfile).symm.trans
        (FileTree.readText?_eq_some_iff.mpr hcontent)
    exact htokens (congrArg readTrees (Option.some.inj htext))

end Describes

namespace Sample

theorem schemas_insert {key : String} {e : Entity} {s : Schema}
    (h : Schema.derive key e = .ok s) : (Registry.insert {} key e).schemas = .ok [s] := by
  refine Registry.schemas_eq_ok_iff.mpr ⟨[(key, e)], ?_, .cons h .nil⟩
  show Registry.collapse ([(key, e)].mergeSort Registry.entryLE) = _
  rw [List.mergeSort_singleton]
  rfl

theorem wellNamed_crossed : crossedSchema.WellNamed := by
  refine indexed_crossed.wellNamed_iff.mpr ⟨rfl, fun p hp => ?_⟩
  rcases List.mem_pair.mp hp with rfl | rfl
  · rfl
  · rfl

theorem perm_crossed : crossedSchema.fields.Perm crossedBackSchema.fields := List.Perm.swap _ _ _

theorem indexed_crossedBack : crossedBackSchema.Indexed :=
  (Schema.derive_ok derive_crossedBack).indexed

theorem describes_crossed : (Registry.insert {} "Post" crossed).Describes [crossedSchema] where
  derived := schemas_insert derive_crossed
  named := List.forall_mem_singleton.mpr wellNamed_crossed
  fields := List.forall_mem_singleton.mpr (by decide)

theorem describes_crossedBack :
    (Registry.insert {} "Post" crossedBack).Describes [crossedBackSchema] where
  derived := schemas_insert derive_crossedBack
  named := List.forall_mem_singleton.mpr (indexed_crossedBack.wellNamed_iff.mpr
    ⟨rfl, fun p hp => wellNamed_crossed.fields p (perm_crossed.mem_iff.mpr hp)⟩)
  fields := List.forall_mem_singleton.mpr (by decide)

theorem assemble_crossedBack : Module.assemble [crossedBackSchema] "super" =
    Module.assemble [crossedSchema] "super" := by
  have hcode : crossedSchema.implementation = crossedBackSchema.implementation :=
    Schema.implementation_of_perm indexed_crossed indexed_crossedBack rfl perm_crossed (by decide)
  have hconstants : intendedConstants [crossedBackSchema] = intendedConstants [crossedSchema] :=
    rfl
  unfold Module.assemble
  simp only [hconstants, List.mapM_cons, hcode]

/-- The file that is written for the one order of declarations is up to date for the other one. -/
theorem alike_of_same_tokens_crossed : crossedSchema ≠ crossedBackSchema ∧
    ∃ m, Module.assemble [crossedSchema] "super" = .ok m ∧
      Module.assemble [crossedBackSchema] "super" = .ok m ∧
      ∃ t : FileTree, t.node? apart.place = some (.file m.text.toUTF8) ∧
        ((Registry.insert {} "Post" crossedBack).writeModule "super" t apart).result = .ok false ∧
        List.Forall₂ Schema.Alike [crossedSchema] [crossedBackSchema] := by
  obtain ⟨m, hm⟩ : ∃ m, Module.assemble [crossedSchema] "super" = .ok m :=
    ⟨_, assemblable_crossed.assemble_super⟩
  have hm' := assemble_crossedBack.trans hm
  obtain ⟨-, -, hskip⟩ := alike_of_same_tokens describes_crossed describes_crossedBack hm hm'
  have hgenerate := Registry.generate_of_schemas describes_crossedBack.derived hm'
  have hok : (FileTree.save {} apart m.text).2 = .ok true := rfl
  obtain ⟨t, hsaved⟩ : ∃ t, FileTree.Saved {} t apart m.text true :=
    ⟨_, FileTree.save_ok (Prod.ext rfl hok)⟩
  have hresult := (Registry.writeModule_of_ok hgenerate t apart).2
  rw [hsaved.again] at hresult
  exact ⟨by decide, m, hm, hm', t, hsaved.content, hresult, hskip t apart hsaved.content hresult⟩

end Sample

end StoreModel
