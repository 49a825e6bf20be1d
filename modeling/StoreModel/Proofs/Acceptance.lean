import Mathlib.Data.List.Induction
import Mathlib.Data.List.Nodup
import StoreModel.Proofs.Collisions
import StoreModel.Proofs.WordReading

/-!
# When well-named models are accepted

A model whose types and fields are named by plain identifiers can be refused for one reason only:
two of its constants would have one name. This file says so exactly. `claims` lists the names that
the constants of a model are going to have, with whom each is for, and says nothing of how a module
is made; assembling succeeds if no name in that list repeats, and otherwise fails with the first
claim that comes too late (`FirstRepeat`).

That no other error is in the way rests on `Ident.read_self`: a name that is put together from the
names of a type and a field is a word again, and none of the keywords is put together like that. The
last section looks at two fields of one type. Their constants can only meet if one field is named
like the other with the end of a query behind it, because no end of a query stands behind another.
-/

set_option autoImplicit false

namespace StoreModel

open StoreModel.Source StoreModel.Text

/-! ## What a model claims -/

/-- A name that a constant is going to have, with the type and the field it is for. -/
structure Claim where
  name : String
  typeName : String
  field : String
deriving DecidableEq

/-- What the names of the constants for a field end with. -/
def querySuffixes : List String := ["", "_asc", "_desc", "_gt", "_gte", "_lt", "_lte"]

/-- The claims for a field: one name for each query, put together from the names of the type and the
field as they are without the mark of a raw name. -/
def StoredField.claims (typeName : String) (p : StoredField) : List Claim :=
  querySuffixes.map fun e =>
    { name := Ident.dropMark typeName ++ "_" ++ Ident.dropMark p.field ++ e
      typeName
      field := p.field }

/-- The claims of a schema: the constant for its key, and those for the fields that are indexed. -/
def Schema.claims (s : Schema) : List Claim :=
  { name := Ident.dropMark s.typeName ++ "Kind", typeName := s.typeName, field := "kind" } ::
    s.indexed.flatMap (StoredField.claims s.typeName)

def claims (ss : List Schema) : List Claim := ss.flatMap Schema.claims

/-- A claim for a name that was claimed before, while no earlier claim was. -/
def FirstRepeat (cs : List Claim) (c : Claim) : Prop :=
  ∃ earlier later, cs = earlier ++ c :: later ∧ (earlier.map (·.name)).Nodup ∧
    c.name ∈ earlier.map (·.name)

/-- Either no name repeats or there is a first claim that comes too late. The induction goes by the
last claim, because whether one is too late depends on those ahead of it. -/
theorem nodup_or_firstRepeat (cs : List Claim) :
    (cs.map (·.name)).Nodup ∨ ∃ c, FirstRepeat cs c := by
  induction cs using List.reverseRecOn with
  | nil => exact Or.inl List.nodup_nil
  | append_singleton cs c ih =>
    rcases ih with hnodup | ⟨d, earlier, later, rfl, hd⟩
    · by_cases hmem : c.name ∈ cs.map (·.name)
      · exact Or.inr ⟨c, cs, [], rfl, hnodup, hmem⟩
      · left
        rw [List.map_append, List.map_singleton]
        refine List.nodup_append.mpr ⟨hnodup, List.nodup_singleton _, fun a ha b hb => ?_⟩
        rw [List.mem_singleton.mp hb]
        rintro rfl
        exact hmem ha
    · exact Or.inr ⟨d, earlier, later ++ [c], by simp, hd⟩

/-! ## Claims and constants -/

def Intended.toClaim (x : String × Intended) : Claim := ⟨x.2.name, x.1, x.2.field⟩

theorem Schema.map_toClaim (s : Schema) :
    s.constants.map (fun c => Intended.toClaim (s.typeName, c)) = s.claims := by
  unfold constants claims
  rw [List.map_cons, List.map_flatMap]
  rfl

theorem map_toClaim (ss : List Schema) :
    (intendedConstants ss).map Intended.toClaim = claims ss := by
  unfold intendedConstants claims
  rw [List.map_flatMap]
  refine List.flatMap_congr fun s _ => ?_
  rw [List.map_map, ← s.map_toClaim]
  rfl

theorem intendedNames_eq (ss : List Schema) : intendedNames ss = (claims ss).map (·.name) := by
  unfold intendedNames
  rw [← map_toClaim, List.map_map]
  rfl

/-- Where all names are identifiers, the first name that repeats is refused. The induction is on the
claims ahead of it, of which each one adds its name to those that are taken and changes nothing
else. -/
theorem claimAll_of_repeat {seen : List String} {l r : List (String × Intended)}
    {x : String × Intended} (hread : ∀ y ∈ l, ∃ id, Ident.read y.2.name = .ok id)
    (hfree : ∀ y ∈ l, y.2.name ∉ seen) (hnodup : (l.map (·.2.name)).Nodup)
    (hx : x.2.name ∈ seen ∨ x.2.name ∈ l.map (·.2.name)) :
    claimAll seen (l ++ x :: r) =
      .error (.model (.constantCollision x.2.name x.1 x.2.field)) := by
  induction l generalizing seen with
  | nil =>
    have hseen : x.2.name ∈ seen := hx.elim id fun h => absurd h (by simp)
    obtain ⟨t, c⟩ := x
    rw [List.nil_append, claimAll, claim, if_pos (List.contains_iff_mem.mpr hseen)]
    rfl
  | cons y l ih =>
    rw [List.map_cons, List.nodup_cons] at hnodup
    have hclaim : claim seen y.1 y.2 = .ok y.2.constant :=
      claim_eq_ok_iff.mpr
        ⟨⟨hfree y List.mem_cons_self, hread y List.mem_cons_self⟩, rfl⟩
    -- the name that was claimed joins those before, and the rest is new to them too
    have hfree' : ∀ z ∈ l, z.2.name ∉ y.2.name :: seen := by
      intro z hz
      rw [List.mem_cons]
      rintro (heq | hold)
      · exact hnodup.1 (List.mem_map.mpr ⟨z, hz, heq⟩)
      · exact hfree z (List.mem_cons_of_mem _ hz) hold
    have hx' : x.2.name ∈ y.2.name :: seen ∨ x.2.name ∈ l.map (·.2.name) := by
      rw [List.map_cons, List.mem_cons] at hx
      rw [List.mem_cons]
      tauto
    have hrest : claimAll (y.2.name :: seen) (l ++ x :: r) =
        .error (.model (.constantCollision x.2.name x.1 x.2.field)) :=
      ih (fun z hz => hread z (List.mem_cons_of_mem _ hz)) hfree' hnodup.2 hx'
    obtain ⟨t, c⟩ := y
    rw [List.cons_append, claimAll, hclaim]
    show (claimAll (c.name :: seen) (l ++ x :: r) >>= _) = _
    rw [hrest]
    rfl

/-! ## Well-named models -/

/-- The names of a schema are identifiers with nothing around them: read as one, each is the
identifier that is written like it. -/
structure Schema.WellNamed (s : Schema) : Prop where
  typeName : Ident.read s.typeName = .ok ⟨s.typeName⟩
  fields : ∀ p ∈ s.fields, Ident.read p.field = .ok ⟨p.field⟩
  sequences : ∀ f ∈ s.sequenceFields, Ident.read f = .ok ⟨f⟩

namespace Schema.WellNamed

variable {s : Schema}

theorem plainlyNamed (h : s.WellNamed) : s.PlainlyNamed :=
  ⟨h.typeName, fun p hp => h.fields p (List.mem_filter.mp hp).1⟩

theorem readable (h : s.WellNamed) : s.Readable where
  typeName := ⟨_, h.typeName⟩
  sequences f hf := ⟨_, h.sequences f hf⟩
  byName p hp := ⟨_, h.fields p (mem_of_mem_byName hp)⟩
  byField p hp := ⟨_, h.fields p (mem_of_mem_byField hp)⟩

end Schema.WellNamed

/-- The sequences of a schema are fields of it, so the names of these are enough. -/
theorem Schema.Indexed.wellNamed_iff {s : Schema} (h : s.Indexed) :
    s.WellNamed ↔ Ident.read s.typeName = .ok ⟨s.typeName⟩ ∧
      ∀ p ∈ s.fields, Ident.read p.field = .ok ⟨p.field⟩ := by
  refine ⟨fun hw => ⟨hw.typeName, hw.fields⟩, fun ⟨htype, hfields⟩ => ⟨htype, hfields, ?_⟩⟩
  intro f hf
  obtain ⟨p, hp, -, rfl⟩ := h.mem_sequenceFields.mp hf
  exact hfields p hp

theorem not_suffix_of_mem_keywords :
    ∀ k ∈ keywords, ¬ "Kind".toList <:+ k.toList := by decide

theorem eq_underscore_of_mem_keywords : ∀ k ∈ keywords, '_' ∈ k.toList → k.toList = ['_'] := by
  decide

/-- The constant for a key is no keyword, whatever the type is called: no keyword ends like it. -/
theorem isKeyword_keyConstant (t : String) : isKeyword (keyConstant t) = false := by
  rw [Bool.eq_false_iff]
  intro hkey
  refine not_suffix_of_mem_keywords _ (List.contains_iff_mem.mp hkey) ?_
  rw [keyConstant, String.toList_append]
  exact List.suffix_append _ _

/-- Nor is a constant for a query: it has an underscore inside, and the only keyword with one
consists of nothing else. -/
theorem isKeyword_queryConstant {t : String} (ht : PlainWord (Ident.dropMark t).toList)
    (f : String) (q : Query) : isKeyword (queryConstant t f q) = false := by
  rw [Bool.eq_false_iff]
  intro hkey
  obtain ⟨c, r, hcr, -, -⟩ := ht
  have hlist : (queryConstant t f q).toList =
      c :: (r ++ '_' :: ((Ident.dropMark f).toList ++ q.suffix.toList)) := by
    simp [queryConstant, hcr]
  have heq := eq_underscore_of_mem_keywords _ (List.contains_iff_mem.mp hkey) (by simp [hlist])
  rw [hlist] at heq
  -- there is a character in front of the underscore, and a keyword with one has no other
  have htail := congrArg List.length heq
  simp at htail

theorem isKeyword_of_mem_intendedNames {ss : List Schema} (h : ∀ s ∈ ss, s.WellNamed) {n : String}
    (hn : n ∈ intendedNames ss) : isKeyword n = false := by
  obtain ⟨x, hx, rfl⟩ := List.mem_map.mp hn
  obtain ⟨s, hs, hxs⟩ := List.mem_flatMap.mp hx
  obtain ⟨c, hc, rfl⟩ := List.mem_map.mp hxs
  rcases List.mem_cons.mp hc with rfl | hquery
  · exact isKeyword_keyConstant _
  · obtain ⟨p, -, hcp⟩ := List.mem_flatMap.mp hquery
    obtain ⟨q, -, rfl⟩ := List.mem_map.mp hcp
    exact isKeyword_queryConstant (Ident.plainWord_dropMark (h s hs).typeName) _ _

theorem read_of_mem_intendedNames {ss : List Schema} (h : ∀ s ∈ ss, s.WellNamed) {n : String}
    (hn : n ∈ intendedNames ss) : ∃ id, Ident.read n = .ok id :=
  ⟨_, Ident.read_self (plainWord_of_mem_intendedNames (fun s hs => (h s hs).plainlyNamed) hn)
    (isKeyword_of_mem_intendedNames h hn)⟩

/-! ## Acceptance -/

variable {ss : List Schema}

/-- A well-named model is accepted if no name repeats, and the converse holds of any model.
Everything else that assembling asks for follows from the names. -/
theorem assemble_super_ok (h : ∀ s ∈ ss, s.WellNamed) :
    (∃ m, Module.assemble ss "super" = .ok m) ↔ ((claims ss).map (·.name)).Nodup := by
  rw [← intendedNames_eq]
  constructor
  · rintro ⟨m, hm⟩
    exact (Module.assemble_eq_ok_iff.mp hm).2.1.names
  · intro hnodup
    have hok : Assemblable ss :=
      ⟨hnodup, fun n hn => read_of_mem_intendedNames h hn, fun s hs => (h s hs).readable⟩
    exact ⟨_, hok.assemble_super⟩

/-- A well-named model with a claim that comes too late is refused for that claim. The split of the
claims is carried over to the constants, whose check stops at the same place. -/
theorem assemble_super_error (h : ∀ s ∈ ss, s.WellNamed) {c : Claim}
    (hc : FirstRepeat (claims ss) c) :
    Module.assemble ss "super" =
      .error (.model (.constantCollision c.name c.typeName c.field)) := by
  obtain ⟨earlier, later, hsplit, hnodup, hmem⟩ := hc
  rw [← map_toClaim] at hsplit
  obtain ⟨l, r', hl, rfl, hr⟩ := List.map_eq_append_iff.mp hsplit
  obtain ⟨x, r, rfl, rfl, -⟩ := List.map_eq_cons_iff.mp hr
  have hnames : (l.map Intended.toClaim).map (·.name) = l.map (·.2.name) := by
    rw [List.map_map]
    rfl
  rw [hnames] at hnodup hmem
  have hread : ∀ y ∈ l, ∃ id, Ident.read y.2.name = .ok id := fun y hy =>
    read_of_mem_intendedNames h (List.mem_map_of_mem (hl ▸ List.mem_append_left _ hy))
  have hclaims : claimAll [] (l ++ x :: r) =
      .error (.model (.constantCollision x.2.name x.1 x.2.field)) :=
    claimAll_of_repeat hread (fun _ _ => by simp) hnodup (Or.inr hmem)
  unfold Module.assemble
  rw [readTypePath_super, hl, hclaims]
  rfl

/-! ## Two fields of one type -/

/-- A field is named like another one, with the end of a query behind it. -/
def Extends (g f : StoredField) : Prop :=
  ∃ e ∈ querySuffixes, Ident.dropMark g.field = Ident.dropMark f.field ++ e

/-- In the end of a query an underscore is the first character or none. -/
theorem underscore_not_mem_tail : ∀ e ∈ querySuffixes, '_' ∉ e.toList.tail := by decide

theorem head_of_mem_querySuffixes : ∀ e ∈ querySuffixes, e = "" ∨ '_' ∈ e.toList := by decide

/-- What stands in front of the end of a query inside another one is again such an end. It could
only be cut at an underscore, and there is one at most, which stands first. -/
theorem mem_querySuffixes_of_append {u a b : String} (ha : a ∈ querySuffixes)
    (hb : b ∈ querySuffixes) (h : a = u ++ b) : u ∈ querySuffixes := by
  rcases head_of_mem_querySuffixes b hb with rfl | hunder
  · rw [String.append_empty] at h
    exact h ▸ ha
  · cases hu : u.toList with
    | nil =>
      rw [String.toList_eq_nil_iff.mp hu]
      exact List.mem_cons_self
    | cons c r =>
      -- the underscore of the second end would be a later character of the first
      have htail : a.toList.tail = r ++ b.toList := by
        rw [h, String.toList_append, hu]
        rfl
      have hmem : '_' ∈ a.toList.tail := by
        rw [htail]
        exact List.mem_append_right _ hunder
      exact absurd hmem (underscore_not_mem_tail a ha)

/-- If two names with ends of queries behind them are equal, one of the names is the other with
something behind it, and by the lemma above that is the end of a query too. -/
theorem extends_of_append_eq {f g : StoredField} {a b : String} (ha : a ∈ querySuffixes)
    (hb : b ∈ querySuffixes)
    (h : Ident.dropMark f.field ++ a = Ident.dropMark g.field ++ b) :
    Extends g f ∨ Extends f g := by
  have hlist := congrArg String.toList h
  rw [String.toList_append, String.toList_append] at hlist
  rcases List.append_eq_append_iff.mp hlist with ⟨u, hg, hu⟩ | ⟨u, hf, hu⟩
  · refine Or.inl ⟨String.ofList u, mem_querySuffixes_of_append ha hb ?_, ?_⟩
    · rw [← String.toList_inj, hu, String.toList_append, String.toList_ofList]
    · rw [← String.toList_inj, hg, String.toList_append, String.toList_ofList]
  · refine Or.inr ⟨String.ofList u, mem_querySuffixes_of_append hb ha ?_, ?_⟩
    · rw [← String.toList_inj, hu, String.toList_append, String.toList_ofList]
    · rw [← String.toList_inj, hf, String.toList_append, String.toList_ofList]

/-- Two fields of one type claim a common name just where one is named like the other with the end
of a query behind it. The name of the type stands in front of both and cancels. -/
theorem exists_common_claim_iff {t : String} {p q : StoredField} :
    (∃ a ∈ p.claims t, ∃ b ∈ q.claims t, a.name = b.name) ↔ Extends p q ∨ Extends q p := by
  constructor
  · rintro ⟨a, ha, b, hb, hname⟩
    obtain ⟨x, hx, rfl⟩ := List.mem_map.mp ha
    obtain ⟨y, hy, rfl⟩ := List.mem_map.mp hb
    have hcancel : Ident.dropMark p.field ++ x = Ident.dropMark q.field ++ y := by
      have hlist := congrArg String.toList hname
      simp only [String.toList_append, List.append_assoc, List.append_cancel_left_eq] at hlist
      rw [← String.toList_inj, String.toList_append, String.toList_append, hlist]
    exact (extends_of_append_eq hx hy hcancel).symm
  · have hself : "" ∈ querySuffixes := List.mem_cons_self
    rintro (⟨e, he, hp⟩ | ⟨e, he, hq⟩)
    · exact ⟨_, List.mem_map_of_mem hself, _, List.mem_map_of_mem he, by
        simp only [hp, String.append_empty, String.append_assoc]⟩
    · exact ⟨_, List.mem_map_of_mem he, _, List.mem_map_of_mem hself, by
        simp only [hq, String.append_empty, String.append_assoc]⟩

theorem StoredField.nodup_claims (t : String) (p : StoredField) :
    ((p.claims t).map (·.name)).Nodup := by
  unfold claims
  rw [List.map_map]
  refine List.Nodup.map (fun a b hab => ?_) (by decide)
  have hlist := congrArg String.toList hab
  simp only [Function.comp_apply, String.toList_append, List.append_cancel_left_eq] at hlist
  exact String.toList_inj.mp hlist

/-- The claim for the key is no claim for a field of the same type: behind the name of the type the
one goes on with a letter and the others with an underscore. -/
theorem keyConstant_not_mem (s : Schema) :
    Ident.dropMark s.typeName ++ "Kind" ∉
      s.indexed.flatMap fun p => (p.claims s.typeName).map (·.name) := by
  intro hmem
  obtain ⟨p, -, hp⟩ := List.mem_flatMap.mp hmem
  obtain ⟨c, hc, hname⟩ := List.mem_map.mp hp
  obtain ⟨e, -, rfl⟩ := List.mem_map.mp hc
  have hlist := congrArg String.toList hname
  simp [String.toList_append] at hlist

/-- Within one type names repeat just between two fields of which one extends the other. The claims
of a field are apart among themselves, and the claim for the key from all of them. -/
theorem Schema.nodup_claims_iff (s : Schema) :
    (s.claims.map (·.name)).Nodup ↔
      s.indexed.Pairwise fun p q => ¬ (Extends p q ∨ Extends q p) := by
  have hmap : s.claims.map (·.name) = (Ident.dropMark s.typeName ++ "Kind") ::
      s.indexed.flatMap fun p => (p.claims s.typeName).map (·.name) := by
    unfold claims
    rw [List.map_cons, List.map_flatMap]
  rw [hmap, List.nodup_cons, List.nodup_flatMap]
  -- a common name of two lists of claims is a claim in each, which is what the lemma speaks of
  have hdisjoint : ∀ p q : StoredField,
      List.Disjoint ((p.claims s.typeName).map (·.name)) ((q.claims s.typeName).map (·.name)) ↔
        ¬ (Extends p q ∨ Extends q p) := by
    intro p q
    rw [← exists_common_claim_iff (t := s.typeName)]
    constructor
    · rintro hd ⟨a, ha, b, hb, hname⟩
      exact hd (List.mem_map_of_mem ha) (hname ▸ List.mem_map_of_mem hb)
    · intro hnone n hn hn'
      obtain ⟨a, ha, rfl⟩ := List.mem_map.mp hn
      obtain ⟨b, hb, hname⟩ := List.mem_map.mp hn'
      exact hnone ⟨a, ha, b, hb, hname.symm⟩
  constructor
  · rintro ⟨-, -, hpair⟩
    exact hpair.imp fun {p q} h => (hdisjoint p q).mp h
  · intro hpair
    exact ⟨keyConstant_not_mem s, fun p _ => p.nodup_claims s.typeName,
      hpair.imp fun {p q} h => (hdisjoint p q).mpr h⟩

/-! ## Exact acceptance -/

/-- **Which well-named models are accepted.** Those in whose list of claims no name repeats; any
other is refused with the first claim for a name that was claimed before, and for no other reason.
Within one type it is fields that are named like others with the end of a query behind them which
make names repeat, and for a model of this type alone nothing else does. -/
theorem wellNamed_accepted_iff (h : ∀ s ∈ ss, s.WellNamed) :
    ((∃ m, Module.assemble ss "super" = .ok m) ↔ ((claims ss).map (·.name)).Nodup) ∧
    (∀ err, Module.assemble ss "super" = .error err ↔ ∃ c, FirstRepeat (claims ss) c ∧
      err = .model (.constantCollision c.name c.typeName c.field)) ∧
    ∀ s ∈ ss,
      (∀ p ∈ s.indexed, ∀ q ∈ s.indexed,
        (∃ a ∈ p.claims s.typeName, ∃ b ∈ q.claims s.typeName, a.name = b.name) ↔
          Extends p q ∨ Extends q p) ∧
      ((∃ m, Module.assemble [s] "super" = .ok m) ↔
        s.indexed.Pairwise fun p q => ¬ (Extends p q ∨ Extends q p)) := by
  refine ⟨assemble_super_ok h, fun err => ⟨fun herr => ?_, ?_⟩, fun s hs =>
    ⟨fun p _ q _ => exists_common_claim_iff, ?_⟩⟩
  · -- an error cannot be had without a repetition, and with one it is the error for the first
    rcases nodup_or_firstRepeat (claims ss) with hnodup | ⟨c, hc⟩
    · obtain ⟨m, hm⟩ := (assemble_super_ok h).mpr hnodup
      rw [hm] at herr
      cases herr
    · rw [assemble_super_error h hc] at herr
      cases herr
      exact ⟨c, hc, rfl⟩
  · rintro ⟨c, hc, rfl⟩
    exact assemble_super_error h hc
  · have hone : ∀ s' ∈ [s], s'.WellNamed := fun s' hs' => List.mem_singleton.mp hs' ▸ h s hs
    have hclaims : claims [s] = s.claims := List.flatMap_singleton _ _
    rw [assemble_super_ok hone, hclaims, s.nodup_claims_iff]

namespace Sample

/-- Posts with a raw name for their type and one of their fields; the other field is named like it
with the end of a query behind it. -/
def ranked : Entity :=
  { typeName := "r#Post"
    fields := [stored "r#type" "kind" .string, stored "type_gt" "above" .i64] }

def rankedSchema : Schema :=
  .ofFields "Post" "r#Post"
    [⟨"r#type", "kind", .string, false, false⟩, ⟨"type_gt", "above", .int64, false, false⟩]

theorem derive_ranked : Schema.derive "Post" ranked = .ok rankedSchema := rfl

theorem wellNamed_ranked : rankedSchema.WellNamed := by
  refine (Schema.derive_ok derive_ranked).indexed.wellNamed_iff.mpr ⟨rfl, fun p hp => ?_⟩
  rcases List.mem_pair.mp hp with rfl | rfl
  · rfl
  · rfl

/-- The constant for values above a type has the name of one for the other field. -/
theorem wellNamed_accepted_iff_ranked :
    Schema.derive "Post" ranked = .ok rankedSchema ∧
      Module.assemble [rankedSchema] "super" =
        .error (.model (.constantCollision "Post_type_gt" "r#Post" "type_gt")) := by
  have h : ∀ s ∈ [rankedSchema], s.WellNamed := fun s hs =>
    List.mem_singleton.mp hs ▸ wellNamed_ranked
  refine ⟨derive_ranked, ((wellNamed_accepted_iff h).2.1 _).mpr
    ⟨⟨"Post_type_gt", "r#Post", "type_gt"⟩, ⟨(claims [rankedSchema]).take 8,
      (claims [rankedSchema]).drop 9, ?_, ?_, ?_⟩, rfl⟩⟩
  · decide
  · decide
  · decide

end Sample

end StoreModel
