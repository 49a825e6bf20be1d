import StoreModel.Proofs.Acceptance

/-!
# Where the constants of two types meet

The names of constants are put together from the name of a type, the name of a field and the end of
a query, with one underscore between type and field. Names may have underscores of their own, so a
name does not always tell where its type ends. This file says when two names from different places
are the same text. In every case the name of one type is that of the other with an underscore and
more behind it (`Prolongs`): `Post_tagKind` is both for the key of `Post_tag` and for the field
`tagKind` of `Post`.

So the types are kept apart (`KeptApart`) wherever no type name prolongs another, in particular
where no type name has an underscore, and a module that is refused for a collision is then refused
for two fields of one type. For this one has to know which two constants have collided. They stand
one before the other in the list of all constants, so what is to be said of them is said of every
pair in that list.
-/

set_option autoImplicit false

namespace StoreModel

open StoreModel.Source

/-! ## Texts with an underscore in them -/

/-- The second type is named like the first, with an underscore and any text behind it. -/
def Prolongs (t t' : String) : Prop := ∃ u, Ident.dropMark t' = Ident.dropMark t ++ "_" ++ u

/-- A type without an underscore in its name prolongs no other, which is the usual case. -/
theorem not_prolongs_of_not_mem {t t' : String} (h : '_' ∉ (Ident.dropMark t').toList) :
    ¬ Prolongs t t' := by
  rintro ⟨u, hu⟩
  apply h
  rw [hu]
  simp

/-- No type prolongs itself, as it would be longer than it is. -/
theorem not_prolongs_self (t : String) : ¬ Prolongs t t := by
  rintro ⟨u, hu⟩
  have hlength := congrArg String.length hu
  simp only [String.length_append] at hlength
  have hunder : "_".length = 1 := rfl
  omega

/-- No end of a query ends like the name of a key, but the empty one behind which a field may end
like it. The last characters are enough to see this. -/
theorem Query.eq_equal_of_kind {x y : String} {q : Query} (h : x ++ "Kind" = y ++ q.suffix) :
    q = equal := by
  have hlast := congrArg (fun s => s.toList.getLast?) h
  cases q with
  | equal => rfl
  | ascending | descending | greater | atLeast | less | atMost =>
    simp [suffix, String.toList_append] at hlast

/-- In front of the end of a key's name there is the whole of the type and its underscore. The two
ways to split the text are compared; in the other one the underscore would fall into the word
`Kind`. -/
theorem exists_of_append_kind_eq {a t f : String} (h : a ++ "Kind" = t ++ "_" ++ f) :
    ∃ u, a = t ++ "_" ++ u ∧ f = u ++ "Kind" := by
  have hlist := congrArg String.toList h
  rw [String.toList_append, String.toList_append] at hlist
  rcases List.append_eq_append_iff.mp hlist with ⟨u, htype, hkind⟩ | ⟨u, ha, hf⟩
  · -- the underscore would be one of the characters of the ending
    cases u using List.reverseRecOn with
    | nil =>
      refine ⟨"", ?_, ?_⟩
      · rw [String.append_empty, ← String.toList_inj, htype, List.append_nil]
      · rw [← String.toList_inj]
        exact hkind.symm
    | append_singleton u c =>
      rw [String.toList_append, ← List.append_assoc] at htype
      obtain ⟨-, hc⟩ := List.append_inj' htype rfl
      have hmem : '_' ∈ "Kind".toList := by
        rw [hkind, ← hc]
        simp
      exact absurd hmem (by decide)
  · -- the type and its underscore end before the ending begins
    refine ⟨String.ofList u, ?_, ?_⟩
    · rw [← String.toList_inj, ha]
      simp
    · rw [← String.toList_inj, hf]
      simp

/-- One side of the next lemma: where the second type is the longer one, what it has more begins
with the underscore that ends the first. -/
theorem exists_of_cons_eq {t t' x y : String} {u : List Char} (hne : t ≠ t')
    (htype : t'.toList = t.toList ++ u) (hrest : '_' :: x.toList = u ++ '_' :: y.toList) :
    ∃ w, t' = t ++ "_" ++ w ∧ x = w ++ "_" ++ y := by
  cases u with
  | nil => exact absurd (String.toList_inj.mp (htype.trans (List.append_nil _))).symm hne
  | cons c u =>
    rw [List.cons_append, List.cons.injEq] at hrest
    obtain ⟨rfl, hx⟩ := hrest
    refine ⟨String.ofList u, ?_, ?_⟩
    · rw [← String.toList_inj, htype]
      simp
    · rw [← String.toList_inj, hx]
      simp

/-- Two texts that go on after an underscore are the same only if one begins like the other. Which
of the two is longer is not known, and the cases are the same with the types exchanged. -/
theorem exists_of_append_underscore_eq {t t' x y : String} (hne : t ≠ t')
    (h : t ++ "_" ++ x = t' ++ "_" ++ y) :
    ∃ u, (t' = t ++ "_" ++ u ∧ x = u ++ "_" ++ y) ∨ (t = t' ++ "_" ++ u ∧ y = u ++ "_" ++ x) := by
  have hlist : t.toList ++ '_' :: x.toList = t'.toList ++ '_' :: y.toList := by
    have hchars := congrArg String.toList h
    simpa using hchars
  rcases List.append_eq_append_iff.mp hlist with ⟨v, htype, hrest⟩ | ⟨v, htype, hrest⟩
  · obtain ⟨u, hu⟩ := exists_of_cons_eq hne htype hrest
    exact ⟨u, Or.inl hu⟩
  · obtain ⟨u, hu⟩ := exists_of_cons_eq hne.symm htype hrest
    exact ⟨u, Or.inr hu⟩

/-! ## Names of constants -/

/-- The name of a query with the name of its type cut off. -/
theorem queryConstant_eq (t f : String) (q : Query) :
    queryConstant t f q = Ident.dropMark t ++ "_" ++ (Ident.dropMark f ++ q.suffix) :=
  String.append_assoc

/-- The key of one type has the name of a query for another exactly if the field takes up the rest
of the type and the end of a key's name. The query can then only be the one without an end. -/
theorem keyConstant_eq_queryConstant_iff {t t' f : String} {q : Query} :
    keyConstant t' = queryConstant t f q ↔
      q = .equal ∧ ∃ u, Ident.dropMark t' = Ident.dropMark t ++ "_" ++ u ∧
        Ident.dropMark f = u ++ "Kind" := by
  unfold keyConstant queryConstant
  constructor
  · intro h
    obtain rfl := Query.eq_equal_of_kind h
    rw [Query.suffix, String.append_empty] at h
    exact ⟨rfl, exists_of_append_kind_eq h⟩
  · rintro ⟨rfl, u, htype, hfield⟩
    rw [htype, hfield, Query.suffix, String.append_empty, ← String.append_assoc]

/-- Queries of two types have one name exactly if one type prolongs the other and the field of the
shorter takes up what is missing. -/
theorem queryConstant_eq_iff {t t' f f' : String} {q q' : Query}
    (hne : Ident.dropMark t ≠ Ident.dropMark t') :
    queryConstant t f q = queryConstant t' f' q' ↔
      ∃ u, (Ident.dropMark t' = Ident.dropMark t ++ "_" ++ u ∧
          Ident.dropMark f ++ q.suffix = u ++ "_" ++ (Ident.dropMark f' ++ q'.suffix)) ∨
        (Ident.dropMark t = Ident.dropMark t' ++ "_" ++ u ∧
          Ident.dropMark f' ++ q'.suffix = u ++ "_" ++ (Ident.dropMark f ++ q.suffix)) := by
  rw [queryConstant_eq, queryConstant_eq]
  constructor
  · exact exists_of_append_underscore_eq hne
  · rintro ⟨u, ⟨htype, hfield⟩ | ⟨htype, hfield⟩⟩
    · rw [htype, hfield]
      simp only [String.append_assoc]
    · rw [htype, hfield]
      simp only [String.append_assoc]

theorem keyConstant_ne_own (t f : String) (q : Query) : keyConstant t ≠ queryConstant t f q := by
  intro h
  obtain ⟨-, u, hu, -⟩ := keyConstant_eq_queryConstant_iff.mp h
  exact not_prolongs_self t ⟨u, hu⟩

theorem Query.suffix_injective : Function.Injective suffix := by
  intro x y h
  cases x <;> cases y <;> first | rfl | exact absurd h (by decide)

theorem queryConstant_injective (t f : String) : Function.Injective (queryConstant t f) := by
  intro x y h
  have hlist := congrArg String.toList h
  simp only [queryConstant, String.toList_append, List.append_cancel_left_eq] at hlist
  exact Query.suffix_injective (String.toList_inj.mp hlist)

theorem Schema.mem_constants {s : Schema} {c : Intended} (h : c ∈ s.constants) :
    c.name = keyConstant s.typeName ∨
      ∃ p ∈ s.indexed, ∃ q, c.name = queryConstant s.typeName p.field q := by
  rcases List.mem_cons.mp h with rfl | hquery
  · exact Or.inl rfl
  · obtain ⟨p, hp, hc⟩ := List.mem_flatMap.mp hquery
    obtain ⟨q, -, rfl⟩ := List.mem_map.mp hc
    exact Or.inr ⟨p, hp, q, rfl⟩

/-- Where two types have a constant of one name, one of them prolongs the other. There are four
cases, as each constant is for a key or for a query; two keys of one name belong to one type. -/
theorem prolongs_of_common {s t : Schema}
    (hne : Ident.dropMark s.typeName ≠ Ident.dropMark t.typeName) {c d : Intended}
    (hc : c ∈ s.constants) (hd : d ∈ t.constants) (hname : c.name = d.name) :
    Prolongs s.typeName t.typeName ∨ Prolongs t.typeName s.typeName := by
  rcases Schema.mem_constants hc with hkey | ⟨p, -, x, hquery⟩
  · rcases Schema.mem_constants hd with hkey' | ⟨q, -, y, hquery'⟩
    · rw [hkey, hkey'] at hname
      exact absurd ((String.append_left_inj _).mp hname) hne
    · obtain ⟨-, u, hu, -⟩ := keyConstant_eq_queryConstant_iff.mp (hkey ▸ hquery' ▸ hname)
      exact Or.inr ⟨u, hu⟩
  · rcases Schema.mem_constants hd with hkey' | ⟨q, -, y, hquery'⟩
    · obtain ⟨-, u, hu, -⟩ := keyConstant_eq_queryConstant_iff.mp (hkey' ▸ hquery ▸ hname.symm)
      exact Or.inl ⟨u, hu⟩
    · obtain ⟨u, ⟨hu, -⟩ | ⟨hu, -⟩⟩ := (queryConstant_eq_iff hne).mp (hquery ▸ hquery' ▸ hname)
      · exact Or.inl ⟨u, hu⟩
      · exact Or.inr ⟨u, hu⟩

/-! ## What has collided -/

theorem identifier_ne_model (n : String) (e : SchemaError) : identifier n ≠ .error (.model e) := by
  intro h
  obtain ⟨_, -, hf⟩ := mapError_eq_error_iff.mp h
  cases hf

/-- A claim is refused for the model exactly if its text was claimed before. The error names the
constant, the type, and the field it is for. -/
theorem claim_eq_model_iff {seen : List String} {t : String} {c : Intended} {e : SchemaError} :
    claim seen t c = .error (.model e) ↔
      c.name ∈ seen ∧ e = .constantCollision c.name t c.field := by
  unfold claim
  by_cases hseen : c.name ∈ seen
  · rw [if_pos (List.contains_iff_mem.mpr hseen)]
    constructor
    · intro h
      cases h
      exact ⟨hseen, rfl⟩
    · rintro ⟨-, rfl⟩
      rfl
  · rw [if_neg fun h => hseen (List.contains_iff_mem.mp h), map_eq_error_iff]
    constructor
    · intro h
      exact absurd h (identifier_ne_model _ _)
    · rintro ⟨hmem, -⟩
      exact absurd hmem hseen

/-- A constant collides with a name from before or with a constant in front of it. The induction is
on the constants; a name that has been claimed on the way is the name of one that has been passed.
-/
theorem exists_of_claimAll_collision {seen : List String} {l : List (String × Intended)}
    {c t f : String} (h : claimAll seen l = .error (.model (.constantCollision c t f))) :
    ∃ y ∈ l, y.1 = t ∧ y.2.name = c ∧ y.2.field = f ∧
      (c ∈ seen ∨ ∃ x, [x, y].Sublist l ∧ x.2.name = c) := by
  induction l generalizing seen with
  | nil => cases h
  | cons x r ih =>
    obtain ⟨t', k⟩ := x
    rw [claimAll] at h
    rcases bind_eq_error_iff.mp h with hclaim | ⟨_, -, hrest⟩
    · -- this constant is the one that is refused, for a name from before
      obtain ⟨hmem, heq⟩ := claim_eq_model_iff.mp hclaim
      cases heq
      exact ⟨_, List.mem_cons_self, rfl, rfl, rfl, Or.inl hmem⟩
    · rcases bind_eq_error_iff.mp hrest with htail | ⟨_, -, hok⟩
      · obtain ⟨y, hy, ht, hc, hf, hbefore⟩ := ih htail
        refine ⟨y, List.mem_cons_of_mem _ hy, ht, hc, hf, ?_⟩
        rcases hbefore with hseen | ⟨x, hx, hxc⟩
        · -- among the names from before is now that of this constant, which stands in front of it
          rcases List.mem_cons.mp hseen with hhead | hseen
          · exact Or.inr ⟨_, (List.singleton_sublist.mpr hy).cons_cons _, hhead.symm⟩
          · exact Or.inl hseen
        · exact Or.inr ⟨x, hx.cons _, hxc⟩
      · cases hok

/-- Code is never refused for the model, as all that can fail in making it are identifiers. Each
pass is gone through once. -/
theorem Schema.implementation_ne_model (s : Schema) (e : SchemaError) :
    s.implementation ≠ .error (.model e) := by
  intro h
  unfold implementation at h
  rcases bind_eq_error_iff.mp h with htype | ⟨_, -, h⟩
  · exact identifier_ne_model _ _ htype
  rcases bind_eq_error_iff.mp h with hresets | ⟨_, -, h⟩
  · obtain ⟨f, -, hf⟩ := exists_of_mapM_eq_error hresets
    exact identifier_ne_model f e hf
  rcases bind_eq_error_iff.mp h with harms | ⟨_, -, h⟩
  · obtain ⟨p, -, hp⟩ := exists_of_mapM_eq_error harms
    exact identifier_ne_model p.field e (map_eq_error_iff.mp hp)
  rcases bind_eq_error_iff.mp h with hsavings | ⟨_, -, h⟩
  · obtain ⟨p, -, hp⟩ := exists_of_mapM_eq_error hsavings
    exact identifier_ne_model p.field e (map_eq_error_iff.mp hp)
  cases h

/-- Nothing but the constants of a model is refused for the model, so of a collision it is known
which check has failed, and that it has failed at the first one possible. -/
theorem claimAll_of_assemble_eq_model {ss : List Schema} {path : String} {e : SchemaError}
    (h : Module.assemble ss path = .error (.model e)) :
    claimAll [] (intendedConstants ss) = .error (.model e) := by
  unfold Module.assemble at h
  rcases bind_eq_error_iff.mp h with hpath | ⟨⟨leading, segments⟩, -, h⟩
  · obtain ⟨_, -, hf⟩ := mapError_eq_error_iff.mp hpath
    cases hf
  rcases bind_eq_error_iff.mp h with hclaims | ⟨_, -, h⟩
  · exact hclaims
  rcases bind_eq_error_iff.mp h with hcode | ⟨_, -, h⟩
  · obtain ⟨s, -, hs⟩ := exists_of_mapM_eq_error hcode
    exact absurd hs (s.implementation_ne_model e)
  rcases bind_eq_error_iff.mp h with himport | ⟨_, -, h⟩
  · obtain ⟨_, -, hf⟩ := mapError_eq_error_iff.mp himport
    cases hf
  cases h

/-! ## Types that are kept apart -/

/-- Two fields of the schema have a constant of the name `c`, and the later of them is `f`. -/
def Schema.SharedByFields (s : Schema) (c f : String) : Prop :=
  ∃ p q, [p, q].Sublist s.indexed ∧ q.field = f ∧
    ∃ x y, c = queryConstant s.typeName p.field x ∧ c = queryConstant s.typeName q.field y

/-- No constant of one type has the name of a constant of another, and every collision is between
two fields of one type. -/
structure KeptApart (ss : List Schema) : Prop where
  keys : ∀ s ∈ ss, ∀ t ∈ ss, ∀ p ∈ t.indexed, ∀ q,
    keyConstant s.typeName ≠ queryConstant t.typeName p.field q
  queries : ∀ s ∈ ss, ∀ t ∈ ss, s ≠ t → ∀ p ∈ s.indexed, ∀ q ∈ t.indexed, ∀ x y,
    queryConstant s.typeName p.field x ≠ queryConstant t.typeName q.field y
  collisions : ∀ path c t f,
    Module.assemble ss path = .error (.model (.constantCollision c t f)) →
      ∃ s ∈ ss, s.typeName = t ∧ s.SharedByFields c f

variable {ss : List Schema}

/-- Within one type it is only the constants of two fields that can have one name. The key meets
none of them, and the seven of one field differ. -/
theorem Schema.pairwise_constants (s : Schema) :
    s.constants.Pairwise fun c d => c.name = d.name → s.SharedByFields d.name d.field := by
  unfold constants
  rw [List.pairwise_cons, List.pairwise_flatMap]
  refine ⟨fun d hd hname => ?_, fun p _ => ?_, List.pairwise_iff_forall_sublist.mpr ?_⟩
  · obtain ⟨p, -, hdp⟩ := List.mem_flatMap.mp hd
    obtain ⟨q, -, rfl⟩ := List.mem_map.mp hdp
    exact absurd hname (keyConstant_ne_own _ _ _)
  · have hall : Query.all.Nodup := by decide
    refine List.pairwise_map.mpr (hall.imp fun {x y} hxy hname => ?_)
    exact absurd (queryConstant_injective _ _ hname) hxy
  · intro p q hpq c hc d hd hname
    obtain ⟨x, -, rfl⟩ := List.mem_map.mp hc
    obtain ⟨y, -, rfl⟩ := List.mem_map.mp hd
    exact ⟨p, q, hpq, rfl, x, y, hname.symm, rfl⟩

/-- For any two constants of a model, the earlier and the later: if they have one name, they are for
two fields of one type, or one of their types prolongs the other. It is said of pairs because a
collision is found as one. -/
theorem pairwise_intendedConstants
    (h : (ss.map fun s => Ident.dropMark s.typeName).Nodup) :
    (intendedConstants ss).Pairwise fun x y => x.2.name = y.2.name →
      ∃ s ∈ ss, s.typeName = y.1 ∧ (s.SharedByFields y.2.name y.2.field ∨
        ∃ t ∈ ss, Prolongs s.typeName t.typeName ∨ Prolongs t.typeName s.typeName) := by
  unfold intendedConstants
  rw [List.pairwise_flatMap]
  constructor
  · intro s hs
    refine List.pairwise_map.mpr (s.pairwise_constants.imp fun {c d} hcd hname => ?_)
    exact ⟨s, hs, rfl, Or.inl (hcd hname)⟩
  · refine List.Pairwise.imp_of_mem (fun {t s} ht hs hne x hx y hy hname => ?_)
      (List.pairwise_map.mp h)
    obtain ⟨c, hc, rfl⟩ := List.mem_map.mp hx
    obtain ⟨d, hd, rfl⟩ := List.mem_map.mp hy
    exact ⟨s, hs, rfl, Or.inr ⟨t, ht, (prolongs_of_common hne hc hd hname).symm⟩⟩

theorem exists_of_collision (h : (ss.map fun s => Ident.dropMark s.typeName).Nodup)
    {path c t f : String}
    (herr : Module.assemble ss path = .error (.model (.constantCollision c t f))) :
    ∃ s ∈ ss, s.typeName = t ∧ (s.SharedByFields c f ∨
      ∃ s' ∈ ss, Prolongs s.typeName s'.typeName ∨ Prolongs s'.typeName s.typeName) := by
  obtain ⟨y, -, rfl, rfl, rfl, hseen | ⟨x, hxy, hname⟩⟩ :=
    exists_of_claimAll_collision (claimAll_of_assemble_eq_model herr)
  · cases hseen
  · exact List.pairwise_iff_forall_sublist.mp (pairwise_intendedConstants h) hxy hname

/-- **Where the constants of two types meet.** The key of a type has the name of a query only if the
field of the query gives the rest of the type's name and the end of a key's name; two types have a
query of one name only if the field of one goes on with the rest of the other type and its field. So
the types are kept apart if none of them prolongs another, and a collision that is not between two
fields of one type is with a type that prolongs another or is prolonged by it. -/
theorem keptApart_of_not_prolongs (h : (ss.map fun s => Ident.dropMark s.typeName).Nodup) :
    (∀ s ∈ ss, ∀ t ∈ ss, ∀ p ∈ t.indexed, ∀ q,
      keyConstant s.typeName = queryConstant t.typeName p.field q ↔
        q = .equal ∧ ∃ u, Ident.dropMark s.typeName = Ident.dropMark t.typeName ++ "_" ++ u ∧
          Ident.dropMark p.field = u ++ "Kind") ∧
    (∀ s ∈ ss, ∀ t ∈ ss, s ≠ t → ∀ p ∈ s.indexed, ∀ q ∈ t.indexed, ∀ x y,
      queryConstant s.typeName p.field x = queryConstant t.typeName q.field y ↔
        ∃ u, (Ident.dropMark t.typeName = Ident.dropMark s.typeName ++ "_" ++ u ∧
            Ident.dropMark p.field ++ x.suffix =
              u ++ "_" ++ (Ident.dropMark q.field ++ y.suffix)) ∨
          (Ident.dropMark s.typeName = Ident.dropMark t.typeName ++ "_" ++ u ∧
            Ident.dropMark q.field ++ y.suffix =
              u ++ "_" ++ (Ident.dropMark p.field ++ x.suffix))) ∧
    (∀ path c t f, Module.assemble ss path = .error (.model (.constantCollision c t f)) →
      ∃ s ∈ ss, s.typeName = t ∧ (s.SharedByFields c f ∨
        ∃ s' ∈ ss, Prolongs s.typeName s'.typeName ∨ Prolongs s'.typeName s.typeName)) ∧
    ((∀ s ∈ ss, ∀ t ∈ ss, ¬ Prolongs s.typeName t.typeName) → KeptApart ss) := by
  have hdistinct : ∀ s ∈ ss, ∀ t ∈ ss, s ≠ t →
      Ident.dropMark s.typeName ≠ Ident.dropMark t.typeName := fun s hs t ht hne heq =>
    hne (List.inj_on_of_nodup_map h hs ht heq)
  refine ⟨fun s _ t _ p _ q => keyConstant_eq_queryConstant_iff,
    fun s hs t ht hne p _ q _ x y => queryConstant_eq_iff (hdistinct s hs t ht hne),
    fun path c t f => exists_of_collision h, fun hfree => ⟨?_, ?_, ?_⟩⟩
  · intro s hs t ht p _ q heq
    obtain ⟨-, u, hu, -⟩ := keyConstant_eq_queryConstant_iff.mp heq
    exact hfree t ht s hs ⟨u, hu⟩
  · intro s hs t ht hne p _ q _ x y heq
    obtain ⟨u, ⟨hu, -⟩ | ⟨hu, -⟩⟩ := (queryConstant_eq_iff (hdistinct s hs t ht hne)).mp heq
    · exact hfree s hs t ht ⟨u, hu⟩
    · exact hfree t ht s hs ⟨u, hu⟩
  · intro path c t f herr
    obtain ⟨s, hs, htype, hfields | ⟨s', hs', hlong | hlong⟩⟩ := exists_of_collision h herr
    · exact ⟨s, hs, htype, hfields⟩
    · exact absurd hlong (hfree s hs s' hs')
    · exact absurd hlong (hfree s' hs' s hs)

namespace Sample

/-- Tags of posts. -/
def postTag : Entity := { typeName := "PostTag", fields := [stored "x" "b" .string] }

def postTagSchema : Schema := .ofFields "PostTag" "PostTag" [⟨"x", "b", .string, false, false⟩]

theorem derive_postTag : Schema.derive "PostTag" postTag = .ok postTagSchema := rfl

theorem wellNamed_postTag : postTagSchema.WellNamed :=
  (Schema.derive_ok derive_postTag).indexed.wellNamed_iff.mpr
    ⟨rfl, fun _ hp => List.mem_singleton.mp hp ▸ rfl⟩

/-- Posts and their tags are kept apart, and what collides are two fields of a post. -/
theorem keptApart_of_not_prolongs_ranked :
    Schema.derive "Post" ranked = .ok rankedSchema ∧
      Schema.derive "PostTag" postTag = .ok postTagSchema ∧
      KeptApart [rankedSchema, postTagSchema] ∧
      ∃ s ∈ [rankedSchema, postTagSchema], s.typeName = "r#Post" ∧
        s.SharedByFields "Post_type_gt" "type_gt" := by
  have hdistinct : ([rankedSchema, postTagSchema].map fun s =>
      Ident.dropMark s.typeName).Nodup := by decide
  have hunder : ∀ t ∈ [rankedSchema, postTagSchema],
      '_' ∉ (Ident.dropMark t.typeName).toList := by decide
  have hnamed : ∀ s ∈ [rankedSchema, postTagSchema], s.WellNamed := by
    intro s hs
    rcases List.mem_pair.mp hs with rfl | rfl
    · exact wellNamed_ranked
    · exact wellNamed_postTag
  have hrepeat : FirstRepeat (claims [rankedSchema, postTagSchema])
      ⟨"Post_type_gt", "r#Post", "type_gt"⟩ :=
    ⟨(claims [rankedSchema, postTagSchema]).take 8, (claims [rankedSchema, postTagSchema]).drop 9,
      by decide, by decide, by decide⟩
  obtain ⟨-, -, -, hapart⟩ := keptApart_of_not_prolongs hdistinct
  have hkept : KeptApart [rankedSchema, postTagSchema] :=
    hapart fun _ _ t ht => not_prolongs_of_not_mem (hunder t ht)
  exact ⟨derive_ranked, derive_postTag, hkept,
    hkept.collisions "super" _ _ _ (assemble_super_error hnamed hrepeat)⟩

/-- Posts with fields that are named like the rest of another type. -/
def labelled : Entity :=
  { typeName := "Post"
    fields := [stored "tagKind" "sort" .string, stored "tag_x" "a" .string] }

def labelledSchema : Schema :=
  .ofFields "Post" "Post"
    [⟨"tagKind", "sort", .string, false, false⟩, ⟨"tag_x", "a", .string, false, false⟩]

theorem derive_labelled : Schema.derive "Post" labelled = .ok labelledSchema := rfl

/-- Tags of posts, with an underscore in their name. -/
def underscored : Entity := { typeName := "Post_tag", fields := [stored "x" "b" .string] }

def underscoredSchema : Schema :=
  .ofFields "Post_tag" "Post_tag" [⟨"x", "b", .string, false, false⟩]

theorem derive_underscored : Schema.derive "Post_tag" underscored = .ok underscoredSchema := rfl

theorem wellNamed_labelled : labelledSchema.WellNamed := by
  refine (Schema.derive_ok derive_labelled).indexed.wellNamed_iff.mpr ⟨rfl, fun p hp => ?_⟩
  rcases List.mem_pair.mp hp with rfl | rfl
  · rfl
  · rfl

theorem wellNamed_underscored : underscoredSchema.WellNamed :=
  (Schema.derive_ok derive_underscored).indexed.wellNamed_iff.mpr
    ⟨rfl, fun _ hp => List.mem_singleton.mp hp ▸ rfl⟩

/-- The key of a tag has the name of a query for posts, so the model of both is refused, and two
queries have one name as well. -/
theorem not_keptApart_labelled :
    Schema.derive "Post" labelled = .ok labelledSchema ∧
      Schema.derive "Post_tag" underscored = .ok underscoredSchema ∧
      ([labelledSchema, underscoredSchema].map fun s => Ident.dropMark s.typeName).Nodup ∧
      keyConstant "Post_tag" = queryConstant "Post" "tagKind" .equal ∧
      queryConstant "Post" "tag_x" .equal = queryConstant "Post_tag" "x" .equal ∧
      Module.assemble [labelledSchema, underscoredSchema] "super" =
        .error (.model (.constantCollision "Post_tagKind" "Post_tag" "kind")) ∧
      ¬ KeptApart [labelledSchema, underscoredSchema] := by
  have hkey : keyConstant "Post_tag" = queryConstant "Post" "tagKind" .equal := by decide
  have hnamed : ∀ s ∈ [labelledSchema, underscoredSchema], s.WellNamed := by
    intro s hs
    rcases List.mem_pair.mp hs with rfl | rfl
    · exact wellNamed_labelled
    · exact wellNamed_underscored
  have hrepeat : FirstRepeat (claims [labelledSchema, underscoredSchema])
      ⟨"Post_tagKind", "Post_tag", "kind"⟩ :=
    ⟨(claims [labelledSchema, underscoredSchema]).take 15,
      (claims [labelledSchema, underscoredSchema]).drop 16,
      by decide, by decide, by decide⟩
  refine ⟨derive_labelled, derive_underscored, by decide, hkey, by decide,
    assemble_super_error hnamed hrepeat, fun h => ?_⟩
  exact h.keys underscoredSchema (by simp) labelledSchema (by simp)
    ⟨"tagKind", "sort", .string, false, false⟩ (by decide) .equal hkey

end Sample

end StoreModel
