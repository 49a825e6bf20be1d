import StoreModel.Proofs.Composition

/-!
# Which fault generation reports

A model may be wrong in many ways at once, and one of them is reported. Generation goes through its
stages one after another and stops at the first that fails: the registry, the schemas, the path of
the import, the constants, the code, and the import again as part of the module. Inside a stage it
goes through a list, and stops at the first member that fails.

Both are said here by what is the case with the model, with no word on steps. `Module.Assembled` and
`Registry.Generated` have one constructor for each way to end, in the order of the stages; each says
what is wrong and that all of the stages before are passed. That exactly one of them applies is not
said but follows, since they are shown to be what assembling and generating do.
-/

set_option autoImplicit false

namespace StoreModel

open StoreModel.Source StoreModel.Text

/-! ## Identifiers -/

/-- The text holds an identifier. -/
def HoldsIdent (t : String) : Prop := ∃ id, Ident.read t = .ok id

theorem identifier_exists_iff {t : String} : (∃ id, identifier t = .ok id) ↔ HoldsIdent t := by
  simp [identifier, mapError_eq_ok_iff, HoldsIdent]

theorem identifier_eq_error_iff {t : String} {e : GenerationError} :
    identifier t = .error e ↔ ∃ c, Ident.read t = .error c ∧ e = .identifier t c := by
  simp [identifier, mapError_eq_error_iff, eq_comm (a := e)]

/-- The first of the texts that holds no identifier, with the reason. -/
def FirstUnreadable (ts : List String) (t : String) (c : Fault) : Prop :=
  GoodUpTo HoldsIdent ts t ∧ Ident.read t = .error c

theorem firstUnreadable_append_iff {ts us : List String} {t : String} {c : Fault} :
    FirstUnreadable (ts ++ us) t c ↔
      FirstUnreadable ts t c ∨ (∀ u ∈ ts, HoldsIdent u) ∧ FirstUnreadable us t c := by
  simp only [FirstUnreadable, goodUpTo_append_iff]
  tauto

section Steps

variable {α β : Type} {g : α → Except GenerationError β} {text : α → String} {l : List α}

/-- Steps that make something of identifiers fail as the first text that holds none. -/
theorem mapM_identifier_error_iff {h : α → Ident → β}
    (hg : ∀ a, g a = (identifier (text a)).map (h a)) {e : GenerationError} :
    l.mapM g = .error e ↔ ∃ t c, FirstUnreadable (l.map text) t c ∧ e = .identifier t c := by
  have hok : ∀ a, (∃ b, g a = .ok b) ↔ HoldsIdent (text a) := by
    intro a
    simp [hg, map_eq_ok_iff, ← identifier_exists_iff]
  simp only [mapM_eq_error_iff, hok]
  simp only [FirstUnreadable, goodUpTo_map_iff, hg, map_eq_error_iff, identifier_eq_error_iff]
  constructor
  · rintro ⟨a, hupto, c, hc, rfl⟩
    exact ⟨_, c, ⟨⟨a, hupto, rfl⟩, hc⟩, rfl⟩
  · rintro ⟨t, c, ⟨⟨a, hupto, rfl⟩, hc⟩, rfl⟩
    exact ⟨a, hupto, c, hc, rfl⟩

theorem mapM_identifier_exists_iff {h : α → Ident → β}
    (hg : ∀ a, g a = (identifier (text a)).map (h a)) :
    (∃ bs, l.mapM g = .ok bs) ↔ ∀ t ∈ l.map text, HoldsIdent t := by
  have hok : ∀ a b, g a = .ok b ↔ HoldsIdent (text a) ∧ b = h a (Ident.ofText (text a)) := by
    intro a b
    rw [hg, map_identifier_eq_ok_iff]
    rfl
  simp [mapM_eq_ok_iff hok]

end Steps

/-! ## Code -/

namespace Schema

variable {s : Schema} {ss : List Schema} {e : GenerationError}

/-- The texts that have to hold identifiers for the code of a schema, in the order in which they are
looked at: the type, its sequences, the fields by their stored names, the fields by their own. -/
def texts (s : Schema) : List String :=
  [s.typeName] ++ (s.sequenceFields ++ (s.byName.map (·.field) ++ s.byField.map (·.field)))

theorem readable_iff : s.Readable ↔ ∀ t ∈ s.texts, HoldsIdent t := by
  simp only [texts, List.forall_mem_append, List.forall_mem_singleton, List.forall_mem_map]
  exact ⟨fun h => ⟨h.typeName, h.sequences, h.byName, h.byField⟩,
    fun ⟨htype, hsequences, hbyName, hbyField⟩ => ⟨htype, hsequences, hbyName, hbyField⟩⟩

theorem implementation_exists_iff :
    (∃ i, s.implementation = .ok i) ↔ ∀ t ∈ s.texts, HoldsIdent t := by
  simp [implementation_eq_ok_iff, readable_iff]

/-- The code of a schema fails as the first of its texts that holds no identifier. Its four parts
are four stretches of one list of texts, so their order is the order of that list. -/
theorem implementation_error_iff :
    s.implementation = .error e ↔ ∃ t c, FirstUnreadable s.texts t c ∧ e = .identifier t c := by
  have htype : identifier s.typeName = .error e ↔
      ∃ t c, FirstUnreadable [s.typeName] t c ∧ e = .identifier t c := by
    simp [identifier_eq_error_iff, FirstUnreadable, goodUpTo_cons_iff, goodUpTo_nil]
  have hself : ∀ t, identifier t = (identifier t).map id := by
    intro t
    cases identifier t <;> rfl
  unfold implementation
  -- each of the four parts fails only after those before it, and so do the parts of the texts
  simp only [bind_eq_error_iff, exists_and_right, reduceCtorEq, and_false, exists_false, or_false]
  rw [htype, identifier_exists_iff, mapM_identifier_error_iff hself,
    mapM_identifier_exists_iff hself, mapM_identifier_error_iff (g := s.arm) fun _ => rfl,
    mapM_identifier_exists_iff (g := s.arm) fun _ => rfl,
    mapM_identifier_error_iff (g := StoredField.saving) fun _ => rfl]
  simp only [texts, firstUnreadable_append_iff, or_and_right, exists_or, and_assoc, exists_and_left,
    List.forall_mem_singleton, List.map_id']

/-- So does the code of all schemas, over the texts of one after those of the other. -/
theorem codes_error_iff :
    ss.mapM implementation = .error e ↔
      ∃ t c, FirstUnreadable (ss.flatMap texts) t c ∧ e = .identifier t c := by
  simp only [mapM_eq_error_iff, implementation_exists_iff, implementation_error_iff,
    FirstUnreadable, goodUpTo_flatMap_iff]
  constructor
  · rintro ⟨s, hs, t, c, ⟨ht, hc⟩, rfl⟩
    exact ⟨t, c, ⟨⟨s, hs, ht⟩, hc⟩, rfl⟩
  · rintro ⟨t, c, ⟨⟨s, hs, ht⟩, hc⟩, rfl⟩
    exact ⟨s, hs, t, c, ⟨ht, hc⟩, rfl⟩

theorem codes_ok_iff {is : List Implementation} :
    ss.mapM implementation = .ok is ↔
      (∀ t ∈ ss.flatMap texts, HoldsIdent t) ∧ is = ss.map code := by
  rw [mapM_eq_ok_iff fun _ _ => implementation_eq_ok_iff]
  simp only [readable_iff, List.forall_mem_flatMap]

end Schema

/-! ## Constants -/

/-- The constants can stand in a module: no name is used twice, and each holds an identifier. -/
structure Claimable (cs : List (String × Intended)) : Prop where
  names : (cs.map (·.2.name)).Nodup
  idents : ∀ x ∈ cs, HoldsIdent x.2.name

/-- What is wrong with a constant that comes after others. A name that is used again is no further
looked at. -/
inductive Unclaimable (before : List (String × Intended)) (x : String × Intended) :
    GenerationError → Prop where
  | repeated (h : x.2.name ∈ before.map (·.2.name)) :
    Unclaimable before x (.model (.constantCollision x.2.name x.1 x.2.field))
  | unreadable {c : Fault} (hnew : x.2.name ∉ before.map (·.2.name))
      (h : Ident.read x.2.name = .error c) : Unclaimable before x (.identifier x.2.name c)

theorem claim_eq_error_iff {seen : List String} {t : String} {c : Intended} {e : GenerationError} :
    claim seen t c = .error e ↔
      c.name ∈ seen ∧ e = .model (.constantCollision c.name t c.field) ∨
      c.name ∉ seen ∧ ∃ f, Ident.read c.name = .error f ∧ e = .identifier c.name f := by
  unfold claim
  by_cases hseen : c.name ∈ seen
  · simp [hseen, eq_comm (a := e)]
  · simp [hseen, map_eq_error_iff, identifier_eq_error_iff]

/-- Claiming stops at the first constant that cannot be claimed after those before it, and these
have left their names behind, the latest in front. -/
theorem claimAll_eq_error_iff {seen : List String} {l : List (String × Intended)}
    {e : GenerationError} :
    claimAll seen l = .error e ↔ ∃ before x after, l = before ++ x :: after ∧
      (∃ ks, claimAll seen before = .ok ks) ∧
      claim ((before.map (·.2.name)).reverse ++ seen) x.1 x.2 = .error e := by
  induction l generalizing seen with
  | nil =>
    constructor
    · intro h
      cases h
    · rintro ⟨before, x, after, h, -⟩
      simp at h
  | cons y l ih =>
    obtain ⟨t, c⟩ := y
    have hstep : claimAll seen ((t, c) :: l) = .error e ↔ claim seen t c = .error e ∨
        (∃ k, claim seen t c = .ok k) ∧ claimAll (c.name :: seen) l = .error e := by
      simp only [claimAll, bind_eq_error_iff, exists_and_right, reduceCtorEq, and_false,
        exists_false, or_false]
    rw [hstep, ih]
    -- the names that are taken grow at their front, hence the reversed list in the statement
    constructor
    · rintro (hclaim | ⟨⟨k, hk⟩, before, x, after, rfl, ⟨ks, hks⟩, hx⟩)
      · exact ⟨[], (t, c), l, rfl, ⟨[], rfl⟩, hclaim⟩
      · refine ⟨(t, c) :: before, x, after, rfl, ⟨k :: ks, ?_⟩, by simpa using hx⟩
        exact bind_eq_ok_iff.mpr ⟨k, hk, bind_eq_ok_iff.mpr ⟨ks, hks, rfl⟩⟩
    · rintro ⟨before, x, after, hsplit, ⟨ks, hks⟩, hx⟩
      cases before with
      | nil =>
        cases hsplit
        exact Or.inl hx
      | cons z before =>
        cases hsplit
        obtain ⟨k, hk, hks⟩ := bind_eq_ok_iff.mp hks
        obtain ⟨ks', hks', -⟩ := bind_eq_ok_iff.mp hks
        exact Or.inr ⟨⟨k, hk⟩, before, x, after, rfl, ⟨ks', hks'⟩, by simpa using hx⟩

theorem claimable_iff {cs : List (String × Intended)} {ks : List Constant} :
    claimAll [] cs = .ok ks ↔ Claimable cs ∧ ks = cs.map (·.2.constant) := by
  rw [claimAll_eq_ok_iff]
  refine and_congr_left fun _ => ?_
  constructor
  · rintro ⟨hnames, hread⟩
    exact ⟨hnames, fun x hx => (hread x hx).2⟩
  · rintro ⟨hnames, hread⟩
    exact ⟨hnames, fun x hx => ⟨by simp, hread x hx⟩⟩

theorem unclaimable_iff {cs : List (String × Intended)} {e : GenerationError} :
    claimAll [] cs = .error e ↔ ∃ before x after, cs = before ++ x :: after ∧ Claimable before ∧
      Unclaimable before x e := by
  have hone : ∀ (before : List (String × Intended)) (x : String × Intended),
      claim ((before.map (·.2.name)).reverse ++ []) x.1 x.2 = .error e ↔
        Unclaimable before x e := by
    intro before x
    simp only [claim_eq_error_iff, List.append_nil, List.mem_reverse]
    constructor
    · rintro (⟨hmem, rfl⟩ | ⟨hnew, c, hc, rfl⟩)
      · exact .repeated hmem
      · exact .unreadable hnew hc
    · intro h
      cases h with
      | repeated hmem => exact Or.inl ⟨hmem, rfl⟩
      | unreadable hnew hc => exact Or.inr ⟨hnew, _, hc, rfl⟩
  simp only [claimAll_eq_error_iff, claimable_iff, exists_and_left, exists_eq, and_true, hone]

/-! ## Modules -/

/-- How assembling a module ends. -/
inductive Module.Assembled (ss : List Schema) (path : String) :
    Except GenerationError Module → Prop where
  | path {c : Fault} (h : readText (readTrees path) readTypePath = .error c) :
    Assembled ss path (.error (.importPath path c))
  | constant {import' : Bool × List Segment} {before after : List (String × Intended)}
      {x : String × Intended} {e : GenerationError}
      (hpath : readText (readTrees path) readTypePath = .ok import')
      (hsplit : intendedConstants ss = before ++ x :: after) (hbefore : Claimable before)
      (h : Unclaimable before x e) : Assembled ss path (.error e)
  | code {import' : Bool × List Segment} {t : String} {c : Fault}
      (hpath : readText (readTrees path) readTypePath = .ok import')
      (hconstants : Claimable (intendedConstants ss))
      (h : FirstUnreadable (ss.flatMap Schema.texts) t c) :
    Assembled ss path (.error (.identifier t c))
  | assembly {import' : Bool × List Segment} {c : Fault}
      (hpath : readText (readTrees path) readTypePath = .ok import')
      (hconstants : Claimable (intendedConstants ss))
      (hcode : ∀ t ∈ ss.flatMap Schema.texts, HoldsIdent t)
      (h : importNames import'.2 = .error c) : Assembled ss path (.error (.assembly c))
  | module {import' : Bool × List Segment} {names : List String}
      (hpath : readText (readTrees path) readTypePath = .ok import')
      (hconstants : Claimable (intendedConstants ss))
      (hcode : ∀ t ∈ ss.flatMap Schema.texts, HoldsIdent t)
      (hnames : importNames import'.2 = .ok names) :
    Assembled ss path (.ok ⟨⟨import'.1, names⟩, (intendedConstants ss).map (·.2.constant),
      ss.map Schema.code⟩)

namespace Module

variable {ss : List Schema} {path : String} {res : Except GenerationError Module}

theorem Assembled.eq (h : Assembled ss path res) : assemble ss path = res := by
  unfold assemble
  cases h with
  | path h =>
    rw [h]
    rfl
  | constant hpath hsplit hbefore h =>
    rw [hpath, unclaimable_iff.mpr ⟨_, _, _, hsplit, hbefore, h⟩]
    rfl
  | code hpath hconstants h =>
    rw [hpath, claimable_iff.mpr ⟨hconstants, rfl⟩, Schema.codes_error_iff.mpr ⟨_, _, h, rfl⟩]
    rfl
  | assembly hpath hconstants hcode h =>
    rw [hpath, claimable_iff.mpr ⟨hconstants, rfl⟩, Schema.codes_ok_iff.mpr ⟨hcode, rfl⟩]
    simp only [Except.mapError, bind, Except.bind, h]
  | module hpath hconstants hcode hnames =>
    rw [hpath, claimable_iff.mpr ⟨hconstants, rfl⟩, Schema.codes_ok_iff.mpr ⟨hcode, rfl⟩]
    simp only [Except.mapError, bind, Except.bind, hnames]

/-- Assembling ends in one of the ways. With the lemma above, which says that each way is what
assembling does, no second one can apply to the same schemas. -/
theorem assembled (ss : List Schema) (path : String) : Assembled ss path (assemble ss path) := by
  -- along the function, stage by stage: where one fails, the constructor of that stage says what
  -- assembling gives, and where it passes, the later constructors ask for that
  cases hpath : readText (readTrees path) readTypePath with
  | error c => exact (Assembled.path hpath).eq ▸ .path hpath
  | ok import' =>
    cases hclaims : claimAll [] (intendedConstants ss) with
    | error e =>
      obtain ⟨before, x, after, hsplit, hbefore, h⟩ := unclaimable_iff.mp hclaims
      have hend : Assembled ss path (.error e) := .constant hpath hsplit hbefore h
      rwa [hend.eq]
    | ok ks =>
      obtain ⟨hconstants, -⟩ := claimable_iff.mp hclaims
      cases hcodes : ss.mapM Schema.implementation with
      | error e =>
        obtain ⟨t, c, h, rfl⟩ := Schema.codes_error_iff.mp hcodes
        have hend : Assembled ss path (.error (.identifier t c)) := .code hpath hconstants h
        rwa [hend.eq]
      | ok is =>
        obtain ⟨hcode, -⟩ := Schema.codes_ok_iff.mp hcodes
        cases hnames : importNames import'.2 with
        | error c =>
          have hend : Assembled ss path (.error (.assembly c)) :=
            .assembly hpath hconstants hcode hnames
          rwa [hend.eq]
        | ok names =>
          have hend := Assembled.module hpath hconstants hcode hnames
          rwa [hend.eq]

end Module

/-! ## Registries -/

/-- What is derived of entries up to a fault: the schemas of those before the first that has none.
The two cases of the step are whether this is the one, and each is followed in both directions. -/
theorem deriveEach_eq_fault_iff {l : List (String × Entity)} {ss : List Schema} {f : SchemaError} :
    deriveEach l = { schemas := ss, fault := some f } ↔ ∃ before x after, l = before ++ x :: after ∧
      List.Forall₂ (fun x s => Schema.derive x.1 x.2 = .ok s) before ss ∧
      Schema.derive x.1 x.2 = .error f := by
  induction l generalizing ss with
  | nil => simp [deriveEach]
  | cons y l ih =>
    obtain ⟨key, e⟩ := y
    rw [deriveEach]
    cases hy : Schema.derive key e with
    | error err =>
      constructor
      · intro h
        cases h
        exact ⟨[], (key, e), l, rfl, .nil, hy⟩
      · rintro ⟨before, x, after, hsplit, hbefore, hx⟩
        cases hbefore with
        | nil =>
          cases hsplit
          rw [hy] at hx
          cases hx
          rfl
        | cons hz _ =>
          cases hsplit
          rw [hy] at hz
          cases hz
    | ok s =>
      -- a schema in front changes nothing about the fault of the rest
      have htail : ({ deriveEach l with schemas := s :: (deriveEach l).schemas } : Derivation) =
          { schemas := ss, fault := some f } ↔
          ∃ ss', ss = s :: ss' ∧ deriveEach l = { schemas := ss', fault := some f } := by
        cases hd : deriveEach l with
        | mk ss' fault =>
          simp only [Derivation.mk.injEq]
          constructor
          · rintro ⟨rfl, rfl⟩
            exact ⟨ss', rfl, rfl, rfl⟩
          · rintro ⟨ss'', rfl, rfl, rfl⟩
            exact ⟨rfl, rfl⟩
      simp only [htail, ih]
      constructor
      · rintro ⟨ss', rfl, before, x, after, rfl, hbefore, hx⟩
        exact ⟨(key, e) :: before, x, after, rfl, .cons hy hbefore, hx⟩
      · rintro ⟨before, x, after, hsplit, hbefore, hx⟩
        cases hbefore with
        | nil =>
          cases hsplit
          rw [hy] at hx
          cases hx
        | @cons z s' before ss' hz hrest =>
          cases hsplit
          rw [hy] at hz
          cases hz
          exact ⟨ss', rfl, before, x, after, rfl, hrest, hx⟩

namespace Registry

/-- The registrations, each once, in the order of their keys. -/
def Lists (r : Registry) (es : List (String × Entity)) : Prop :=
  es.Pairwise (fun x y => bytes x.1 < bytes y.1) ∧ ∀ x, x ∈ es ↔ x ∈ r.entries

/-- How generation ends, with the log that it leaves. -/
inductive Generated (r : Registry) (path : String) : Generation → Prop where
  | registry {k a b : String} (h : Reported r.entries k a b) :
    Generated r path { log := [], result := .error (.model (.duplicateKey k a b)) }
  | schema {before after : List (String × Entity)} {x : String × Entity} {ss : List Schema}
      {f : SchemaError} (hlist : r.Lists (before ++ x :: after))
      (hbefore : List.Forall₂ (fun x s => Schema.derive x.1 x.2 = .ok s) before ss)
      (h : Schema.derive x.1 x.2 = .error f) :
    Generated r path { log := ss.map Schema.record, result := .error (.model f) }
  | module {entries : List (String × Entity)} {ss : List Schema}
      {res : Except GenerationError Module} (hlist : r.Lists entries)
      (hall : List.Forall₂ (fun x s => Schema.derive x.1 x.2 = .ok s) entries ss)
      (h : Module.Assembled ss path res) :
    Generated r path { log := ss.map Schema.record ++ [.generating ss.length]
                       result := res.map Module.text }

variable {r : Registry} {path : String} {g : Generation}

theorem Generated.eq (h : Generated r path g) : r.generate path = g := by
  unfold generate
  cases h with
  | registry h => rw [sortedEntries_error_iff.mpr ⟨_, _, _, rfl, h⟩]
  | schema hlist hbefore h =>
    rw [sortedEntries_ok_iff.mpr hlist]
    simp only [deriveEach_eq_fault_iff.mpr ⟨_, _, _, rfl, hbefore, h⟩]
  | module hlist hall h =>
    rw [sortedEntries_ok_iff.mpr hlist]
    simp only [deriveEach_eq_iff.mpr hall, h.eq]

/-- Generating ends in one of the ways, the log included: nothing is logged for a clash, and
otherwise a record for each schema. -/
theorem generated (r : Registry) (path : String) : Generated r path (r.generate path) := by
  cases hentries : r.sortedEntries with
  | error f =>
    obtain ⟨k, a, b, rfl, h⟩ := sortedEntries_error_iff.mp hentries
    have hend : Generated r path _ := .registry h
    rwa [hend.eq]
  | ok entries =>
    have hlist : r.Lists entries := sortedEntries_ok_iff.mp hentries
    cases hderive : deriveEach entries with
    | mk ss fault =>
      cases fault with
      | some f =>
        obtain ⟨before, x, after, rfl, hbefore, h⟩ := deriveEach_eq_fault_iff.mp hderive
        have hend : Generated r path _ := .schema hlist hbefore h
        rwa [hend.eq]
      | none =>
        have hend : Generated r path _ :=
          .module hlist (deriveEach_eq_iff.mp hderive) (Module.assembled ss path)
        rwa [hend.eq]

/-- What is listed before an entry is what is registered under smaller keys. -/
theorem Lists.mem_before_iff {before after : List (String × Entity)} {x y : String × Entity}
    (h : r.Lists (before ++ x :: after)) :
    y ∈ before ↔ y ∈ r.entries ∧ bytes y.1 < bytes x.1 := by
  obtain ⟨hsorted, hmem⟩ := h
  obtain ⟨-, hback, hcross⟩ := List.pairwise_append.mp hsorted
  constructor
  · intro hy
    exact ⟨(hmem y).mp (List.mem_append_left _ hy), hcross y hy x List.mem_cons_self⟩
  · rintro ⟨hy, hlt⟩
    rcases List.mem_append.mp ((hmem y).mpr hy) with hbefore | hrest
    · exact hbefore
    · rcases List.mem_cons.mp hrest with rfl | hafter
      · exact absurd hlt (List.lt_irrefl _)
      · exact absurd hlt (List.lt_asymm ((List.pairwise_cons.mp hback).1 y hafter))

/-- **Which fault is reported, and what is logged before it.** Generation ends in the first of the
ways of `Generated` that applies to the model, whatever else is wrong with it. The entries that are
derived before a fault are those under smaller keys, and a record is kept of each, in the order of
the keys. -/
theorem generate_stages (r : Registry) (path : String) :
    (∀ g, r.generate path = g ↔ Generated r path g) ∧
    (∀ (before after : List (String × Entity)) (x : String × Entity),
      r.Lists (before ++ x :: after) →
        ∀ y, y ∈ before ↔ y ∈ r.entries ∧ bytes y.1 < bytes x.1) ∧
    ∀ (es : List (String × Entity)) (ss : List Schema),
      List.Forall₂ (fun x s => Schema.derive x.1 x.2 = .ok s) es ss →
        ss.map (·.key) = es.map (·.1) := by
  refine ⟨?_, ?_, ?_⟩
  · intro g
    constructor
    · rintro rfl
      exact generated r path
    · exact Generated.eq
  · intro before after x h y
    exact h.mem_before_iff
  · intro es ss h
    exact map_key_of_derived h

end Registry

namespace Sample

/-- A comment has a tag with a comma too many. -/
def comment : Entity :=
  { typeName := "Comment", fields := [stored "text" "text,noindex,index" .string] }

/-- A rating is of a type that cannot be stored. -/
def rating : Entity := { typeName := "Rating", fields := [stored "stars" "stars" .u8] }

/-- Of three faults, two in the registry and one in the path, the one under the least key is
reported, after the record of the entity before it. -/
theorem generate_stages_three_faults :
    let r := ((Registry.insert {} "Tag" rating).insert "Post" comment).insert "Author" label
    r.generate "" =
        { log := [.derived "Author" "Label" 1 0]
          result := .error (.model (.invalidTag "Comment" "text" "text,noindex,index")) } ∧
      (∀ y, y ∈ [("Author", label)] ↔ y ∈ r.entries ∧ bytes y.1 < bytes "Post") ∧
      [labelSchema].map (·.key) = ["Tag"] := by
  intro r
  have hlist : r.Lists ([("Author", label)] ++ ("Post", comment) :: [("Tag", rating)]) := by
    refine ⟨by decide, fun x => ?_⟩
    simp [r, Registry.insert]
    tauto
  obtain ⟨hgenerate, hbefore, hkeys⟩ := Registry.generate_stages r ""
  have hlabel (key : String) : Schema.derive key label = .ok { labelSchema with key } := rfl
  have hlog : [{ labelSchema with key := "Author" }].map Schema.record =
      [.derived "Author" "Label" 1 0] := by
    simp [Schema.record, labelSchema, Schema.ofFields, Draft.add, Draft.finish, dropRepeats]
  refine ⟨(hgenerate _).mpr ?_, hbefore _ _ _ hlist, hkeys [("Tag", label)] [labelSchema] ?_⟩
  · rw [← hlog]
    exact .schema hlist (.cons (hlabel "Author") .nil) rfl
  · exact .cons (hlabel "Tag") .nil

end Sample

end StoreModel
