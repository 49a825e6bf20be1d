import Mathlib.Data.List.Basic
import StoreModel.Proofs.Emission
import StoreModel.Record.Loading

/-!
# What loading means

Loading resets the sequences of a record and then takes properties one by one, each through the
first arm that has its name. This file gives the meaning of that loop field by field, without the
order of the arms and without the record in between: a field depends on nothing but the values that
are stored under its own name (`StoredField.loaded`), and the first property whose value does not
fit ends the loading where it stands.

The invariant of the loop is stated with a fold, `StoredField.take` over the values under the name
of the field, because that is what one more property extends by one step. `foldl_take_eq_loaded`
turns it into the two descriptions that one wants to read: a single field has the last of the
values, a sequence has all of them. Fields do not disturb each other because their identifiers are
distinct.
-/

set_option autoImplicit false

namespace StoreModel

open StoreModel.Source

/-! ## The vocabulary of properties -/

/-- The values that are stored under a name, in order. -/
def valuesUnder (name : String) (ps : List Property) : List Value :=
  (ps.filter (·.name == name)).map (·.value)

/-- A field of the schema is stored under the name of a property. -/
def Schema.knows (s : Schema) (p : Property) : Bool := s.fields.any (·.name == p.name)

/-- A field is stored under the name of a property, but with values of another kind. -/
def Schema.misfits (s : Schema) (p : Property) : Bool :=
  s.fields.any fun q => q.name == p.name && q.kind != p.value.kind

/-- A property without its marks. -/
def Property.unmarked (p : Property) : Property := { name := p.name, value := p.value }

/-- What a field holds after loading the values under its name, when it held something before. -/
def StoredField.loaded (q : StoredField) (vs : List Value) (old : Slot) : Slot :=
  if q.multiple then .many vs
  else match vs.getLast? with
    | some v => .one v
    | none => old

/-- A property in front gives the first value under its own name, and is not seen under any other.
This is the step that the fold of `StoredField.take` makes. -/
theorem valuesUnder_cons {name : String} {p : Property} {ps : List Property} :
    valuesUnder name (p :: ps) =
      if p.name = name then p.value :: valuesUnder name ps else valuesUnder name ps := by
  unfold valuesUnder
  rw [List.filter_cons]
  by_cases h : p.name = name
  · rw [if_pos h, if_pos (by simpa using h), List.map_cons]
  · rw [if_neg h, if_neg (by simpa using h)]

theorem mem_valuesUnder {name : String} {ps : List Property} {v : Value} :
    v ∈ valuesUnder name ps ↔ ∃ p ∈ ps, p.name = name ∧ p.value = v := by
  simp [valuesUnder, and_assoc]

theorem Schema.misfits_eq_true_iff {s : Schema} {p : Property} :
    s.misfits p = true ↔ ∃ q ∈ s.fields, q.name = p.name ∧ q.kind ≠ p.value.kind := by
  simp [misfits]

theorem Schema.misfits_eq_false_iff {s : Schema} {p : Property} :
    s.misfits p = false ↔ ∀ q ∈ s.fields, q.name = p.name → q.kind = p.value.kind := by
  simp [misfits]

/-! ## One value -/

/-- What a field holds after taking one more value. -/
def StoredField.take (q : StoredField) (slot : Slot) (v : Value) : Slot :=
  if q.multiple then slot.push v else .one v

/-- What a field holds when loading begins: a sequence is emptied, a single value stays. -/
def StoredField.reset (q : StoredField) (slot : Slot) : Slot :=
  if q.multiple then .many [] else slot

/-- Pushing values one after the other appends them all, so after a reset a sequence is just the
values that came. -/
theorem foldl_push (vs ws : List Value) :
    ws.foldl (fun slot v => Slot.push v slot) (.many vs) = .many (vs ++ ws) := by
  induction ws generalizing vs with
  | nil => rw [List.foldl_nil, List.append_nil]
  | cons w ws ih => rw [List.foldl_cons, Slot.push_many, ih, List.append_assoc]; rfl

/-- Taking values one by one after a reset leaves what `StoredField.loaded` says. A sequence depends
on every step of the fold and a single value on the last one only, so the two kinds of fields are
proved apart. -/
theorem StoredField.foldl_take_eq_loaded (q : StoredField) (vs : List Value) (old : Slot) :
    vs.foldl q.take (q.reset old) = q.loaded vs old := by
  unfold loaded reset
  cases hm : q.multiple with
  | true =>
    have htake : q.take = fun slot v => Slot.push v slot := by
      funext slot v
      rw [take, hm]
      rfl
    rw [htake]
    exact foldl_push [] vs
  | false =>
    have htake : q.take = fun _ v => .one v := by
      funext slot v
      rw [take, hm]
      rfl
    rw [htake]
    -- only the last step of the fold is seen
    rcases List.eq_nil_or_concat vs with rfl | ⟨ws, w, rfl⟩
    · rfl
    · rw [List.concat_eq_append, List.foldl_append, List.getLast?_append]
      rfl

/-! ## One property -/

variable {s : Schema}

/-- The arm of a field changes that field and no other, by one more value. A sequence is pushed to
and a single value is set; both are seen as changes of one slot. -/
theorem Schema.armOf_take (s : Schema) (q : StoredField) (r : Record) (v : Value) :
    (s.armOf q).take r v = r.modify q.ident.text fun slot => q.take slot v := by
  unfold Arm.take StoredField.take
  cases hm : q.multiple with
  | true => rw [if_pos (show (s.armOf q).push = true from hm)]; rfl
  | false => rw [if_neg (by rw [show (s.armOf q).push = false from hm]; simp)]; rfl

/-- The arms are looked through as if they stood in the order of the declaration. They stand in the
order of the names, but names are distinct, so the first arm of a name is the only one. -/
theorem Schema.arm?_code (hs : s.Indexed) (name : String) :
    s.code.arm? name = (s.fields.find? (·.name == name)).map s.armOf := by
  have hn : (s.byName.map (·.name)).Nodup :=
    (hs.byName_perm.map _).nodup_iff.mpr hs.nodup_map_name
  rw [← find?_key_of_perm hs.byName_perm hn]
  exact List.find?_map

/-- A property under a name that no field has is passed over. -/
theorem Schema.takeProperty_of_not_knows {r : Record} {p : Property} (hs : s.Indexed)
    (h : s.knows p = false) : s.code.takeProperty r p = .ok r := by
  have hnone : s.fields.find? (·.name == p.name) = none := by
    refine List.find?_eq_none.mpr fun q hq => ?_
    exact List.any_eq_false.mp h q hq
  rw [Implementation.takeProperty, arm?_code hs, hnone]
  rfl

/-- A property under the name of a field is taken by that field if its value is of the right kind,
and is the mismatch of the field otherwise. -/
theorem Schema.takeProperty_of_mem {r : Record} {p : Property} {q : StoredField}
    (hs : s.Indexed) (hq : q ∈ s.fields) (hname : q.name = p.name) :
    s.code.takeProperty r p =
      if p.value.kind = q.kind then .ok (r.modify q.ident.text fun slot => q.take slot p.value)
      else .error (s.mismatch q) := by
  have hsome : s.fields.find? (·.name == p.name) = some q :=
    (find?_key_eq_some_iff hs.nodup_map_name).mpr ⟨hq, hname⟩
  rw [Implementation.takeProperty, arm?_code hs, hsome, ← armOf_take s]
  rfl

/-- **One step.** A property that does not misfit is taken; every field under its name takes its
value, and nothing else changes. The proof splits by whether any field has the name. If none has,
the step does nothing and no field may claim the value; if one has, every other field differs from
it in both its name and its identifier, and only the identifier says which slot is changed. -/
theorem Schema.takeProperty_ok {r : Record} {p : Property} (hs : s.Apart)
    (h : s.misfits p = false) :
    ∃ r', s.code.takeProperty r p = .ok r' ∧
      (∀ q ∈ s.fields, r'.get? q.ident.text = (r.get? q.ident.text).map fun slot =>
        if p.name = q.name then q.take slot p.value else slot) ∧
      ∀ name, (∀ q ∈ s.fields, q.ident.text ≠ name) → r'.get? name = r.get? name := by
  cases hk : s.knows p with
  | false =>
    refine ⟨r, takeProperty_of_not_knows hs.indexed hk, fun q hq => ?_, fun _ _ => rfl⟩
    have hne : p.name ≠ q.name := fun he => by
      have := List.any_eq_false.mp hk q hq
      exact this (by simpa using he.symm)
    simp only [if_neg hne, Option.map_id']
  | true =>
    obtain ⟨q₀, hq₀, hname⟩ := List.any_eq_true.mp hk
    rw [beq_iff_eq] at hname
    have hkind : p.value.kind = q₀.kind := (misfits_eq_false_iff.mp h q₀ hq₀ hname).symm
    refine ⟨_, by rw [takeProperty_of_mem hs.indexed hq₀ hname, if_pos hkind], fun q hq => ?_,
      fun name hfree => ?_⟩
    · rw [Record.get?_modify]
      -- a field takes the value if it is the one of that name; else its identifier is another too
      by_cases he : p.name = q.name
      · have hqq : q = q₀ := hs.eq_of_name_eq hq hq₀ (he.symm.trans hname.symm)
        subst hqq
        simp only [if_pos he, if_true]
      · have hid : q.ident.text ≠ q₀.ident.text := fun hid => by
          have hqq : q = q₀ := hs.eq_of_text_eq hq hq₀ hid
          exact he (by rw [hqq, hname])
        simp only [if_neg hid, if_neg he, Option.map_id']
    · rw [Record.get?_modify, if_neg fun he => hfree q₀ hq₀ he.symm]

/-! ## All properties -/

/-- **A whole run without a misfit.** Each field takes the values under its name in order. The
induction is on the properties, for every record, since the rest of the run starts from the record
that the first step leaves; the invariant is the fold, which one more property extends at its front.
-/
theorem Schema.takeProperties_ok {ps : List Property} (hs : s.Apart)
    (h : ∀ p ∈ ps, s.misfits p = false) (r : Record) :
    (s.code.takeProperties r ps).fault = none ∧
      (∀ q ∈ s.fields, (s.code.takeProperties r ps).record.get? q.ident.text =
        (r.get? q.ident.text).map fun slot => (valuesUnder q.name ps).foldl q.take slot) ∧
      ∀ name, (∀ q ∈ s.fields, q.ident.text ≠ name) →
        (s.code.takeProperties r ps).record.get? name = r.get? name := by
  induction ps generalizing r with
  | nil =>
    refine ⟨rfl, fun q _ => ?_, fun _ _ => rfl⟩
    simp [Implementation.takeProperties, valuesUnder]
  | cons p ps ih =>
    obtain ⟨r', hstep, hfields, hframe⟩ := takeProperty_ok hs (h p List.mem_cons_self) (r := r)
    have hrun : s.code.takeProperties r (p :: ps) = s.code.takeProperties r' ps := by
      rw [Implementation.takeProperties, hstep]
    obtain ⟨hfault, hget, hrest⟩ := ih (fun p' hp' => h p' (List.mem_cons_of_mem _ hp')) r'
    rw [hrun]
    refine ⟨hfault, fun q hq => ?_, fun name hfree => (hrest name hfree).trans (hframe name hfree)⟩
    rw [hget q hq, hfields q hq, Option.map_map, valuesUnder_cons]
    -- the values under the name begin with the one that has just been taken, if it was one of them
    refine congrArg (Option.map · _) (funext fun slot => ?_)
    by_cases he : p.name = q.name
    · rw [if_pos he, List.foldl_cons, Function.comp_apply, if_pos he]
    · rw [if_neg he, Function.comp_apply, if_neg he]

/-- A property that misfits ends the run with the mismatch of the field of its name. What came
before has been taken and what comes behind is never looked at. -/
theorem Schema.takeProperties_of_misfit {r : Record} {ps qs : List Property} {p : Property}
    {q : StoredField} (hs : s.Indexed)
    (hr : (s.code.takeProperties r ps).fault = none) (hq : q ∈ s.fields) (hname : q.name = p.name)
    (hkind : q.kind ≠ p.value.kind) :
    s.code.takeProperties r (ps ++ p :: qs) =
      { record := (s.code.takeProperties r ps).record, fault := some (s.mismatch q) } := by
  rw [Implementation.takeProperties_append, hr]
  show s.code.takeProperties _ (p :: qs) = _
  rw [Implementation.takeProperties, takeProperty_of_mem hs hq hname, if_neg hkind.symm]

/-- A run sees neither marks nor unknown names. By the induction a property is either passed over,
with the record unchanged, or taken by a step that reads its name and its value. -/
theorem Schema.takeProperties_unmarked (hs : s.Indexed) (r : Record) (ps : List Property) :
    s.code.takeProperties r ps =
      s.code.takeProperties r ((ps.filter s.knows).map Property.unmarked) := by
  induction ps generalizing r with
  | nil => rfl
  | cons p ps ih =>
    cases hk : s.knows p with
    | false =>
      rw [List.filter_cons_of_neg (by rw [hk]; simp), ← ih, Implementation.takeProperties,
        takeProperty_of_not_knows hs hk]
    | true =>
      rw [List.filter_cons_of_pos hk, List.map_cons]
      -- one step reads the name and the value of a property and nothing else
      have hsame : s.code.takeProperty r p.unmarked = s.code.takeProperty r p := rfl
      rw [Implementation.takeProperties, Implementation.takeProperties, hsame]
      cases s.code.takeProperty r p with
      | error m => rfl
      | ok r' => exact ih r'

/-! ## The reset before -/

/-- Setting some slots one after the other, all to the same thing, sets those that are named and
leaves the others alone. Repetitions do not matter. -/
theorem get?_foldl_set (ids : List Ident) (slot : Slot) (r : Record) (name : String) :
    (ids.foldl (fun r f => r.set f.text slot) r).get? name =
      if name ∈ ids.map (·.text) then (r.get? name).map fun _ => slot else r.get? name := by
  induction ids generalizing r with
  | nil => simp
  | cons id ids ih =>
    rw [List.foldl_cons, ih, Record.get?_set, List.map_cons]
    by_cases hid : name = id.text
    · subst hid
      simp only [if_true, List.mem_cons_self, Option.map_map, Function.comp_def, ite_self]
    · simp only [hid, List.mem_cons, false_or, if_false]

/-- Resetting a record empties the sequences among its fields and nothing else. The list of
sequences is by identifiers, so it takes distinct identifiers to know which field is meant. -/
theorem Schema.get?_reset {q : StoredField} (hs : s.Apart) (hq : q ∈ s.fields) (r : Record) :
    (s.code.reset r).get? q.ident.text = (r.get? q.ident.text).map q.reset := by
  -- a reset by the identifier of this field is for this field, since identifiers are apart
  have hmem : q.ident.text ∈ s.code.resets.map (·.text) ↔ q.multiple = true := by
    simp only [code, List.map_map, List.mem_map, hs.indexed.mem_sequenceFields,
      Function.comp_apply]
    constructor
    · rintro ⟨a, ⟨p, hp, hm, rfl⟩, he⟩
      have hpq : p = q := hs.eq_of_text_eq hp hq he
      rw [← hpq]
      exact hm
    · intro hm
      exact ⟨q.field, ⟨q, hq, hm, rfl⟩, rfl⟩
  unfold Implementation.reset
  rw [get?_foldl_set]
  unfold StoredField.reset
  by_cases hm : q.multiple = true
  · rw [if_pos (hmem.mpr hm), hm]
    rfl
  · rw [if_neg fun h => hm (hmem.mp h)]
    simp only [if_neg hm, Option.map_id']

/-- A slot that is no field of the schema is not reset. -/
theorem Schema.get?_reset_of_free (hs : s.Indexed) {name : String}
    (hfree : ∀ q ∈ s.fields, q.ident.text ≠ name) (r : Record) :
    (s.code.reset r).get? name = r.get? name := by
  unfold Implementation.reset
  rw [get?_foldl_set, if_neg]
  simp only [code, List.map_map, List.mem_map, hs.mem_sequenceFields, Function.comp_apply]
  rintro ⟨a, ⟨p, hp, -, rfl⟩, he⟩
  exact hfree p hp he

/-! ## Loading -/

/-- Loading properties none of which misfits leaves in every field what is stored under its name,
and leaves everything else alone. -/
theorem Schema.load_ok {ps : List Property} (hs : s.Apart) (h : ∀ p ∈ ps, s.misfits p = false)
    (r : Record) :
    (s.code.load r ps).fault = none ∧
      (∀ q ∈ s.fields, (s.code.load r ps).record.get? q.ident.text =
        (r.get? q.ident.text).map (q.loaded (valuesUnder q.name ps))) ∧
      ∀ name, (∀ q ∈ s.fields, q.ident.text ≠ name) →
        (s.code.load r ps).record.get? name = r.get? name := by
  obtain ⟨hfault, hfields, hframe⟩ := takeProperties_ok hs h (s.code.reset r)
  refine ⟨hfault, fun q hq => ?_,
    fun name hfree => (hframe name hfree).trans (get?_reset_of_free hs.indexed hfree r)⟩
  refine (hfields q hq).trans ?_
  rw [get?_reset hs hq, Option.map_map]
  exact congrArg (Option.map · _) (funext fun old => q.foldl_take_eq_loaded _ old)

/-- The first property that misfits ends the loading with what came before it. -/
theorem Schema.load_of_misfit {ps qs : List Property} {p : Property} {q : StoredField}
    (hs : s.Apart) (h : ∀ p' ∈ ps, s.misfits p' = false) (hq : q ∈ s.fields)
    (hname : q.name = p.name) (hkind : q.kind ≠ p.value.kind) (r : Record) :
    s.code.load r (ps ++ p :: qs) =
      { record := (s.code.load r ps).record, fault := some (s.mismatch q) } :=
  takeProperties_of_misfit hs.indexed (takeProperties_ok hs h (s.code.reset r)).1 hq hname hkind

/-- Where the first misfit stands, the list falls into what fits, the misfit, and a rest. -/
theorem Schema.exists_of_findIdx? {ps : List Property} {n : Nat}
    (h : ps.findIdx? s.misfits = some n) :
    ∃ p, ps[n]? = some p ∧ s.misfits p = true ∧ ps = ps.take n ++ p :: ps.drop (n + 1) ∧
      ∀ p' ∈ ps.take n, s.misfits p' = false := by
  obtain ⟨hn, hp, hbefore⟩ := List.findIdx?_eq_some_iff_getElem.mp h
  refine ⟨ps[n], List.getElem?_eq_getElem hn, hp, ?_, fun p' hp' => ?_⟩
  · rw [← List.drop_eq_getElem_cons hn, List.take_append_drop]
  · obtain ⟨j, hj, rfl⟩ := List.mem_take_iff_getElem.mp hp'
    rw [Nat.lt_min] at hj
    simpa using hbefore j hj.1

/-- **Loading, for every record and every list of properties.** Without a misfit it succeeds: a
single field has the last value under its name, or what it had if there is none; a sequence has all
the values under its name in order; and whatever is no stored field is as it was. With a misfit it
fails at the first one, with the mismatch of the field of that name, and leaves the record that the
properties before it would have left. Marks and unknown names play no part in either. -/
theorem load_up_to_first_misfit {key : String} {e : Entity} {i : Implementation}
    (hs : Schema.derive key e = .ok s) (hi : s.implementation = .ok i) (hd : e.DistinctFields)
    (r : Record) (ps : List Property) :
    (match ps.findIdx? s.misfits with
      | none =>
        (i.load r ps).fault = none ∧
          (∀ p ∈ s.fields, (i.load r ps).record.get? p.ident.text =
            (r.get? p.ident.text).map (p.loaded (valuesUnder p.name ps))) ∧
          ∀ name, (∀ p ∈ s.fields, p.ident.text ≠ name) →
            (i.load r ps).record.get? name = r.get? name
      | some n =>
        ∃ p ∈ s.fields, ∃ q, ps[n]? = some q ∧ p.name = q.name ∧ p.kind ≠ q.value.kind ∧
          (i.load r (ps.take n)).fault = none ∧
          i.load r ps =
            { record := (i.load r (ps.take n)).record
              fault := some ⟨s.typeName, p.field, p.kind.typeName, p.multiple⟩ }) ∧
      i.load r ps = i.load r ((ps.filter s.knows).map Property.unmarked) := by
  have hapart : s.Apart := (Schema.derive_ok hs).apart hd
  obtain ⟨-, rfl⟩ := Schema.implementation_eq_ok_iff.mp hi
  refine ⟨?_, Schema.takeProperties_unmarked hapart.indexed _ ps⟩
  cases hidx : ps.findIdx? s.misfits with
  | none => exact Schema.load_ok hapart (List.findIdx?_eq_none_iff.mp hidx) r
  | some n =>
    -- up to the misfit the properties are loaded as if there were no others
    obtain ⟨q, hq, hmis, hsplit, hbefore⟩ := Schema.exists_of_findIdx? hidx
    obtain ⟨p, hp, hname, hkind⟩ := Schema.misfits_eq_true_iff.mp hmis
    refine ⟨p, hp, q, hq, hname, hkind, (Schema.load_ok hapart hbefore r).1, ?_⟩
    rw [congrArg (s.code.load r) hsplit]
    exact Schema.load_of_misfit hapart hbefore hp hname hkind r

namespace Sample

/-- A post as it was before. -/
def post : Record :=
  ⟨[("title", .one (.string "Old")), ("tags", .many [.string "x"]),
    ("cache", .other (some "None"))]⟩

/-- Two elements for the tags, one of them marked, around a property of a name that is not known. -/
def storedTags : List Property :=
  [⟨"title", .string "a", true, false⟩, ⟨"other", .bool true, false, false⟩,
    ⟨"title", .string "b", false, true⟩]

/-- A title that is no text. -/
def wrongTitle : Property := { name := "tags", value := .int64 7 }

/-- Loading that succeeds, and loading that goes wrong behind it. -/
theorem load_up_to_first_misfit_crossed :
    ((crossedSchema.code.load post storedTags).fault = none ∧
      (crossedSchema.code.load post storedTags).record.get? "tags" =
        some (.many [.string "a", .string "b"])) ∧
      crossedSchema.code.load post (storedTags ++ [wrongTitle]) =
        { record := (crossedSchema.code.load post storedTags).record
          fault := some ⟨"Post", "title", "String", false⟩ } := by
  have hload := load_up_to_first_misfit derive_crossed implementation_crossed
    distinctFields_crossed post
  refine ⟨⟨(hload storedTags).1.1, (hload storedTags).1.2.1 _ (.tail _ (.head _))⟩, ?_⟩
  obtain ⟨p, hp, q, hq, hname, -, -, h⟩ := (hload (storedTags ++ [wrongTitle])).1
  cases hq
  rcases List.mem_pair.mp hp with rfl | rfl
  · exact h
  · exact absurd hname (by decide)

end Sample

end StoreModel
