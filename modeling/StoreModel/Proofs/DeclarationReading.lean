import Mathlib.Data.List.Forall2
import StoreModel.Proofs.KeyArguments

/-!
# Items that declare an entity

`Declaration.ofItem` goes through the attributes of an item with the key that was found so far, and
then through the fields, each with the tag that was found so far. What it accepts is said here of
the item as a whole (`Declarable`): the keys of all its attributes are one list, and no walk is
mentioned. What is refused is said with the place of the fault (`FirstViolation`): all before it is
accepted, and it is the first.

The key found so far is the one thing that attributes share. It is an option and the keys are a
list, so the walk is followed by comparing lists, `key.toList` with all keys of the attributes that
were passed; that there is one key at most need not be said in between.
-/

set_option autoImplicit false

namespace StoreModel.Declaration

open StoreModel.Source StoreModel.Text

/-! ## The attributes of the item -/

/-- The attributes that say how records are stored. -/
def storing (as : List Attribute) : List Attribute := as.filter (·.isNamed attributeName)

/-- The keys that an attribute gives. -/
def KeysOf (a : Attribute) (keys : List String) : Prop :=
  ∃ d ts, a.body = .group d ts ∧ KeyList ts keys

/-- The attributes of an item give keys, one at most among all of them. -/
structure WellKeyed (as : List Attribute) (keys : List String) : Prop where
  lists : ∃ lists, List.Forall₂ KeysOf (storing as) lists ∧ keys = lists.flatten
  once : keys.length ≤ 1
  filled : ∀ s ∈ keys, ¬ AllBlank s.toList

variable {a : Attribute} {as : List Attribute} {key key' : Option String} {e : DeclarationError}

/-- A list of at most one element is the list of an option. This is how the key found so far and the
keys of the attributes that were passed are compared. -/
theorem exists_toList_eq {l : List String} (h : l.length ≤ 1) :
    ∃ o : Option String, o.toList = l := by
  match l with
  | [] => exact ⟨none, rfl⟩
  | [s] => exact ⟨some s, rfl⟩
  | _ :: _ :: _ => simp at h

theorem toList_injective {o o' : Option String} (h : o.toList = o'.toList) : o = o' := by
  cases o <;> cases o' <;> simp_all

theorem readKeyAttribute_group {d : Delimiter} {ts : List Tree} (hbody : a.body = .group d ts)
    (hne : ts ≠ []) : readKeyAttribute key a = readArguments ts.length key ts := by
  unfold readKeyAttribute
  rw [hbody]
  cases ts with
  | nil => exact absurd rfl hne
  | cons t ts => rfl

/-- An attribute is accepted if it gives keys, none of them blank, that are no more than one
together with the key before. An attribute without arguments in its brackets gives none and is
always accepted, so it is looked at apart. -/
theorem readKeyAttribute_ok_iff : readKeyAttribute key a = .ok key' ↔
    ∃ keys, KeysOf a keys ∧ (∀ s ∈ keys, ¬ AllBlank s.toList) ∧
      key'.toList = key.toList ++ keys := by
  unfold KeysOf
  cases hbody : a.body with
  | nothing =>
    unfold readKeyAttribute
    simp [hbody]
  | value ts =>
    unfold readKeyAttribute
    simp [hbody]
  | group d ts =>
    by_cases hne : ts = []
    · subst hne
      unfold readKeyAttribute
      rw [hbody]
      constructor
      · intro h
        cases h
        exact ⟨[], ⟨d, [], rfl, .nil⟩, by simp, by simp⟩
      · rintro ⟨keys, ⟨d', ts, hgroup, hlist⟩, -, hkey⟩
        cases hgroup
        rw [hlist.eq_nil_iff.mpr rfl, List.append_nil] at hkey
        rw [toList_injective hkey]
    · rw [readKeyAttribute_group hbody hne, readArguments_ok_iff hne le_rfl]
      constructor
      · rintro ⟨rfl, s, hlist, hfilled, rfl⟩
        exact ⟨[s], ⟨d, ts, rfl, hlist⟩, by simpa using hfilled, rfl⟩
      · rintro ⟨keys, ⟨d', ts', hgroup, hlist⟩, hfilled, hkey⟩
        cases hgroup
        -- a list that is not empty gives a key, and there is room for one only
        have hkeys : keys ≠ [] := fun hnil => hne (hlist.eq_nil_iff.mp hnil)
        cases key with
        | some k => cases key' <;> simp_all
        | none =>
          cases key' with
          | none => simp_all
          | some s =>
            obtain rfl : [s] = keys := hkey
            exact ⟨rfl, s, hlist, hfilled s List.mem_cons_self, rfl⟩

theorem ListFault.ne_nil {given : Bool} {ts : List Tree} (h : ListFault given ts e) : ts ≠ [] := by
  cases h with
  | argument ne h => exact ne
  | further h filled fault => exact h.ne_nil

theorem readKey_cons_of_named (h : a.isNamed attributeName = true) :
    readKey key (a :: as) = readKeyAttribute key a >>= fun key => readKey key as := by
  rw [readKey, if_pos h]

theorem readKey_cons_of_not_named (h : a.isNamed attributeName = false) :
    readKey key (a :: as) = readKey key as := by
  rw [readKey, h]
  rfl

theorem storing_cons_of_named (h : a.isNamed attributeName = true) :
    storing (a :: as) = a :: storing as := List.filter_cons_of_pos h

theorem storing_cons_of_not_named (h : a.isNamed attributeName = false) :
    storing (a :: as) = storing as := List.filter_cons_of_neg (by simp [h])

/-- The key after attributes is the one before them, or one of theirs. The invariant of the walk is
that the key found so far, as a list, is what all attributes before have given; attributes of other
names give nothing. -/
theorem readKey_ok_iff : readKey key as = .ok key' ↔
    ∃ lists, List.Forall₂ KeysOf (storing as) lists ∧
      (∀ s ∈ lists.flatten, ¬ AllBlank s.toList) ∧ key'.toList = key.toList ++ lists.flatten := by
  induction as generalizing key with
  | nil =>
    constructor
    · intro h
      cases h
      exact ⟨[], .nil, by simp, by simp⟩
    · rintro ⟨lists, hlists, -, hkey⟩
      obtain rfl : lists = [] := List.forall₂_nil_left_iff.mp hlists
      rw [toList_injective (hkey.trans (List.append_nil _)), readKey]
  | cons a as ih =>
    cases hnamed : a.isNamed attributeName with
    | false => rw [readKey_cons_of_not_named hnamed, storing_cons_of_not_named hnamed, ih]
    | true =>
      rw [readKey_cons_of_named hnamed, storing_cons_of_named hnamed, bind_eq_ok_iff]
      simp only [readKeyAttribute_ok_iff, ih]
      constructor
      · rintro ⟨mid, ⟨keys, hkeys, hfilled, hmid⟩, lists, hlists, hfilled', hkey⟩
        refine ⟨keys :: lists, .cons hkeys hlists, fun s hs => ?_, ?_⟩
        · rcases List.mem_append.mp (List.flatten_cons ▸ hs) with hs | hs
          · exact hfilled s hs
          · exact hfilled' s hs
        · rw [hkey, hmid, List.flatten_cons, List.append_assoc]
      · rintro ⟨lists, hlists, hfilled, hkey⟩
        obtain ⟨keys, lists, hkeys, hlater, rfl⟩ := List.forall₂_cons_left_iff.mp hlists
        rw [List.flatten_cons] at hfilled hkey
        -- the walk stops in between only if the keys up to there fit into an option
        have hroom : (key.toList ++ keys).length ≤ 1 := by
          have hlength := congrArg List.length hkey
          have hone : key'.toList.length ≤ 1 := by cases key' <;> simp
          simp only [List.length_append] at hlength ⊢
          omega
        obtain ⟨mid, hmid⟩ := exists_toList_eq hroom
        refine ⟨mid, ⟨keys, hkeys, fun s hs => hfilled s (List.mem_append_left _ hs), hmid⟩,
          lists, hlater, fun s hs => hfilled s (List.mem_append_right _ hs), ?_⟩
        rw [hkey, hmid, List.append_assoc]

/-- A walk over all attributes of an item succeeds exactly if they give one key at most. -/
theorem readKey_none_ok_iff : readKey none as = .ok key ↔ WellKeyed as key.toList := by
  rw [readKey_ok_iff]
  constructor
  · rintro ⟨lists, hlists, hfilled, hkey⟩
    rw [Option.toList_none, List.nil_append] at hkey
    exact ⟨⟨lists, hlists, hkey⟩, by cases key <;> simp, hkey ▸ hfilled⟩
  · rintro ⟨⟨lists, hlists, hkey⟩, -, hfilled⟩
    exact ⟨lists, hlists, hkey ▸ hfilled, hkey⟩

/-- The attribute holds one string literal and nothing else. -/
def HoldsText (a : Attribute) (s : String) : Prop :=
  ∃ d text, a.body = .group d [.literal text (.string s)]

/-- The tag that the attributes of a field give. -/
inductive TagWritten (as : List Attribute) : Option String → Prop where
  | none (h : storing as = []) : TagWritten as none
  | one {a : Attribute} {s : String} (h : storing as = [a]) (text : HoldsText a s) :
    TagWritten as (some s)

/-- The attributes of a field are at fault. -/
inductive TagFault (as : List Attribute) : DeclarationError → Prop where
  | bad {a : Attribute} {later : List Attribute} (h : storing as = a :: later)
    (no : ∀ s, ¬ HoldsText a s) : TagFault as .badTag
  | twice {a b : Attribute} {later : List Attribute} {s : String}
    (h : storing as = a :: b :: later) (text : HoldsText a s) : TagFault as .tagTwice

/-- A field is described as it is declared. -/
structure DescribedAs (f : NamedField) (g : Field) : Prop where
  name : g.name = f.name
  exported : g.exported = true ↔ f.visibility = .everyone
  tag : TagWritten f.attributes g.tag
  shape : g.shape = Shape.ofType f.type

variable {tag : Option String}

theorem tagOf?_eq_some_iff {s : String} : tagOf? a = some s ↔ HoldsText a s := by
  unfold tagOf? HoldsText
  constructor
  · intro h
    split at h
    case h_1 d text str hbody =>
      cases h
      exact ⟨d, text, hbody⟩
    case h_2 => cases h
  · rintro ⟨d, text, hbody⟩
    rw [hbody]

theorem tagOf?_eq_none_iff : tagOf? a = none ↔ ∀ s, ¬ HoldsText a s := by
  simp only [← tagOf?_eq_some_iff, Option.eq_none_iff_forall_ne_some, ne_eq]

/-- Other attributes are passed over. So the attributes of a field are looked at as if only those
with the right name were there, and then two cases are all there are. -/
theorem readTag_storing : readTag tag (storing as) = readTag tag as := by
  induction as generalizing tag with
  | nil => rfl
  | cons b as ih =>
    cases hnamed : b.isNamed attributeName with
    | false =>
      rw [storing_cons_of_not_named hnamed, ih, readTag, hnamed]
      rfl
    | true =>
      rw [storing_cons_of_named hnamed, readTag, readTag, if_pos hnamed, if_pos hnamed]
      split
      · rfl
      · split
        · exact ih
        · rfl

theorem isNamed_of_storing_cons {later : List Attribute} (h : storing as = a :: later) :
    a.isNamed attributeName = true ∧ ∀ b ∈ later, b.isNamed attributeName = true := by
  have hall : ∀ b ∈ a :: later, b.isNamed attributeName = true := fun b hb =>
    (List.mem_filter.mp (show b ∈ storing as from h ▸ hb)).2
  exact List.forall_mem_cons.mp hall

theorem readTag_of_storing_cons {later : List Attribute} (h : storing as = a :: later) :
    readTag none as = match tagOf? a with
      | some s => readTag (some s) later
      | none => .error .badTag := by
  rw [← readTag_storing, h]
  exact (if_pos (isNamed_of_storing_cons h).1).trans rfl

theorem TagWritten.readTag_eq (h : TagWritten as tag) : readTag Option.none as = .ok tag := by
  cases h with
  | none h =>
    rw [← readTag_storing, h]
    rfl
  | one h text =>
    rw [readTag_of_storing_cons h, tagOf?_eq_some_iff.mpr text]
    rfl

/-- Attributes of a field that are at fault are refused. The first one is read before the second is
noticed, so a bad first one is not said to be one too many. -/
theorem TagFault.readTag_eq (h : TagFault as e) : readTag none as = .error e := by
  cases h with
  | bad h no => rw [readTag_of_storing_cons h, tagOf?_eq_none_iff.mpr no]
  | twice h text =>
    have hsecond := (isNamed_of_storing_cons h).2 _ List.mem_cons_self
    rw [readTag_of_storing_cons h, tagOf?_eq_some_iff.mpr text]
    exact (if_pos hsecond).trans rfl

/-- The attributes of a field give a tag, or none, or are at fault: none of the right name, one, or
at least two, with the first one holding a text or not. -/
theorem tagWritten_or_tagFault (as : List Attribute) :
    (∃ tag, TagWritten as tag) ∨ ∃ e, TagFault as e := by
  rcases hstoring : storing as with - | ⟨a, later⟩
  · exact Or.inl ⟨none, .none hstoring⟩
  · cases htag : tagOf? a with
    | none => exact Or.inr ⟨_, .bad hstoring (tagOf?_eq_none_iff.mp htag)⟩
    | some s =>
      have htext := tagOf?_eq_some_iff.mp htag
      cases later with
      | nil => exact Or.inl ⟨some s, .one hstoring htext⟩
      | cons b later => exact Or.inr ⟨_, .twice hstoring htext⟩

theorem readTag_ok_iff : readTag none as = .ok tag ↔ TagWritten as tag := by
  refine ⟨fun h => ?_, TagWritten.readTag_eq⟩
  rcases tagWritten_or_tagFault as with ⟨tag', hwritten⟩ | ⟨e, hfault⟩
  · obtain rfl : tag' = tag := Except.ok.inj (hwritten.readTag_eq.symm.trans h)
    exact hwritten
  · cases hfault.readTag_eq.symm.trans h

theorem isPublic_eq_true_iff {v : Visibility} : v.isPublic = true ↔ v = .everyone := by
  cases v <;> simp [Visibility.isPublic]

section Fields

variable {f : NamedField} {fs : List NamedField} {g : Field} {gs : List Field}

/-- A field is described exactly as it is declared, and only its tag can be in the way. -/
theorem readField_ok_iff : readField f = .ok g ↔ DescribedAs f g := by
  unfold readField
  rw [bind_eq_ok_iff]
  constructor
  · rintro ⟨tag, htag, h⟩
    cases h
    exact ⟨rfl, isPublic_eq_true_iff, readTag_ok_iff.mp htag, rfl⟩
  · intro h
    refine ⟨g.tag, readTag_ok_iff.mpr h.tag, congrArg Except.ok ?_⟩
    obtain ⟨name, exported, tag, shape⟩ := g
    obtain ⟨rfl, hexported, -, rfl⟩ := h
    rw [Bool.eq_iff_iff.mpr (isPublic_eq_true_iff.trans hexported.symm)]

theorem readFields_ok_iff : readFields fs = .ok gs ↔ List.Forall₂ DescribedAs fs gs := by
  induction fs generalizing gs with
  | nil =>
    rw [List.forall₂_nil_left_iff, readFields, Except.ok.injEq, eq_comm]
  | cons f fs ih =>
    rw [readFields, bind_eq_ok_iff, List.forall₂_cons_left_iff]
    constructor
    · rintro ⟨g, hg, h⟩
      obtain ⟨gs', hgs, h⟩ := bind_eq_ok_iff.mp h
      cases h
      exact ⟨g, gs', readField_ok_iff.mp hg, ih.mp hgs, rfl⟩
    · rintro ⟨g, gs', hg, hgs, rfl⟩
      exact ⟨g, readField_ok_iff.mpr hg, bind_eq_ok_iff.mpr ⟨gs', ih.mpr hgs, rfl⟩⟩

end Fields

/-! ## Items -/

/-- The entity that the item declares, with its key. -/
structure Declares (i : Item) (d : Declaration) : Prop where
  plain : i.generic = false
  key : ∃ keys, WellKeyed i.attributes keys ∧ d.key = keys.headD i.name
  typeName : d.entity.typeName = i.name
  fields : ∃ fs, i.body = .named fs ∧ List.Forall₂ DescribedAs fs d.entity.fields

variable {b : Body} {i : Item}

theorem readBody_ok_iff {gs : List Field} :
    readBody b = .ok gs ↔ ∃ fs, b = .named fs ∧ List.Forall₂ DescribedAs fs gs := by
  cases b with
  | named fs =>
    rw [readBody, readFields_ok_iff]
    simp
  | numbered | empty | enumeration | overlay => simp [readBody]

theorem ofItem_of_plain (h : i.generic = false) : ofItem i =
    readKey none i.attributes >>= fun key => readBody i.body >>= fun fields =>
      .ok { key := key.getD i.name, entity := { typeName := i.name, fields } } := by
  unfold ofItem
  rw [h]
  rfl

theorem getD_eq_headD (key : Option String) (s : String) : key.getD s = key.toList.headD s := by
  cases key <;> rfl

/-- Attributes that give one key at most are read, and the key is theirs. -/
theorem WellKeyed.exists_key {keys : List String} (h : WellKeyed as keys) :
    ∃ key, readKey none as = .ok key ∧ key.toList = keys := by
  obtain ⟨key, rfl⟩ := exists_toList_eq h.once
  exact ⟨key, readKey_none_ok_iff.mpr h, rfl⟩

/-- An item is accepted as the entity that it declares: no generic parameters, attributes that give
one key at most, and fields that can be described. -/
theorem ofItem_ok_iff {d : Declaration} : ofItem i = .ok d ↔ Declares i d := by
  constructor
  · intro h
    cases hgeneric : i.generic with
    | true =>
      unfold ofItem at h
      rw [hgeneric] at h
      cases h
    | false =>
      rw [ofItem_of_plain hgeneric] at h
      obtain ⟨key, hkey, h⟩ := bind_eq_ok_iff.mp h
      obtain ⟨fields, hfields, h⟩ := bind_eq_ok_iff.mp h
      cases h
      exact ⟨hgeneric, ⟨_, readKey_none_ok_iff.mp hkey, getD_eq_headD _ _⟩, rfl,
        readBody_ok_iff.mp hfields⟩
  · rintro ⟨hgeneric, ⟨keys, hkeyed, hdkey⟩, htype, hfields⟩
    obtain ⟨key, hkey, rfl⟩ := hkeyed.exists_key
    rw [ofItem_of_plain hgeneric]
    refine bind_eq_ok_iff.mpr ⟨key, hkey, bind_eq_ok_iff.mpr
      ⟨d.entity.fields, readBody_ok_iff.mpr hfields, congrArg Except.ok ?_⟩⟩
    obtain ⟨dkey, typeName, fields⟩ := d
    obtain rfl : typeName = i.name := htype
    obtain rfl : dkey = key.toList.headD i.name := hdkey
    rw [getD_eq_headD]

/-- The second of two keys is refused before the form of the item is looked at. -/
example (key : Attribute) (h : key = ⟨false, ["datastore"], .group .paren
      [.word "kind", .mark '=', .literal "\"A\"" (.string "A"), .mark ',']⟩) :
    ofItem ⟨[key, ⟨false, ["doc"], .nothing⟩, key], "Post", false, .enumeration⟩ =
      .error .keyTwice := by
  subst h
  rfl

end StoreModel.Declaration
