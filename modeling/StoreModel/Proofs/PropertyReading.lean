import StoreModel.Proofs.JsonReading
import StoreModel.Proofs.TimestampReading

/-!
# Properties read back

A property that is written as JSON is read back as it was, unless its value is a floating-point
number, and the reader does not depend on how the writer puts the members: they may stand in any
order, and a mark that is off may be left out.

The reader fills four places, one for each member, and refuses to fill one twice. What it has after
some members depends only on which they are (`Property.members`), so the induction over the members
keeps a list of those that have been read, and that the next one is not among them is all it needs.
In the end the places that are empty are those of marks, and an empty place counts as a mark that is
off.
-/

set_option autoImplicit false

namespace StoreModel

open StoreModel.Json StoreModel.Text

/-! ## Values -/

namespace Value

variable {v : Value} {rest : List Char}

theorem readContent_contentText (h : v.kind ≠ .float64) (hrest : EndsNumber rest) :
    readContent v.kind (v.contentText.toList ++ rest) = .ok (v, rest) := by
  cases v with
  | bool b => simp [kind, contentText, readContent, readBool_boolText, Except.map]
  | int64 n =>
    have hbounds : Int64.minValue.toInt ≤ n.toInt ∧ n.toInt ≤ Int64.maxValue.toInt :=
      ⟨Int64.minValue_le_toInt n, Int64.toInt_le n⟩
    have hread := readWhole_intText .int64 hbounds (by decide) (by decide) hrest
    simp only [kind, contentText, readContent, hread, Except.map, Int64.ofInt_toInt]
  | float64 x => exact absurd rfl h
  | string s => simp [kind, contentText, readContent, readText_stringText, Except.map]
  | bytes bs => simp [kind, contentText, readContent, readBytes_bytesText, Except.map]
  | byteString s => simp [kind, contentText, readContent, readBytes_bytesText, Except.map]
  | timestamp t =>
    have hread : readTimestamp ((stringText t.text).toList ++ rest) = .ok (t, rest) := by
      refine bind_eq_ok_iff.mpr ⟨_, readText_stringText _ _, ?_⟩
      simp [Timestamp.read_text]
    simp [kind, contentText, readContent, hread, Except.map]

theorem readValue_toJson (h : v.kind ≠ .float64) :
    readValue (v.toJson.toList ++ rest) = .ok (v, rest) := by
  have htext : v.toJson.toList ++ rest = '{' :: ((stringText v.kind.variant).toList ++
      ':' :: (v.contentText.toList ++ '}' :: rest)) := by
    simp [toJson, Kind.toJson]
  have hends : EndsNumber ('}' :: rest) := endsNumber_cons (by simp)
  rw [htext, readValue, skipSpace_cons rfl]
  refine bind_eq_ok_iff.mpr ⟨_, readText_stringText _ _, ?_⟩
  refine bind_eq_ok_iff.mpr ⟨v.kind, by rw [kindNamed, Kind.ofVariant?_variant], ?_⟩
  refine bind_eq_ok_iff.mpr ⟨_, rfl, ?_⟩
  refine bind_eq_ok_iff.mpr ⟨_, readContent_contentText h hends, ?_⟩
  rfl

end Value

/-! ## Members -/

namespace Property

/-- A member of the object that a property is written as. -/
inductive Member where
  | name
  | value
  | multiple
  | noIndex
deriving DecidableEq, Repr

namespace Member

/-- Every member, in the order in which they are written. -/
def all : List Member := [name, value, multiple, noIndex]

def key : Member → String
  | name => "name"
  | value => "value"
  | multiple => "multiple"
  | noIndex => "no_index"

end Member

def memberText (p : Property) : Member → String
  | .name => stringText p.name
  | .value => p.value.toJson
  | .multiple => boolText p.multiple
  | .noIndex => boolText p.noIndex

/-- A property as an object with the given members. -/
def jsonWith (p : Property) (ms : List Member) : String :=
  "\x7b" ++ ",".intercalate (ms.map fun m => stringText m.key ++ ":" ++ p.memberText m) ++ "\x7d"

/-- The members tell the property: none of them stands twice, and none is left out but marks that
are off. -/
structure Shows (p : Property) (ms : List Member) : Prop where
  nodup : ms.Nodup
  name : .name ∈ ms
  value : .value ∈ ms
  multiple : .multiple ∉ ms → p.multiple = false
  noIndex : .noIndex ∉ ms → p.noIndex = false

variable {p : Property} {m : Member} {ms seen : List Member} {r rest : List Char} {n : Nat}

theorem toJson_eq_jsonWith (p : Property) : p.toJson = p.jsonWith Member.all := by
  have hkey : ∀ m : Member, (stringText m.key).toList = '"' :: (m.key.toList ++ ['"']) := by
    intro m
    cases m <;> rfl
  apply String.toList_inj.mp
  unfold toJson jsonWith
  simp [Member.all, hkey, memberText]
  simp [Member.key]

/-- What has been read of a property when some of its members have. -/
def members (p : Property) (seen : List Member) : Members where
  name := if .name ∈ seen then some p.name else none
  value := if .value ∈ seen then some p.value else none
  multiple := if .multiple ∈ seen then some p.multiple else none
  noIndex := if .noIndex ∈ seen then some p.noIndex else none

theorem has_members (p : Property) (m : Member) (seen : List Member) :
    (p.members seen).has m.key = decide (m ∈ seen) := by
  by_cases h : m ∈ seen
  · cases m <;> simp [Members.has, members, Member.key, h]
  · cases m <;> simp [Members.has, members, Member.key, h]

theorem readValue_members (h : p.value.kind ≠ .float64) :
    (p.members seen).readValue m.key ((p.memberText m).toList ++ rest) =
      .ok (p.members (m :: seen), rest) := by
  cases m
  all_goals simp [Members.readValue, members, Member.key, memberText, Except.map,
    readText_stringText, Value.readValue_toJson h, readBool_boolText]

theorem read_members (h : p.value.kind ≠ .float64) (hnew : m ∉ seen) :
    (p.members seen).read m.key (':' :: ((p.memberText m).toList ++ rest)) =
      .ok (p.members (m :: seen), rest) := by
  rw [Members.read, has_members, if_neg (by simpa using hnew)]
  exact bind_eq_ok_iff.mpr ⟨_, rfl, readValue_members h⟩

/-- A mark that is off is the same as one that is not there. -/
theorem getD_mark {b : Bool} (h : m ∉ ms → b = false) :
    (if m ∈ ms then some b else none).getD false = b := by
  split
  case isTrue => rfl
  case isFalse hm => exact (h hm).symm

theorem property_members (h : p.Shows ms) : (p.members ms).property = .ok p := by
  simp [members, Members.property, h.name, h.value, getD_mark h.multiple, getD_mark h.noIndex]

/-! ## Objects -/

/-- A member behind the quote that opens its name. -/
def memberTail (p : Property) (m : Member) : List Char :=
  m.key.toList.flatMap stringChar ++ '"' :: ':' :: (p.memberText m).toList

theorem nextMember_comma : nextMember false (',' :: '"' :: r) = .ok (some r) := rfl

/-- A member is read into its place, and then those behind it. -/
theorem readMembers_step {first : Bool} {cs : List Char} {res : Members}
    (h : p.value.kind ≠ .float64) (hnext : nextMember first cs = .ok (some (p.memberTail m ++ r)))
    (hnew : m ∉ seen) (hrest : readMembers n false (p.members (m :: seen)) r = .ok (res, rest)) :
    readMembers (n + 1) first (p.members seen) cs = .ok (res, rest) := by
  have htail : p.memberTail m ++ r = m.key.toList.flatMap stringChar ++
      '"' :: ':' :: ((p.memberText m).toList ++ r) := by
    simp [memberTail]
  refine bind_eq_ok_iff.mpr ⟨_, hnext, ?_⟩
  rw [htail]
  refine bind_eq_ok_iff.mpr ⟨_, readString_flatMap m.key, ?_⟩
  exact bind_eq_ok_iff.mpr ⟨_, read_members h hnew, hrest⟩

theorem readMembers_flatMap (h : p.value.kind ≠ .float64) (hn : ms.length < n)
    (hnodup : (ms ++ seen).Nodup) :
    readMembers n false (p.members seen) (ms.flatMap (fun m => ',' :: '"' :: p.memberTail m) ++
      '}' :: rest) = .ok (p.members (ms.reverse ++ seen), '}' :: rest) := by
  induction ms generalizing n seen with
  | nil =>
    obtain ⟨n, rfl⟩ := Nat.exists_eq_succ_of_ne_zero (Nat.ne_of_gt hn)
    rfl
  | cons m ms ih =>
    obtain ⟨n, rfl⟩ := Nat.exists_eq_succ_of_ne_zero (Nat.ne_of_gt (Nat.zero_lt_of_lt hn))
    obtain ⟨hm, -⟩ := List.nodup_cons.mp hnodup
    -- the next member is not among those that have been read, so its place is empty
    have hnew : m ∉ seen := fun hseen => hm (List.mem_append_right ms hseen)
    have hmoved : (ms ++ m :: seen).Nodup := List.perm_middle.symm.nodup hnodup
    have hrec := ih (Nat.lt_of_succ_lt_succ hn) hmoved
    rw [List.reverse_cons, List.append_assoc, List.singleton_append]
    exact readMembers_step h (by simp [nextMember_comma]) hnew hrec

/-- What is read does not depend on how the members are put. -/
theorem ofJson?_jsonWith (h : p.value.kind ≠ .float64) (hms : p.Shows ms) :
    ofJson? (p.jsonWith ms) = .ok p := by
  cases ms with
  | nil => exact absurd hms.name List.not_mem_nil
  | cons m ms =>
    have htext : (p.jsonWith (m :: ms)).toList = '{' :: '"' :: (p.memberTail m ++
        (ms.flatMap (fun m => ',' :: '"' :: p.memberTail m) ++ ['}'])) := by
      simp [jsonWith, intercalate_comma_cons, List.flatMap_map, stringText, memberTail]
    have hnodup : (ms ++ [m]).Nodup := (List.perm_append_singleton m ms).symm.nodup hms.nodup
    have hmembers : ∀ n, ms.length < n → readMembers (n + 1) true {} ('"' :: (p.memberTail m ++
        (ms.flatMap (fun m => ',' :: '"' :: p.memberTail m) ++ ['}']))) =
        .ok (p.members (ms.reverse ++ [m]), ['}']) := by
      intro n hn
      have hrest : readMembers n false (p.members [m])
          (ms.flatMap (fun m => ',' :: '"' :: p.memberTail m) ++ ['}']) =
          .ok (p.members (ms.reverse ++ [m]), ['}']) := readMembers_flatMap h hn hnodup
      exact readMembers_step h rfl List.not_mem_nil hrest
    have hlength := length_le_flatMap (f := fun m => ',' :: '"' :: p.memberTail m) (by simp) ms
    -- the members have been read in order, but what is in the places does not tell that
    have hsame : p.members (ms.reverse ++ [m]) = p.members (m :: ms) := by
      simp [members, or_comm]
    refine bind_eq_ok_iff.mpr ⟨(p, []), ?_, rfl⟩
    rw [htext, readProperty, skipSpace_cons rfl]
    refine bind_eq_ok_iff.mpr ⟨_, hmembers _ ?_, ?_⟩
    · simp only [List.length_append, List.length_cons]
      omega
    · rw [hsame]
      exact bind_eq_ok_iff.mpr ⟨p, property_members hms, rfl⟩

theorem shows_of_perm (h : ms.Perm Member.all) : p.Shows ms := by
  have hall : ∀ m, m ∈ ms := by
    intro m
    rw [h.mem_iff]
    cases m <;> decide
  exact ⟨h.symm.nodup (by decide), hall _, hall _, fun hout => absurd (hall _) hout,
    fun hout => absurd (hall _) hout⟩

/-- **A property is read back from its JSON text**, and from every text that has the same members in
another order or leaves out marks that are off. -/
theorem reads_back (p : Property) (h : p.value.kind ≠ .float64) :
    ofJson? p.toJson = .ok p ∧ p.toJson = p.jsonWith Member.all ∧
    ∀ ms, p.Shows ms → ofJson? (p.jsonWith ms) = .ok p := by
  refine ⟨?_, p.toJson_eq_jsonWith, ?_⟩
  · rw [toJson_eq_jsonWith]
    exact ofJson?_jsonWith h (shows_of_perm (.refl _))
  · intro ms hms
    exact ofJson?_jsonWith h hms

end Property

namespace Sample

/-- A time within the last leap second, under a name that has to be escaped. -/
def switched : Property where
  name := "at\x1b \"é\""
  value := .timestamp ⟨⟨2016, 12, 31, by decide, by decide, by decide⟩, 86399, 1500000000,
    by decide, by decide, by decide⟩
  multiple := true

theorem reads_back_switched :
    switched.value.kind ≠ .float64 ∧ Property.ofJson? switched.toJson = .ok switched ∧
      switched.Shows [.value, .multiple, .name] ∧
      switched.jsonWith [.value, .multiple, .name] =
        "\x7b\"value\":\x7b\"Timestamp\":\"2016-12-31T23:59:60.500Z\"\x7d,\"multiple\":true," ++
          "\"name\":\"at\\u001b \\\"é\\\"\"\x7d" ∧
      Property.ofJson? (switched.jsonWith [.value, .multiple, .name]) = .ok switched := by
  have hkind : switched.value.kind ≠ .float64 := by decide
  have hshows : switched.Shows [.value, .multiple, .name] :=
    ⟨by decide, by decide, by decide, by decide, by decide⟩
  obtain ⟨hwritten, -, hshown⟩ := switched.reads_back hkind
  exact ⟨hkind, hwritten, hshows, by decide +kernel, hshown _ hshows⟩

end Sample

end StoreModel
