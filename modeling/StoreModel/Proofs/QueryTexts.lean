import Mathlib.Data.List.Nodup
import Mathlib.Data.List.ProdSigma
import StoreModel.Proofs.Views

/-!
# Queries that have one text

The text of a query is the stored name with a sign in front of it, an operator behind it, or nothing
at all, so the text does not tell where the name ends. A name may itself begin with the sign or end
with an operator, and then a query for one field is written like another query for another field.
This file lists the ways in which that can happen (`WrittenAlike`). There are three, and each needs
a name of such a form; so where no stored name has it, every query of a type has a text of its own.

No operator ends with another one. That is why two comparisons are never written alike, and what
leaves the order of the names as the only query that can be mistaken for a comparison.
-/

set_option autoImplicit false

namespace StoreModel

/-! ## The parts of a text -/

/-- What a comparison puts behind the name. -/
def Query.operator? : Query → Option String
  | .equal => some " ="
  | .ascending => none
  | .descending => none
  | .greater => some " >"
  | .atLeast => some " >="
  | .less => some " <"
  | .atMost => some " <="

namespace Query

variable {a b : Query} {o o' n m : String}

theorem ordered_or_compares (a : Query) :
    a = ascending ∨ a = descending ∨ ∃ o, a.operator? = some o := by
  cases a <;> simp [operator?]

theorem text_of_operator (h : a.operator? = some o) : a.text n = n ++ o := by
  cases a with
  | ascending | descending => cases h
  | equal | greater | atLeast | less | atMost =>
    cases h
    rfl

theorem eq_of_operator (ha : a.operator? = some o) (hb : b.operator? = some o) : a = b := by
  revert ha
  cases b <;> cases hb <;> cases a <;> simp [operator?]

theorem mem_operators (h : a.operator? = some o) : o ∈ all.filterMap operator? :=
  List.mem_filterMap.mpr ⟨a, by cases a <;> decide, h⟩

theorem eq_of_suffix : ∀ o ∈ all.filterMap operator?, ∀ o' ∈ all.filterMap operator?,
    o.toList <:+ o'.toList → o = o' := by decide

/-- Two texts that end with operators end with one operator, and are the same in front of it. Of two
ends of one text the shorter ends the longer, and no operator ends another. -/
theorem append_operator_inj (ha : a.operator? = some o) (hb : b.operator? = some o')
    (h : n ++ o = m ++ o') : n = m ∧ o = o' := by
  have hlist := congrArg String.toList h
  rw [String.toList_append, String.toList_append] at hlist
  have ho := mem_operators ha
  have ho' := mem_operators hb
  have hoo : o = o' := by
    rcases List.suffix_or_suffix_of_suffix (List.suffix_append n.toList o.toList)
      (hlist ▸ List.suffix_append m.toList o'.toList) with hsuf | hsuf
    · exact eq_of_suffix o ho o' ho' hsuf
    · exact (eq_of_suffix o' ho' o ho hsuf).symm
  subst hoo
  exact ⟨String.toList_inj.mp (List.append_cancel_right hlist), rfl⟩

end Query

/-! ## Two queries of one text -/

/-- The first query is for the order of one of the names and is written like the second one. -/
inductive WrittenAlike (n : String) (a : Query) (m : String) (b : Query) : Prop where
  /-- A name with an operator at its end, and the comparison by it. -/
  | comparison {o : String} (ha : a = .ascending) (hb : b.operator? = some o) (hn : n = m ++ o)
  /-- A name with the sign in front, and the reversed order. -/
  | reversal (ha : a = .ascending) (hb : b = .descending) (hn : n = "-" ++ m)
  /-- The sign is of the order on one side and of the name on the other, the operator the other way
  round. -/
  | both {o r : String} (ha : a = .descending) (hb : b.operator? = some o) (hm : m = "-" ++ r)
    (hn : n = r ++ o)

variable {n m : String} {a b : Query}

theorem WrittenAlike.text_eq (h : WrittenAlike n a m b) : a.text n = b.text m := by
  obtain ⟨rfl, hb, rfl⟩ | ⟨rfl, rfl, rfl⟩ | ⟨rfl, hb, rfl, rfl⟩ := h
  · exact (Query.text_of_operator hb).symm
  · rfl
  · rw [Query.text_of_operator hb, String.append_assoc]
    rfl

/-- A sign in front of a text is one in front of the name, if an operator is split off behind. -/
theorem exists_of_sign_append_eq {o : String} (hm : m ≠ "") (h : "-" ++ n = m ++ o) :
    ∃ r, m = "-" ++ r ∧ n = r ++ o := by
  have hlist : '-' :: n.toList = m.toList ++ o.toList := by
    have hchars := congrArg String.toList h
    simpa using hchars
  cases hmlist : m.toList with
  | nil => exact absurd (String.toList_eq_nil_iff.mp hmlist) hm
  | cons c r =>
    rw [hmlist, List.cons_append, List.cons.injEq] at hlist
    obtain ⟨rfl, hn⟩ := hlist
    refine ⟨String.ofList r, ?_, ?_⟩
    · rw [← String.toList_inj, hmlist]
      simp
    · rw [← String.toList_inj, hn]
      simp

/-- Different queries for names, or one query for different names, have one text just if they are
written alike. -/
theorem Query.text_eq_iff (hn : n ≠ "") (hm : m ≠ "") (hne : n = m → a ≠ b) :
    a.text n = b.text m ↔ WrittenAlike n a m b ∨ WrittenAlike m b n a := by
  constructor
  · intro h
    -- nine pairs of an order from below, one from above and a comparison; those on the diagonal
    -- would be one query for one name
    rcases a.ordered_or_compares with rfl | rfl | ⟨o, ha⟩
    · rcases b.ordered_or_compares with rfl | rfl | ⟨o', hb⟩
      · exact absurd rfl (hne h)
      · exact Or.inl (.reversal rfl rfl h)
      · exact Or.inl (.comparison rfl hb (h.trans (text_of_operator hb)))
    · rcases b.ordered_or_compares with rfl | rfl | ⟨o', hb⟩
      · exact Or.inr (.reversal rfl rfl h.symm)
      · have hlist := congrArg String.toList h
        simp only [text, String.toList_append, List.append_cancel_left_eq] at hlist
        exact absurd rfl (hne (String.toList_inj.mp hlist))
      · obtain ⟨r, hmr, hnr⟩ := exists_of_sign_append_eq hm (h.trans (text_of_operator hb))
        exact Or.inl (.both rfl hb hmr hnr)
    · rw [text_of_operator ha] at h
      rcases b.ordered_or_compares with rfl | rfl | ⟨o', hb⟩
      · exact Or.inr (.comparison rfl ha h.symm)
      · obtain ⟨r, hnr, hmr⟩ := exists_of_sign_append_eq hn h.symm
        exact Or.inr (.both rfl ha hnr hmr)
      · rw [text_of_operator hb] at h
        obtain ⟨hnm, rfl⟩ := append_operator_inj ha hb h
        exact absurd (eq_of_operator ha hb) (hne hnm)
  · rintro (h | h)
    · exact h.text_eq
    · exact h.text_eq.symm

/-! ## The queries of a type -/

/-- The constant for a query of a field. -/
def StoredField.constant (typeName : String) (p : StoredField) (q : Query) : Intended :=
  { name := queryConstant typeName p.field q, value := q.text p.name, field := p.field }

theorem StoredField.constants_eq_map (t : String) (p : StoredField) :
    p.constants t = Query.all.map (p.constant t) := rfl

/-- A name that neither begins with the sign of an order nor ends with the operator of a
comparison. -/
structure Unmistakable (n : String) : Prop where
  sign : ∀ r, n ≠ "-" ++ r
  operator : ∀ q o r, Query.operator? q = some o → n ≠ r ++ o

theorem Unmistakable.not_writtenAlike (hn : Unmistakable n) (hm : Unmistakable m) :
    ¬ WrittenAlike n a m b := by
  rintro (⟨-, hb, hname⟩ | ⟨-, -, hname⟩ | ⟨-, -, hname, -⟩)
  · exact hn.operator _ _ _ hb hname
  · exact hn.sign _ hname
  · exact hm.sign _ hname

theorem Schema.map_value_queries (s : Schema) :
    (s.indexed.flatMap (StoredField.constants s.typeName)).map (·.value) =
      (s.indexed ×ˢ Query.all).map fun x => (x.1.constant s.typeName x.2).value := by
  show _ = (s.indexed.flatMap fun p => Query.all.map (Prod.mk p)).map _
  rw [List.map_flatMap, List.map_flatMap]
  refine List.flatMap_congr fun p _ => ?_
  rw [p.constants_eq_map, List.map_map, List.map_map]
  rfl

/-- **When two queries of a type have one text.** Of two different queries, for one field or for
two, one is the order of a name that is written like the other query. Where no name of an indexed
field is of such a form, no text comes twice. -/
theorem Schema.query_texts_eq_iff {key : String} {e : Entity} {s : Schema}
    (hs : derive key e = .ok s) :
    (∀ p ∈ s.indexed, ∀ q ∈ s.indexed, ∀ a b : Query, (p, a) ≠ (q, b) →
      ((p.constant s.typeName a).value = (q.constant s.typeName b).value ↔
        WrittenAlike p.name a q.name b ∨ WrittenAlike q.name b p.name a)) ∧
    ((∀ p ∈ s.indexed, Unmistakable p.name) →
      ((s.indexed.flatMap (StoredField.constants s.typeName)).map (·.value)).Nodup) := by
  have hwell := derive_wellFormed hs
  have hiff : ∀ p ∈ s.indexed, ∀ q ∈ s.indexed, ∀ a b : Query, (p, a) ≠ (q, b) →
      ((p.constant s.typeName a).value = (q.constant s.typeName b).value ↔
        WrittenAlike p.name a q.name b ∨ WrittenAlike q.name b p.name a) := by
    intro p hp q hq a b hne
    have hpf := List.mem_of_mem_filter hp
    have hqf := List.mem_of_mem_filter hq
    refine Query.text_eq_iff (hwell.written p hpf).1 (hwell.written q hqf).1 fun hname hab => hne ?_
    rw [List.inj_on_of_nodup_map hwell.names hpf hqf hname, hab]
  refine ⟨hiff, fun hplain => ?_⟩
  have hindexed : s.indexed.Nodup := (List.Nodup.of_map _ hwell.names).filter _
  have hall : Query.all.Nodup := by decide
  rw [s.map_value_queries, List.nodup_map_iff_inj_on (hindexed.product hall)]
  rintro ⟨p, a⟩ hpa ⟨q, b⟩ hqb hvalue
  obtain ⟨hp, -⟩ := List.mem_product.mp hpa
  obtain ⟨hq, -⟩ := List.mem_product.mp hqb
  by_contra hne
  rcases (hiff p hp q hq a b hne).mp hvalue with halike | halike
  · exact (hplain p hp).not_writtenAlike (hplain q hq) halike
  · exact (hplain q hq).not_writtenAlike (hplain p hp) halike

namespace Sample

/-- People whose fields are stored under names like queries. -/
def signed : Entity :=
  { typeName := "Person"
    fields := [stored "age" "age" .i64, stored "youth" "-age" .i64, stored "adult" "age >=" .bool] }

def age : StoredField := ⟨"age", "age", .int64, false, false⟩

def youth : StoredField := ⟨"youth", "-age", .int64, false, false⟩

def adult : StoredField := ⟨"adult", "age >=", .bool, false, false⟩

def signedSchema : Schema := .ofFields "Person" "Person" [age, youth, adult]

theorem derive_signed : Schema.derive "Person" signed = .ok signedSchema := rfl

theorem unmistakable_tags : Unmistakable "tags" where
  sign r h := by
    have hhead := congrArg (·.toList.head?) h
    simp at hhead
  operator q o r hq h := by
    have hlast := congrArg (·.toList.getLast?) h
    cases q <;> cases hq <;> simp at hlast

/-- Each way of being written alike occurs among people, while adults are not mistaken for those
above an age; the texts of posts are all different. -/
theorem query_texts_eq_iff_signed :
    (adult.constant "Person" .ascending).value = (age.constant "Person" .atLeast).value ∧
    (youth.constant "Person" .ascending).value = (age.constant "Person" .descending).value ∧
    (adult.constant "Person" .descending).value = (youth.constant "Person" .atLeast).value ∧
    (adult.constant "Person" .ascending).value ≠ (age.constant "Person" .greater).value ∧
    ((crossedSchema.indexed.flatMap (StoredField.constants "Post")).map (·.value)).Nodup := by
  obtain ⟨hiff, -⟩ := Schema.query_texts_eq_iff derive_signed
  have hage : age ∈ signedSchema.indexed := by decide
  have hyouth : youth ∈ signedSchema.indexed := by decide
  have hadult : adult ∈ signedSchema.indexed := by decide
  refine ⟨(hiff _ hadult _ hage _ _ (by decide)).mpr (Or.inl (.comparison rfl rfl rfl)),
    (hiff _ hyouth _ hage _ _ (by decide)).mpr (Or.inl (.reversal rfl rfl rfl)),
    (hiff _ hadult _ hyouth _ _ (by decide)).mpr (Or.inl (.both (r := "age") rfl rfl rfl rfl)),
    fun h => ?_, (Schema.query_texts_eq_iff derive_crossed).2 fun p hp => ?_⟩
  · rcases (hiff _ hadult _ hage _ _ (by decide)).mp h with halike | halike
    · obtain ⟨-, ho, hname⟩ | ⟨-, hb, -⟩ | ⟨ha, -, -, -⟩ := halike
      · cases ho
        exact absurd hname (by decide)
      · cases hb
      · cases ha
    · obtain ⟨ha, -, -⟩ | ⟨ha, -, -⟩ | ⟨ha, -, -, -⟩ := halike
      all_goals cases ha
  · have hp' : p ∈ [⟨"title", "tags", .string, false, false⟩] := hp
    rw [List.mem_singleton.mp hp']
    exact unmistakable_tags

end Sample

end StoreModel
