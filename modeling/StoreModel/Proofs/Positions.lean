import Mathlib.Data.List.Nodup
import Mathlib.Data.String.Basic
import StoreModel.Schema.Basic

/-!
# The positions of a schema

A schema does not keep its fields in the orders of names and of identifiers; it keeps maps from
either to the positions of fields. The maps are filled while the fields are taken, and this file
says what they hold at the end (`Schema.Indexed`): a stored name leads to the one field that has it,
an identifier to the last field that has it, and no position lies outside the list.

What a draft holds is invariant under one more field (`Draft.Coherent.add`). The two maps are not
treated alike there. That a name is new has been looked up, so the entry under it is the first;
nothing is known of the identifier, and the entry under it may replace another one.

With that the orders can be forgotten as positions: going through a map is going through the sorted
fields (`byName_eq`), for identifiers through the sorted last fields of each (`byField_eq`).
-/

set_option autoImplicit false

namespace StoreModel

open Std (ExtTreeMap)

/-! ## Where a field stands -/

/-- The field at a position is stored under a name. -/
def NamedAt (l : List StoredField) (n : String) (i : Nat) : Prop :=
  ∃ p, l[i]? = some p ∧ p.name = n

/-- The field at a position has an identifier, and no field behind it has the same. -/
def LastAt (l : List StoredField) (f : String) (i : Nat) : Prop :=
  (∃ p, l[i]? = some p ∧ p.field = f) ∧ ∀ j p, i < j → l[j]? = some p → p.field ≠ f

section Append

variable {l : List StoredField} {p q : StoredField} {i : Nat} {n f : String}

theorem getElem?_append_singleton_iff :
    (l ++ [p])[i]? = some q ↔ l[i]? = some q ∨ i = l.length ∧ p = q := by
  rcases Nat.lt_trichotomy i l.length with h | h | h
  · rw [List.getElem?_append_left h]
    exact ⟨Or.inl, fun h' => h'.resolve_right fun h'' => absurd h''.1 (Nat.ne_of_lt h)⟩
  · subst h
    simp
  · rw [List.getElem?_eq_none (by simp; omega), List.getElem?_eq_none (Nat.le_of_lt h)]
    simp only [reduceCtorEq, false_or, false_iff]
    exact fun h' => absurd h'.1 (Nat.ne_of_gt h)

theorem namedAt_append_iff :
    NamedAt (l ++ [p]) n i ↔ NamedAt l n i ∨ i = l.length ∧ p.name = n := by
  unfold NamedAt
  simp only [getElem?_append_singleton_iff]
  constructor
  · rintro ⟨q, hq | ⟨hi, rfl⟩, hn⟩
    · exact Or.inl ⟨q, hq, hn⟩
    · exact Or.inr ⟨hi, hn⟩
  · rintro (⟨q, hq, hn⟩ | ⟨hi, hn⟩)
    · exact ⟨q, Or.inl hq, hn⟩
    · exact ⟨p, Or.inr ⟨hi, rfl⟩, hn⟩

/-- A field that is put behind all others is the last with its identifier, whatever position was the
last before. -/
theorem lastAt_append_self_iff : LastAt (l ++ [p]) p.field i ↔ i = l.length := by
  constructor
  · rintro ⟨⟨q, hq, -⟩, hlast⟩
    rcases getElem?_append_singleton_iff.mp hq with hq | ⟨hi, -⟩
    · obtain ⟨hi, -⟩ := List.getElem?_eq_some_iff.mp hq
      exact absurd rfl (hlast _ p hi (getElem?_append_singleton_iff.mpr (Or.inr ⟨rfl, rfl⟩)))
    · exact hi
  · rintro rfl
    refine ⟨⟨p, getElem?_append_singleton_iff.mpr (Or.inr ⟨rfl, rfl⟩), rfl⟩, fun j q hj hq => ?_⟩
    obtain ⟨hlt, -⟩ := List.getElem?_eq_some_iff.mp hq
    rw [List.length_append, List.length_singleton] at hlt
    omega

/-- For the other identifiers nothing is changed by it: the new position has none of theirs, so it
comes after their last without being one. -/
theorem lastAt_append_of_ne_iff (h : p.field ≠ f) : LastAt (l ++ [p]) f i ↔ LastAt l f i := by
  unfold LastAt
  simp only [getElem?_append_singleton_iff]
  constructor
  · rintro ⟨⟨q, hq, hf⟩, hlast⟩
    refine ⟨⟨q, hq.resolve_right fun h' => h (h'.2 ▸ hf), hf⟩, fun j q hj hq => ?_⟩
    exact hlast j q hj (Or.inl hq)
  · rintro ⟨⟨q, hq, hf⟩, hlast⟩
    refine ⟨⟨q, Or.inl hq, hf⟩, fun j q hj hq => ?_⟩
    rcases hq with hq | ⟨-, rfl⟩
    · exact hlast j q hj hq
    · exact h

end Append

/-! ## Drafts -/

theorem getElem?_insert {β : Type} {m : ExtTreeMap String β} {k a : String} {v : β} :
    (m.insert k v)[a]? = if k = a then some v else m[a]? := by
  rw [ExtTreeMap.getElem?_insert]
  simp only [Std.compare_eq_iff_eq]

/-- Under a map from names to positions no name can stand at two positions, for both would be the
entry under it. So the map alone tells that stored names are apart. -/
theorem nodup_map_name_of_namedAt {l : List StoredField} {m : ExtTreeMap String Nat}
    (h : ∀ n i, m[n]? = some i ↔ NamedAt l n i) : (l.map (·.name)).Nodup := by
  rw [List.nodup_iff_injective_getElem]
  intro i j hij
  have hi := (h _ _).mpr ⟨_, List.getElem?_eq_getElem (by simpa using i.2), rfl⟩
  have hj := (h _ _).mpr ⟨_, List.getElem?_eq_getElem (by simpa using j.2), rfl⟩
  simp only [List.getElem_map] at hij
  rw [hij, hj, Option.some.injEq] at hi
  exact Fin.ext hi.symm

/-- What a draft has noted agrees with the fields it has taken. -/
structure Draft.Coherent (d : Draft) : Prop where
  seen : ∀ n f, d.seen[n]? = some f ↔ ∃ p ∈ d.fields, p.name = n ∧ p.field = f
  namePositions : ∀ n i, d.namePositions[n]? = some i ↔ NamedAt d.fields n i
  fieldPositions : ∀ f i, d.fieldPositions[f]? = some i ↔ LastAt d.fields f i
  sequences : d.sequences = (d.fields.filter (·.multiple)).map (·.field)

namespace Draft.Coherent

variable {d : Draft}

theorem empty : ({} : Draft).Coherent where
  seen n f := by simp
  namePositions n i := by simp [NamedAt]
  fieldPositions f i := by simp [LastAt]
  sequences := rfl

theorem seen_eq_none_iff (h : d.Coherent) {n : String} :
    d.seen[n]? = none ↔ ∀ p ∈ d.fields, p.name ≠ n := by
  rw [Option.eq_none_iff_forall_ne_some]
  simp only [ne_eq, h.seen, not_exists, not_and]
  exact ⟨fun hno p hp hn => hno p.field p hp hn rfl, fun hno f p hp hn _ => hno p hp hn⟩

/-- A field whose name is new leaves a coherent draft coherent. Each note of the draft is one
insertion, so under the key of the new field there is the new entry, and under every other key what
was there. -/
theorem add (h : d.Coherent) {p : StoredField} (hnew : d.seen[p.name]? = none) :
    (d.add p).Coherent where
  seen n f := by
    have hfree := h.seen_eq_none_iff.mp hnew
    simp only [Draft.add, getElem?_insert, List.mem_append, List.mem_singleton]
    by_cases hn : p.name = n
    · -- the entry under the name is that of the new field, as no field before has the name
      subst hn
      rw [if_pos rfl, Option.some.injEq]
      constructor
      · intro hf
        exact ⟨p, Or.inr rfl, rfl, hf⟩
      · rintro ⟨q, hq | rfl, hname, hf⟩
        · exact absurd hname (hfree q hq)
        · exact hf
    · rw [if_neg hn, h.seen]
      constructor
      · rintro ⟨q, hq, hqf⟩
        exact ⟨q, Or.inl hq, hqf⟩
      · rintro ⟨q, hq | rfl, hname, hf⟩
        · exact ⟨q, hq, hname, hf⟩
        · exact absurd hname hn
  namePositions n i := by
    have hfree := h.seen_eq_none_iff.mp hnew
    simp only [Draft.add, getElem?_insert, namedAt_append_iff]
    by_cases hn : p.name = n
    · -- no earlier position is lost, as none had the name
      subst hn
      have hno : ¬ NamedAt d.fields p.name i := fun ⟨q, hq, hname⟩ =>
        hfree q (List.mem_of_getElem? hq) hname
      rw [if_pos rfl, Option.some.injEq]
      exact ⟨fun hi => Or.inr ⟨hi.symm, rfl⟩, fun hi => (hi.resolve_left hno).1.symm⟩
    · rw [if_neg hn, h.namePositions]
      exact ⟨Or.inl, fun hi => hi.resolve_right fun hi' => hn hi'.2⟩
  fieldPositions f i := by
    simp only [Draft.add, getElem?_insert]
    by_cases hf : p.field = f
    · -- whatever stood under the identifier is replaced
      subst hf
      rw [if_pos rfl, Option.some.injEq, lastAt_append_self_iff]
      exact eq_comm
    · rw [if_neg hf, h.fieldPositions, lastAt_append_of_ne_iff hf]
  sequences := by
    simp only [Draft.add, List.filter_append, List.map_append, h.sequences]
    by_cases hm : p.multiple = true
    · rw [if_pos hm, List.filter_cons_of_pos hm]
      rfl
    · rw [if_neg hm, List.filter_cons_of_neg hm]
      exact (List.append_nil _).symm

theorem nodup_map_name (h : d.Coherent) : (d.fields.map (·.name)).Nodup :=
  nodup_map_name_of_namedAt h.namePositions

end Draft.Coherent

theorem Draft.fields_foldl_add {d : Draft} {ps : List StoredField} :
    (ps.foldl Draft.add d).fields = d.fields ++ ps := by
  induction ps generalizing d with
  | nil => exact (List.append_nil _).symm
  | cons p ps ih =>
    rw [List.foldl_cons, ih]
    exact List.append_assoc _ _ _

/-- Fields that are added one after the other leave a coherent draft, if no name comes twice. The
induction is on the fields to come; that the next name is new follows from the names of all. -/
theorem Draft.Coherent.foldl_add {d : Draft} (h : d.Coherent) {ps : List StoredField}
    (hn : ((d.fields ++ ps).map (·.name)).Nodup) : (ps.foldl Draft.add d).Coherent := by
  induction ps generalizing d with
  | nil => exact h
  | cons p ps ih =>
    have hfields : d.fields ++ p :: ps = (d.add p).fields ++ ps := List.append_cons _ _ _
    have hfree : ∀ q ∈ d.fields, q.name ≠ p.name := fun q hq => by
      rw [List.map_append, List.nodup_append] at hn
      exact hn.2.2 _ (List.mem_map_of_mem hq) _ (List.mem_map_of_mem List.mem_cons_self)
    exact ih (h.add (h.seen_eq_none_iff.mpr hfree)) (hfields ▸ hn)

/-! ## The last field with an identifier -/

/-- A field of a list with no field of its identifier behind it. -/
def LastDeclared (l : List StoredField) (p : StoredField) : Prop :=
  ∃ before after, l = before ++ p :: after ∧ ∀ q ∈ after, q.field ≠ p.field

theorem LastDeclared.mem {l : List StoredField} {p : StoredField} (h : LastDeclared l p) :
    p ∈ l := by
  obtain ⟨before, after, rfl, -⟩ := h
  exact List.mem_append_right _ List.mem_cons_self

theorem lastDeclared_cons_iff {l : List StoredField} {p q : StoredField} :
    LastDeclared (q :: l) p ↔ (q = p ∧ ∀ r ∈ l, r.field ≠ p.field) ∨ LastDeclared l p := by
  constructor
  · rintro ⟨before, after, heq, hafter⟩
    cases before with
    | nil =>
      cases heq
      exact Or.inl ⟨rfl, hafter⟩
    | cons r before =>
      cases heq
      exact Or.inr ⟨before, after, rfl, hafter⟩
  · rintro (⟨rfl, hl⟩ | ⟨before, after, rfl, hafter⟩)
    · exact ⟨[], l, rfl, hl⟩
    · exact ⟨q :: before, after, rfl, hafter⟩

/-- To be the last is to stand at the position of the last. Positions are what the map holds, and
places in the list are what is said of fields without it. -/
theorem lastDeclared_iff_lastAt {l : List StoredField} {p : StoredField} :
    LastDeclared l p ↔ ∃ i, LastAt l p.field i ∧ l[i]? = some p := by
  constructor
  · rintro ⟨before, after, rfl, hafter⟩
    have hat : (before ++ p :: after)[before.length]? = some p := by simp
    refine ⟨before.length, ⟨⟨p, hat, rfl⟩, fun j q hj hq => ?_⟩, hat⟩
    obtain ⟨k, hk⟩ : ∃ k, j = before.length + (k + 1) := ⟨j - before.length - 1, by omega⟩
    rw [hk, List.getElem?_append_right (Nat.le_add_right _ _), Nat.add_sub_cancel_left,
      List.getElem?_cons_succ] at hq
    exact hafter q (List.mem_of_getElem? hq)
  · rintro ⟨i, ⟨-, hlast⟩, hat⟩
    obtain ⟨hi, heq⟩ := List.getElem?_eq_some_iff.mp hat
    refine ⟨l.take i, l.drop (i + 1), ?_, fun q hq => ?_⟩
    · rw [← heq, List.getElem_cons_drop, List.take_append_drop]
    · obtain ⟨k, hk⟩ := List.mem_iff_getElem?.mp hq
      rw [List.getElem?_drop] at hk
      exact hlast (i + 1 + k) q (by omega) hk

/-- Of all fields with one identifier the last. -/
def lastOfEach : List StoredField → List StoredField
  | [] => []
  | p :: r => if r.any (·.field == p.field) then lastOfEach r else p :: lastOfEach r

theorem any_field_eq_true_iff {l : List StoredField} {f : String} :
    l.any (·.field == f) = true ↔ ∃ r ∈ l, r.field = f := by
  simp only [List.any_eq_true, beq_iff_eq]

/-- The recursion picks just the fields that are the last of their identifier. It drops a field when
its identifier comes again, and then the later one is still to be met. -/
theorem mem_lastOfEach_iff {l : List StoredField} {p : StoredField} :
    p ∈ lastOfEach l ↔ LastDeclared l p := by
  induction l with
  | nil =>
    constructor
    · intro h
      exact absurd h (by simp [lastOfEach])
    · intro h
      exact absurd h.mem (by simp)
  | cons q l ih =>
    rw [lastDeclared_cons_iff, lastOfEach]
    by_cases hany : ∃ r ∈ l, r.field = q.field
    · rw [if_pos (any_field_eq_true_iff.mpr hany), ih]
      obtain ⟨r, hr, hfield⟩ := hany
      -- the first field has one of its identifier behind it, so it is no last one
      constructor
      · exact Or.inr
      · rintro (⟨heq, hl⟩ | hlast)
        · exact absurd (heq ▸ hfield) (hl r hr)
        · exact hlast
    · rw [if_neg (mt any_field_eq_true_iff.mp hany), List.mem_cons, ih]
      refine or_congr_left ⟨fun h => ⟨h.symm, fun r hr hfield => ?_⟩, fun h => h.1.symm⟩
      exact hany ⟨r, hr, h ▸ hfield⟩

theorem exists_lastDeclared {l : List StoredField} {f : String} (h : ∃ p ∈ l, p.field = f) :
    ∃ p, LastDeclared l p ∧ p.field = f := by
  induction l with
  | nil => exact absurd h (by simp)
  | cons q l ih =>
    by_cases hl : ∃ p ∈ l, p.field = f
    · obtain ⟨p, hlast, hfield⟩ := ih hl
      exact ⟨p, lastDeclared_cons_iff.mpr (Or.inr hlast), hfield⟩
    · obtain ⟨p, hp, hfield⟩ := h
      rcases List.mem_cons.mp hp with rfl | hpl
      · refine ⟨p, lastDeclared_cons_iff.mpr (Or.inl ⟨rfl, fun r hr hrf => ?_⟩), hfield⟩
        exact hl ⟨r, hr, hrf.trans hfield⟩
      · exact absurd ⟨p, hpl, hfield⟩ hl

theorem nodup_map_field_lastOfEach (l : List StoredField) :
    ((lastOfEach l).map (·.field)).Nodup := by
  induction l with
  | nil => exact List.nodup_nil
  | cons q l ih =>
    rw [lastOfEach]
    by_cases hany : l.any (·.field == q.field) = true
    · rw [if_pos hany]
      exact ih
    · rw [if_neg hany, List.map_cons, List.nodup_cons]
      refine ⟨fun hmem => ?_, ih⟩
      obtain ⟨r, hr, hfield⟩ := List.mem_map.mp hmem
      exact hany (any_field_eq_true_iff.mpr ⟨r, (mem_lastOfEach_iff.mp hr).mem, hfield⟩)

/-- Where no identifier repeats, every field is the last with its own. -/
theorem lastOfEach_eq_self {l : List StoredField} (hd : (l.map (·.field)).Nodup) :
    lastOfEach l = l := by
  induction l with
  | nil => rfl
  | cons q r ih =>
    rw [List.map_cons, List.nodup_cons] at hd
    have hany : r.any (·.field == q.field) = false := by
      rw [List.any_eq_false]
      intro p hp he
      exact hd.1 (List.mem_map.mpr ⟨p, hp, by simpa using he⟩)
    rw [lastOfEach, hany, ih hd.2]
    rfl

/-! ## Lists in order -/

theorem pairwise_le_mergeSort {α : Type} (key : α → String) (l : List α) :
    (l.mergeSort fun a b => decide (key a ≤ key b)).Pairwise fun a b => key a ≤ key b := by
  refine (List.pairwise_mergeSort (fun a b c hab hbc => ?_) (fun a b => ?_) l).imp
    of_decide_eq_true
  · rw [decide_eq_true_iff] at hab hbc ⊢
    exact le_trans hab hbc
  · rw [Bool.or_eq_true, decide_eq_true_iff, decide_eq_true_iff]
    exact le_total _ _

/-- What increases strictly is the sorted list of its members. Maps are gone through in strictly
increasing order of their keys, so this is how a map is forgotten in favour of a sorted list. -/
theorem eq_mergeSort_of_pairwise_lt {α : Type} {key : α → String} {l m : List α}
    (hl : l.Pairwise fun a b => key a < key b) (hm : (m.map key).Nodup)
    (hmem : ∀ a, a ∈ l ↔ a ∈ m) : l = m.mergeSort fun a b => decide (key a ≤ key b) := by
  have hlnodup : l.Nodup := hl.imp fun {_ _} hab heq => ne_of_lt hab (congrArg key heq)
  have hperm : l.Perm m := (List.perm_ext_iff_of_nodup hlnodup (List.Nodup.of_map key hm)).mpr hmem
  refine List.Perm.eq_of_pairwise (fun a b ha hb hab hba => ?_) (hl.imp le_of_lt)
    (pairwise_le_mergeSort key m) (hperm.trans (List.mergeSort_perm _ _).symm)
  exact List.inj_on_of_nodup_map hm (hperm.mem_iff.mp ha) (List.mem_mergeSort.mp hb)
    (le_antisymm hab hba)

theorem mem_dropRepeats {l : List String} {a : String} : a ∈ dropRepeats l ↔ a ∈ l := by
  fun_induction dropRepeats l with
  | case1 => exact Iff.rfl
  | case2 b => exact Iff.rfl
  | case3 b r ih =>
    rw [ih, List.mem_cons (a := a) (b := b) (l := b :: r)]
    exact ⟨Or.inr, fun h => h.elim (fun e => e ▸ List.mem_cons_self) id⟩
  | case4 b c r hne ih => rw [List.mem_cons, ih, List.mem_cons (a := a) (b := b)]

/-- Of a list in order the neighbours that are dropped are all the repetitions there are. -/
theorem pairwise_lt_dropRepeats {l : List String} (h : l.Pairwise (· ≤ ·)) :
    (dropRepeats l).Pairwise (· < ·) := by
  fun_induction dropRepeats l with
  | case1 => exact .nil
  | case2 a => exact List.pairwise_singleton _ _
  | case3 a r ih => exact ih (List.pairwise_cons.mp h).2
  | case4 a b r hne ih =>
    obtain ⟨hhead, htail⟩ := List.pairwise_cons.mp h
    refine List.pairwise_cons.mpr ⟨fun c hc => ?_, ih htail⟩
    -- the neighbour is greater than the first, and all that is left is no less than the neighbour
    have hab : a < b := lt_of_le_of_ne (hhead b List.mem_cons_self) hne
    rcases List.mem_cons.mp (mem_dropRepeats.mp hc) with rfl | hr
    · exact hab
    · exact lt_of_lt_of_le hab ((List.pairwise_cons.mp htail).1 c hr)

theorem dropRepeats_eq_self {l : List String} (h : l.Nodup) : dropRepeats l = l := by
  fun_induction dropRepeats l with
  | case1 => rfl
  | case2 a => rfl
  | case3 a r ih =>
    rw [List.nodup_cons] at h
    exact absurd List.mem_cons_self h.1
  | case4 a b r hne ih => rw [ih (List.nodup_cons.mp h).2]

/-! ## Schemas -/

/-- The maps of a schema and its list of sequences agree with its fields. -/
structure Schema.Indexed (s : Schema) : Prop where
  namePositions : ∀ n i, s.namePositions[n]? = some i ↔ NamedAt s.fields n i
  fieldPositions : ∀ f i, s.fieldPositions[f]? = some i ↔ LastAt s.fields f i
  sequenceFields : s.sequenceFields = dropRepeats
    (((s.fields.filter (·.multiple)).map (·.field)).mergeSort fun a b => decide (a ≤ b))

theorem Draft.Coherent.finish {d : Draft} (h : d.Coherent) (key typeName : String) :
    (d.finish key typeName).Indexed where
  namePositions := h.namePositions
  fieldPositions := h.fieldPositions
  sequenceFields := by rw [Draft.finish, h.sequences]

/-- The schema of fields that were taken in their order. -/
def Schema.ofFields (key typeName : String) (ps : List StoredField) : Schema :=
  (ps.foldl Draft.add {}).finish key typeName

@[simp] theorem Schema.fields_ofFields {key typeName : String} {ps : List StoredField} :
    (Schema.ofFields key typeName ps).fields = ps := Draft.fields_foldl_add

theorem Schema.indexed_ofFields {key typeName : String} {ps : List StoredField}
    (hn : (ps.map (·.name)).Nodup) : (Schema.ofFields key typeName ps).Indexed :=
  (Draft.Coherent.empty.foldl_add hn).finish key typeName

namespace Schema

variable {s : Schema}

theorem mem_fieldsAt_iff {m : ExtTreeMap String Nat} {p : StoredField} :
    p ∈ s.fieldsAt m ↔ ∃ (k : String) (i : Nat), m[k]? = some i ∧ s.fields[i]? = some p := by
  simp only [fieldsAt, List.mem_filterMap, Prod.exists, ExtTreeMap.mem_toList_iff_getElem?_eq_some]

/-- If the keys of a map are those of the fields it leads to, the fields come in their order,
strictly, since no key is twice in a map. -/
theorem pairwise_lt_fieldsAt {m : ExtTreeMap String Nat} {key : StoredField → String}
    (h : ∀ (k : String) i p, m[k]? = some i → s.fields[i]? = some p → key p = k) :
    (s.fieldsAt m).Pairwise fun p q => key p < key q := by
  unfold fieldsAt
  rw [List.pairwise_filterMap]
  refine List.Pairwise.imp_of_mem (fun {a b} ha hb hab p hp q hq => ?_)
    ExtTreeMap.ordered_keys_toList
  rw [h _ _ p (ExtTreeMap.mem_toList_iff_getElem?_eq_some.mp ha) hp,
    h _ _ q (ExtTreeMap.mem_toList_iff_getElem?_eq_some.mp hb) hq]
  exact compareOfLessAndEq_eq_lt.mp hab

theorem mem_of_mem_byName {p : StoredField} (h : p ∈ s.byName) : p ∈ s.fields := by
  obtain ⟨_, _, -, hp⟩ := mem_fieldsAt_iff.mp h
  exact List.mem_of_getElem? hp

theorem mem_of_mem_byField {p : StoredField} (h : p ∈ s.byField) : p ∈ s.fields := by
  obtain ⟨_, _, -, hp⟩ := mem_fieldsAt_iff.mp h
  exact List.mem_of_getElem? hp

namespace Indexed

/-- A schema is no more than its fields: they decide its maps, entry by entry, and its list of
sequences. -/
theorem eq_of_fields {t : Schema} (hs : s.Indexed) (ht : t.Indexed) (hkey : s.key = t.key)
    (htype : s.typeName = t.typeName) (hfields : s.fields = t.fields) : s = t := by
  have hnames : s.namePositions = t.namePositions := ExtTreeMap.ext_getElem? fun n =>
    Option.ext fun i => by rw [hs.namePositions, ht.namePositions, hfields]
  have hids : s.fieldPositions = t.fieldPositions := ExtTreeMap.ext_getElem? fun f =>
    Option.ext fun i => by rw [hs.fieldPositions, ht.fieldPositions, hfields]
  have hseqs : s.sequenceFields = t.sequenceFields := by
    rw [hs.sequenceFields, ht.sequenceFields, hfields]
  cases s
  cases t
  simp_all only

theorem nodup_map_name (h : s.Indexed) : (s.fields.map (·.name)).Nodup :=
  nodup_map_name_of_namedAt h.namePositions

theorem mem_byName_iff (h : s.Indexed) {p : StoredField} : p ∈ s.byName ↔ p ∈ s.fields := by
  refine ⟨mem_of_mem_byName, fun hp => ?_⟩
  obtain ⟨i, hi⟩ := List.mem_iff_getElem?.mp hp
  exact mem_fieldsAt_iff.mpr ⟨p.name, i, (h.namePositions _ _).mpr ⟨p, hi, rfl⟩, hi⟩

/-- Along the map of identifiers one meets the last field of each and no other. A position in the
map is that of the last field with the key, and the key is the identifier of what stands there. -/
theorem mem_byField_iff (h : s.Indexed) {p : StoredField} :
    p ∈ s.byField ↔ LastDeclared s.fields p := by
  rw [lastDeclared_iff_lastAt]
  constructor
  · intro hp
    obtain ⟨f, i, hf, hi⟩ := mem_fieldsAt_iff.mp hp
    have hlast := (h.fieldPositions f i).mp hf
    obtain ⟨q, hq, hqf⟩ := hlast.1
    cases hq.symm.trans hi
    exact ⟨i, hqf ▸ hlast, hi⟩
  · rintro ⟨i, hlast, hi⟩
    exact mem_fieldsAt_iff.mpr ⟨p.field, i, (h.fieldPositions _ _).mpr hlast, hi⟩

theorem byName_lt (h : s.Indexed) : s.byName.Pairwise fun p q => p.name < q.name := by
  refine pairwise_lt_fieldsAt fun n i p hn hi => ?_
  obtain ⟨q, hq, hname⟩ := (h.namePositions n i).mp hn
  cases hq.symm.trans hi
  exact hname

theorem byField_lt (h : s.Indexed) : s.byField.Pairwise fun p q => p.field < q.field := by
  refine pairwise_lt_fieldsAt fun f i p hf hi => ?_
  obtain ⟨⟨q, hq, hfield⟩, -⟩ := (h.fieldPositions f i).mp hf
  cases hq.symm.trans hi
  exact hfield

/-- The fields that the map of names goes through are all fields, sorted by name. -/
theorem byName_eq (h : s.Indexed) :
    s.byName = s.fields.mergeSort fun p q => decide (p.name ≤ q.name) :=
  eq_mergeSort_of_pairwise_lt h.byName_lt h.nodup_map_name fun _ => h.mem_byName_iff

/-- The fields that the map of identifiers goes through are the last of each, sorted by it. -/
theorem byField_eq (h : s.Indexed) :
    s.byField = (lastOfEach s.fields).mergeSort fun p q => decide (p.field ≤ q.field) := by
  refine eq_mergeSort_of_pairwise_lt h.byField_lt (nodup_map_field_lastOfEach _) fun p => ?_
  rw [h.mem_byField_iff, mem_lastOfEach_iff]

theorem byName_perm (h : s.Indexed) : s.byName.Perm s.fields := by
  rw [h.byName_eq]
  exact List.mergeSort_perm _ _

theorem byField_perm (h : s.Indexed) (hd : (s.fields.map (·.field)).Nodup) :
    s.byField.Perm s.fields := by
  rw [h.byField_eq, lastOfEach_eq_self hd]
  exact List.mergeSort_perm _ _

theorem nodup_map_field_byField (h : s.Indexed) : (s.byField.map (·.field)).Nodup := by
  rw [List.Nodup, List.pairwise_map]
  exact h.byField_lt.imp ne_of_lt

theorem mem_sequenceFields (h : s.Indexed) {a : String} :
    a ∈ s.sequenceFields ↔ ∃ p ∈ s.fields, p.multiple = true ∧ p.field = a := by
  rw [h.sequenceFields, mem_dropRepeats, List.mem_mergeSort, List.mem_map]
  constructor
  · rintro ⟨p, hp, rfl⟩
    obtain ⟨hm, hmult⟩ := List.mem_filter.mp hp
    exact ⟨p, hm, hmult, rfl⟩
  · rintro ⟨p, hp, hmult, rfl⟩
    exact ⟨p, List.mem_filter.mpr ⟨hp, hmult⟩, rfl⟩

theorem sequenceFields_lt (h : s.Indexed) : s.sequenceFields.Pairwise (· < ·) := by
  rw [h.sequenceFields]
  exact pairwise_lt_dropRepeats (pairwise_le_mergeSort id _)

/-- Where the texts of fields do not repeat, the sequences in order are the fields that are
sequences, put in order. -/
theorem sequenceFields_eq (h : s.Indexed) (hd : (s.fields.map (·.field)).Nodup) :
    s.sequenceFields =
      ((s.fields.filter (·.multiple)).mergeSort fun p q => decide (p.field ≤ q.field)).map
        (·.field) := by
  have hfilter : ((s.fields.filter (·.multiple)).map (·.field)).Nodup :=
    hd.sublist (List.filter_sublist.map _)
  rw [h.sequenceFields, dropRepeats_eq_self ((List.mergeSort_perm _ _).nodup_iff.mpr hfilter)]
  exact (List.map_mergeSort (f := fun p : StoredField => p.field)
    (s := fun a b => decide (a ≤ b)) fun _ _ _ _ => rfl).symm

theorem getByName?_eq_some_iff (h : s.Indexed) {n : String} {p : StoredField} :
    s.getByName? n = some p ↔ p ∈ s.fields ∧ p.name = n := by
  simp only [getByName?, Option.bind_eq_some_iff, h.namePositions]
  constructor
  · rintro ⟨i, ⟨q, hq, hn⟩, hi⟩
    cases hq.symm.trans hi
    exact ⟨List.mem_of_getElem? hi, hn⟩
  · rintro ⟨hp, hn⟩
    obtain ⟨i, hi⟩ := List.mem_iff_getElem?.mp hp
    exact ⟨i, ⟨p, hi, hn⟩, hi⟩

/-- Looking up an identifier gives the last field that has it, so an earlier one is not found by
this map at all. -/
theorem getByField?_eq_some_iff (h : s.Indexed) {f : String} {p : StoredField} :
    s.getByField? f = some p ↔ LastDeclared s.fields p ∧ p.field = f := by
  simp only [getByField?, Option.bind_eq_some_iff, h.fieldPositions, lastDeclared_iff_lastAt]
  constructor
  · rintro ⟨i, hlast, hi⟩
    obtain ⟨q, hq, hf⟩ := hlast.1
    cases hq.symm.trans hi
    exact ⟨⟨i, hf ▸ hlast, hi⟩, hf⟩
  · rintro ⟨⟨i, hlast, hi⟩, rfl⟩
    exact ⟨i, hlast, hi⟩

end Indexed

end Schema

end StoreModel
