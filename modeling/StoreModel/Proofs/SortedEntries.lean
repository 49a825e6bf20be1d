import Mathlib.Data.List.Sort
import Mathlib.Data.String.Basic
import Mathlib.Order.Bounds.Basic
import StoreModel.Output.Outcome
import StoreModel.Proofs.ByteOrder
import StoreModel.Proofs.Results
import StoreModel.Sample.Model

/-!
# What a registry means

`Registry.sortedEntries` sorts the registrations by key and type name and then compares neighbours
only. The sort is stable and does not look at fields, so entities that differ in nothing but fields
stay in the order of their registration, and it has to be shown that this order never gets out.

The meaning is given here by membership alone. Without two different entities under one key, the
result is the list of all registrations in strictly increasing order of the keys; otherwise it is
the fault that `FirstClash` describes, and `FirstClash` is about least elements, of which there is
one. The induction is along `collapse`, over a list that is known to be sorted.
-/

set_option autoImplicit false

namespace StoreModel.Registry

/-! ## The meaning, by membership -/

/-- Two different entities are registered under a key. How many more there are, and in which order,
does not matter. -/
def Clash (es : List (String × Entity)) (k : String) : Prop :=
  ∃ x y, (k, x) ∈ es ∧ (k, y) ∈ es ∧ x ≠ y

/-- The fault of registrations that clash: the least key under which they do, the least type name
under that key, and the least type name of an entity there that differs from one of the first type
name. The two type names are the same if two different entities share the least one. -/
structure FirstClash (es : List (String × Entity)) (k a b : String) : Prop where
  key : IsLeast {k | Clash es k} k
  first : IsLeast {t | ∃ x, (k, x) ∈ es ∧ x.typeName = t} a
  second : IsLeast
    {t | ∃ x y, (k, x) ∈ es ∧ (k, y) ∈ es ∧ x.typeName = a ∧ x ≠ y ∧ y.typeName = t} b

variable {l l' : List (String × Entity)} {k a b : String}

theorem clash_congr (h : ∀ x, x ∈ l ↔ x ∈ l') : Clash l k ↔ Clash l' k := by
  unfold Clash
  simp only [h]

/-- The first clash speaks of membership only, so sorting the registrations or repeating some of
them changes nothing about it. -/
theorem FirstClash.congr (h : ∀ x, x ∈ l ↔ x ∈ l') (hc : FirstClash l k a b) :
    FirstClash l' k a b := by
  obtain ⟨hk, ha, hb⟩ := hc
  simp only [clash_congr h] at hk
  simp only [h] at ha hb
  exact ⟨hk, ha, hb⟩

/-- There is one first clash at most. Each of its three parts is the least element of a set, and the
sets of the later parts are fixed by the earlier ones. -/
theorem FirstClash.unique {k' a' b' : String} (h : FirstClash l k a b)
    (h' : FirstClash l k' a' b') : k = k' ∧ a = a' ∧ b = b' := by
  obtain rfl := h.key.unique h'.key
  obtain rfl := h.first.unique h'.first
  exact ⟨rfl, rfl, h.second.unique h'.second⟩

/-! ## The order -/

theorem entryLE_iff {x y : String × Entity} :
    entryLE x y = true ↔ x.1 < y.1 ∨ x.1 = y.1 ∧ x.2.typeName ≤ y.2.typeName := by
  unfold entryLE
  rw [Bool.or_eq_true, Bool.and_eq_true, decide_eq_true_iff, decide_eq_true_iff, beq_iff_eq]

theorem key_le_of_entryLE {x y : String × Entity} (h : entryLE x y = true) : x.1 ≤ y.1 := by
  rcases entryLE_iff.mp h with hlt | ⟨heq, -⟩
  · exact le_of_lt hlt
  · exact le_of_eq heq

theorem typeName_le_of_entryLE {x y : String × Entity} (h : entryLE x y = true)
    (hk : x.1 = y.1) : x.2.typeName ≤ y.2.typeName := by
  rcases entryLE_iff.mp h with hlt | ⟨-, hle⟩
  · exact absurd hk (ne_of_lt hlt)
  · exact hle

/-- Each entry stands before those that follow it, by key and then by type name. -/
def Ordered (l : List (String × Entity)) : Prop := l.Pairwise fun x y => entryLE x y = true

/-- Sorting puts a list in order, because the comparison is transitive and of any two entries one
may stand before the other. Four cases for the first and three for the second, as the keys differ or
agree. -/
theorem ordered_mergeSort (l : List (String × Entity)) : Ordered (l.mergeSort entryLE) := by
  refine List.pairwise_mergeSort (fun x y z hxy hyz => ?_) (fun x y => ?_) l
  · rw [entryLE_iff] at hxy hyz ⊢
    rcases hxy with hxy | ⟨hxy, htxy⟩ <;> rcases hyz with hyz | ⟨hyz, htyz⟩
    · exact Or.inl (lt_trans hxy hyz)
    · exact Or.inl (hyz ▸ hxy)
    · exact Or.inl (hxy ▸ hyz)
    · exact Or.inr ⟨hxy.trans hyz, le_trans htxy htyz⟩
  · rw [Bool.or_eq_true, entryLE_iff, entryLE_iff]
    rcases lt_trichotomy x.1 y.1 with hlt | heq | hgt
    · exact Or.inl (Or.inl hlt)
    · rcases le_total x.2.typeName y.2.typeName with hle | hle
      · exact Or.inl (Or.inr ⟨heq, hle⟩)
      · exact Or.inr (Or.inr ⟨heq.symm, hle⟩)
    · exact Or.inr (Or.inl hgt)

/-- Where the second key is another than the first, the first entry is alone under its key: in
order, a key that has been left behind does not come back. -/
theorem Ordered.key_lt {e f : String × Entity} {r : List (String × Entity)}
    (h : Ordered (e :: f :: r)) (hne : e.1 ≠ f.1) {x : String × Entity} (hx : x ∈ f :: r) :
    e.1 < x.1 := by
  obtain ⟨hhead, htail⟩ := List.pairwise_cons.mp h
  have hef : e.1 < f.1 := lt_of_le_of_ne (key_le_of_entryLE (hhead f List.mem_cons_self)) hne
  rcases List.mem_cons.mp hx with rfl | hr
  · exact hef
  · exact lt_of_lt_of_le hef (key_le_of_entryLE ((List.pairwise_cons.mp htail).1 x hr))

/-- The first entry of a list in order has the least key, and the least type name under it. That is
how the fault comes to name least elements although only neighbours are compared. -/
theorem Ordered.head_le {e : String × Entity} {r : List (String × Entity)}
    (h : Ordered (e :: r)) {x : String × Entity} (hx : x ∈ e :: r) :
    e.1 ≤ x.1 ∧ (e.1 = x.1 → e.2.typeName ≤ x.2.typeName) := by
  rcases List.mem_cons.mp hx with rfl | hr
  · exact ⟨le_rfl, fun _ => le_rfl⟩
  · have hle := (List.pairwise_cons.mp h).1 x hr
    exact ⟨key_le_of_entryLE hle, typeName_le_of_entryLE hle⟩

/-! ## Neighbours with one key -/

theorem mem_cons_self_cons {e : String × Entity} {r : List (String × Entity)}
    (x : String × Entity) : x ∈ e :: r ↔ x ∈ e :: e :: r := by
  rw [List.mem_cons, List.mem_cons (a := x) (b := e) (l := e :: r), List.mem_cons]
  exact ⟨Or.inr, fun h => h.elim Or.inl id⟩

/-- Two different neighbours under one key are the first clash of a list that is in order: nothing
before them is left, so their key is the least, and the two type names come in order. -/
theorem firstClash_of_neighbours {e f : String × Entity} {r : List (String × Entity)}
    (h : Ordered (e :: f :: r)) (hkey : e.1 = f.1) (hne : e.2 ≠ f.2) :
    FirstClash (e :: f :: r) f.1 e.2.typeName f.2.typeName := by
  have he : (f.1, e.2) ∈ e :: f :: r := by
    rw [← hkey]
    exact List.mem_cons_self
  have hf : (f.1, f.2) ∈ e :: f :: r := List.mem_cons_of_mem _ List.mem_cons_self
  have hlow : ∀ y, (f.1, y) ∈ f :: r → f.2.typeName ≤ y.typeName := fun y hy =>
    (Ordered.head_le (List.pairwise_cons.mp h).2 hy).2 rfl
  refine ⟨⟨⟨e.2, f.2, he, hf, hne⟩, ?_⟩, ⟨⟨e.2, he, rfl⟩, ?_⟩,
    ⟨⟨e.2, f.2, he, hf, rfl, hne, rfl⟩, ?_⟩⟩
  · rintro k ⟨x, y, hx, -, -⟩
    rw [← hkey]
    exact (h.head_le hx).1
  · rintro t ⟨x, hx, rfl⟩
    exact (h.head_le hx).2 hkey
  · rintro t ⟨x, y, hx, hy, hxa, hxy, rfl⟩
    -- one of the two stands behind the first entry, and its type name is not above the other's
    rcases List.mem_cons.mp hy with heq | hy'
    · have hye : y = e.2 := congrArg Prod.snd heq
      rcases List.mem_cons.mp hx with heq' | hx'
      · exact absurd ((congrArg Prod.snd heq').trans hye.symm) hxy
      · rw [hye, ← hxa]
        exact hlow x hx'
    · exact hlow y hy'

/-! ## An entry that is alone under its key -/

section Alone

variable {e f : String × Entity} {r : List (String × Entity)}

theorem mem_cons_iff_of_key_ne {x : String × Entity} (hne : x.1 ≠ e.1) :
    x ∈ e :: r ↔ x ∈ r := by
  rw [List.mem_cons]
  exact ⟨fun h => h.elim (fun he => absurd (congrArg Prod.fst he) hne) id, Or.inr⟩

/-- An entry that is alone under its key takes no part in a clash. For its own key there is nothing
to clash with, and for others it is not looked at. -/
theorem clash_cons_iff (h : ∀ x ∈ r, e.1 < x.1) : Clash (e :: r) k ↔ Clash r k := by
  by_cases hk : k = e.1
  · have hnone : ∀ x, (k, x) ∉ r := fun x hx => (ne_of_lt (h _ hx)) hk.symm
    have hself : ∀ x, (k, x) ∈ e :: r → x = e.2 := fun x hx =>
      (List.mem_cons.mp hx).elim (congrArg Prod.snd) fun hr => absurd hr (hnone x)
    constructor
    · rintro ⟨x, y, hx, hy, hxy⟩
      exact absurd ((hself x hx).trans (hself y hy).symm) hxy
    · rintro ⟨x, y, hx, -, -⟩
      exact absurd hx (hnone x)
  · unfold Clash
    simp only [mem_cons_iff_of_key_ne (e := e) (r := r) (x := (k, _)) hk]

/-- So the first clash of the rest is the first clash of the whole, as the least key with a clash
lies behind the entry that is alone. -/
theorem FirstClash.cons (h : ∀ x ∈ r, e.1 < x.1) (hc : FirstClash r k a b) :
    FirstClash (e :: r) k a b := by
  obtain ⟨hk, ha, hb⟩ := hc
  have hke : k ≠ e.1 := by
    obtain ⟨x, y, hx, -, -⟩ := hk.1
    exact ne_of_gt (h _ hx)
  refine ⟨?_, ?_, ?_⟩
  · simpa only [clash_cons_iff h] using hk
  · simpa only [mem_cons_iff_of_key_ne (e := e) (r := r) (x := (k, _)) hke] using ha
  · simpa only [mem_cons_iff_of_key_ne (e := e) (r := r) (x := (k, _)) hke] using hb

end Alone

/-! ## Collapsing -/

/-- What collapsing gives, if it succeeds: no key clashes, and the entries are those of the list in
strictly increasing order of the keys. The induction is along the function, whose steps are an entry
that stands twice and one that is alone under its key. -/
theorem collapse_ok {out : List (String × Entity)} (hl : Ordered l) (h : collapse l = .ok out) :
    (∀ k, ¬ Clash l k) ∧ out.Pairwise (fun x y => x.1 < y.1) ∧ ∀ x, x ∈ out ↔ x ∈ l := by
  fun_induction collapse l generalizing out with
  | case1 =>
    cases h
    exact ⟨fun k ⟨x, _, hx, _⟩ => absurd hx (by simp), .nil, fun _ => Iff.rfl⟩
  | case2 e =>
    cases h
    refine ⟨fun k ⟨x, y, hx, hy, hxy⟩ => hxy ?_, List.pairwise_singleton _ _, fun _ => Iff.rfl⟩
    have hxe : x = e.2 := congrArg Prod.snd (List.mem_singleton.mp hx)
    have hye : y = e.2 := congrArg Prod.snd (List.mem_singleton.mp hy)
    exact hxe.trans hye.symm
  | case3 e f r hkey hent ih =>
    have hef : e = f := Prod.ext hkey hent
    subst hef
    obtain ⟨hclash, hsorted, hmem⟩ := ih (List.pairwise_cons.mp hl).2 h
    refine ⟨fun k hk => hclash k ((clash_congr mem_cons_self_cons).mpr hk), hsorted, fun x => ?_⟩
    rw [hmem, ← mem_cons_self_cons]
  | case4 e f r hkey hent => cases h
  | case5 e f r hkey ih =>
    -- the list is sorted, so no later entry comes back to the key of the first
    obtain ⟨rest, hrest, rfl⟩ := map_eq_ok_iff.mp h
    have halone : ∀ x ∈ f :: r, e.1 < x.1 := fun x hx => hl.key_lt hkey hx
    obtain ⟨hclash, hsorted, hmem⟩ := ih (List.pairwise_cons.mp hl).2 hrest
    refine ⟨fun k hk => hclash k ((clash_cons_iff halone).mp hk),
      List.pairwise_cons.mpr ⟨fun x hx => halone x ((hmem x).mp hx), hsorted⟩, fun x => ?_⟩
    rw [List.mem_cons, hmem, List.mem_cons (b := e)]

/-- What collapsing gives, if it fails: the first clash. Only the step that compares two different
entities under one key fails; each of the other two hands the fault of the rest on. -/
theorem collapse_error {err : SchemaError} (hl : Ordered l) (h : collapse l = .error err) :
    ∃ k a b, err = .duplicateKey k a b ∧ FirstClash l k a b := by
  fun_induction collapse l with
  | case1 => cases h
  | case2 e => cases h
  | case3 e f r hkey hent ih =>
    have hef : e = f := Prod.ext hkey hent
    subst hef
    obtain ⟨k, a, b, rfl, hc⟩ := ih (List.pairwise_cons.mp hl).2 h
    exact ⟨k, a, b, rfl, hc.congr mem_cons_self_cons⟩
  | case4 e f r hkey hent =>
    cases h
    exact ⟨f.1, e.2.typeName, f.2.typeName, rfl, firstClash_of_neighbours hl hkey hent⟩
  | case5 e f r hkey ih =>
    obtain ⟨k, a, b, rfl, hc⟩ := ih (List.pairwise_cons.mp hl).2 (map_eq_error_iff.mp h)
    exact ⟨k, a, b, rfl, hc.cons fun x hx => hl.key_lt hkey hx⟩

/-! ## Sorted entries -/

variable {r : Registry}

theorem mem_mergeSort_entries (r : Registry) (x : String × Entity) :
    x ∈ r.entries.mergeSort entryLE ↔ x ∈ r.entries := List.mem_mergeSort

theorem sortedEntries_ok {out : List (String × Entity)} (h : r.sortedEntries = .ok out) :
    (∀ k, ¬ Clash r.entries k) ∧ out.Pairwise (fun x y => x.1 < y.1) ∧
      ∀ x, x ∈ out ↔ x ∈ r.entries := by
  obtain ⟨hclash, hsorted, hmem⟩ := collapse_ok (ordered_mergeSort _) h
  refine ⟨fun k hk => hclash k ((clash_congr (mem_mergeSort_entries r)).mpr hk), hsorted,
    fun x => ?_⟩
  rw [hmem, mem_mergeSort_entries]

theorem sortedEntries_error {err : SchemaError} (h : r.sortedEntries = .error err) :
    ∃ k a b, err = .duplicateKey k a b ∧ FirstClash r.entries k a b := by
  obtain ⟨k, a, b, rfl, hc⟩ := collapse_error (ordered_mergeSort _) h
  exact ⟨k, a, b, rfl, hc.congr (mem_mergeSort_entries r)⟩

/-- Lists in strictly increasing order of the keys are the same if they have the same members. Such
lists do not repeat anything, hence one is the other rearranged, and there is only one order. -/
theorem eq_of_key_lt (hl : l.Pairwise fun x y => x.1 < y.1) (hl' : l'.Pairwise fun x y => x.1 < y.1)
    (h : ∀ x, x ∈ l ↔ x ∈ l') : l = l' := by
  have hperm : l.Perm l' :=
    (List.perm_ext_iff_of_nodup (hl.imp fun hlt he => ne_of_lt hlt (congrArg Prod.fst he))
      (hl'.imp fun hlt he => ne_of_lt hlt (congrArg Prod.fst he))).mpr h
  exact hperm.eq_of_pairwise (fun x y _ _ hxy hyx => absurd hyx (lt_asymm hxy)) hl hl'

/-- **A registry means what is registered.** The order and the number of registrations have no part
in it, neither in the entries nor in the fault. -/
theorem sortedEntries_congr {r' : Registry} (h : ∀ x, x ∈ r.entries ↔ x ∈ r'.entries) :
    r.sortedEntries = r'.sortedEntries := by
  -- entries on one side and a fault on the other would be a clash that is there and is not
  cases hr : r.sortedEntries with
  | ok out =>
    obtain ⟨hclash, hsorted, hmem⟩ := sortedEntries_ok hr
    cases hr' : r'.sortedEntries with
    | ok out' =>
      obtain ⟨-, hsorted', hmem'⟩ := sortedEntries_ok hr'
      rw [eq_of_key_lt hsorted hsorted' fun x => by rw [hmem, h, hmem']]
    | error err =>
      obtain ⟨k, a, b, -, hc⟩ := sortedEntries_error hr'
      exact absurd ((clash_congr h).mpr hc.key.1) (hclash k)
  | error err =>
    obtain ⟨k, a, b, rfl, hc⟩ := sortedEntries_error hr
    cases hr' : r'.sortedEntries with
    | ok out' => exact absurd ((clash_congr h).mp hc.key.1) ((sortedEntries_ok hr').1 k)
    | error err' =>
      obtain ⟨k', a', b', rfl, hc'⟩ := sortedEntries_error hr'
      obtain ⟨rfl, rfl, rfl⟩ := (hc.congr h).unique hc'
      rfl

/-! ## Fewer registrations -/

/-- The keys that something is registered under. -/
def keys (r : Registry) : List String := r.entries.map (·.1)

/-- Where no key clashes, a registration is in a part of the registry if its key is. -/
theorem mem_entries_iff_mem_keys {r' : Registry} (hsub : ∀ x ∈ r.entries, x ∈ r'.entries)
    (hclash : ∀ k, ¬ Clash r'.entries k) {x : String × Entity} (hx : x ∈ r'.entries) :
    x ∈ r.entries ↔ x.1 ∈ r.keys := by
  constructor
  · intro h
    exact List.mem_map_of_mem h
  · intro h
    obtain ⟨y, hy, hkey⟩ := List.mem_map.mp h
    by_cases hent : y.2 = x.2
    · exact (Prod.ext hkey hent : y = x) ▸ hy
    · -- the key has another entity in the part, so it would have two in the whole
      have hy' : (x.1, y.2) ∈ r'.entries := hkey ▸ hsub y hy
      exact absurd ⟨y.2, x.2, hy', hx, hent⟩ (hclash x.1)

/-- A part of a registry without clashes has the entries of its own keys. -/
theorem sortedEntries_of_subset {r' : Registry} {out' : List (String × Entity)}
    (hsub : ∀ x ∈ r.entries, x ∈ r'.entries) (h : r'.sortedEntries = .ok out') :
    r.sortedEntries = .ok (out'.filter fun x => r.keys.contains x.1) := by
  obtain ⟨hclash, hsorted, hmem⟩ := sortedEntries_ok h
  cases hr : r.sortedEntries with
  | error err =>
    obtain ⟨k, a, b, -, hc⟩ := sortedEntries_error hr
    obtain ⟨x, y, hx, hy, hxy⟩ := hc.key.1
    exact absurd ⟨x, y, hsub _ hx, hsub _ hy, hxy⟩ (hclash k)
  | ok out =>
    obtain ⟨-, hsorted', hmem'⟩ := sortedEntries_ok hr
    rw [eq_of_key_lt hsorted' (hsorted.sublist List.filter_sublist) fun x => ?_]
    rw [List.mem_filter, List.contains_iff_mem, hmem, hmem']
    constructor
    · intro hx
      exact ⟨hsub x hx, List.mem_map_of_mem hx⟩
    · rintro ⟨hx, hkey⟩
      exact (mem_entries_iff_mem_keys hsub hclash hx).mpr hkey

/-! ## The fault as it is reported

`FirstClash` speaks of two entities at once, which is how neighbours are compared. Whoever reads the
fault wants to know what its second type name is: the first one again if two entities share it, and
else the next one under the key. -/

open StoreModel.Text

/-- The least text with a property, in the order of the bytes. -/
def LeastText (P : String → Prop) (a : String) : Prop := P a ∧ ∀ b, P b → b ≠ a → bytes a < bytes b

theorem isLeast_iff_leastText {P : String → Prop} : IsLeast {t | P t} a ↔ LeastText P a := by
  refine and_congr_right fun _ => ⟨fun h b hb hne => ?_, fun h b hb => ?_⟩
  · exact lt_iff_bytes_lt.mp (lt_of_le_of_ne (h hb) (Ne.symm hne))
  · by_cases hne : b = a
    · exact le_of_eq hne.symm
    · exact le_of_lt (lt_iff_bytes_lt.mpr (h b hb hne))

/-- A type name is registered under a key. -/
def Named (es : List (String × Entity)) (k t : String) : Prop :=
  ∃ x, (k, x) ∈ es ∧ x.typeName = t

/-- Two different entities of one type name are registered under a key. -/
def Shared (es : List (String × Entity)) (k t : String) : Prop :=
  ∃ x y, (k, x) ∈ es ∧ (k, y) ∈ es ∧ x ≠ y ∧ x.typeName = t ∧ y.typeName = t

/-- The fault as its reader takes it: the least key with a clash, the least type name under it, and
the same name again if two entities share it, or else the next name there. -/
structure Reported (es : List (String × Entity)) (k a b : String) : Prop where
  key : LeastText (Clash es) k
  first : LeastText (Named es k) a
  second : (Shared es k a ∧ b = a) ∨
    (¬ Shared es k a ∧ LeastText (fun t => t ≠ a ∧ Named es k t) b)

/-- What neighbours show is what the reader of the fault is told. If two entities share the first
type name, one of them clashes under that name; if none do, whatever clashes with the first has
another name. -/
theorem FirstClash.reported (h : FirstClash l k a b) : Reported l k a b := by
  refine ⟨isLeast_iff_leastText.mp h.key, isLeast_iff_leastText.mp h.first, ?_⟩
  obtain ⟨x, y, hx, hy, hxa, hxy, hyb⟩ := h.second.1
  by_cases hshared : Shared l k a
  · obtain ⟨x', y', hx', hy', hne', hxa', hya'⟩ := hshared
    have hba : b ≤ a := h.second.2 ⟨x', y', hx', hy', hxa', hne', hya'⟩
    exact Or.inl ⟨⟨x', y', hx', hy', hne', hxa', hya'⟩, le_antisymm hba (h.first.2 ⟨y, hy, hyb⟩)⟩
  · refine Or.inr ⟨hshared, isLeast_iff_leastText.mp ⟨⟨fun hb => hshared ?_, y, hy, hyb⟩, ?_⟩⟩
    · exact ⟨x, y, hx, hy, hxy, hxa, hyb.trans hb⟩
    · rintro t ⟨hta, z, hz, rfl⟩
      refine h.second.2 ⟨x, z, hx, hz, hxa, fun hxz => hta ?_, rfl⟩
      rw [← hxz, hxa]

/-- The other way round, the description for the reader leaves no other fault possible. With it the
two descriptions are one, and the result can be stated with the second alone. -/
theorem Reported.firstClash (h : Reported l k a b) : FirstClash l k a b := by
  have hfirst : IsLeast {t | Named l k t} a := isLeast_iff_leastText.mpr h.first
  refine ⟨isLeast_iff_leastText.mpr h.key, hfirst, ?_⟩
  rcases h.second with ⟨⟨x, y, hx, hy, hxy, hxa, hya⟩, rfl⟩ | ⟨hshared, hnext⟩
  · refine ⟨⟨x, y, hx, hy, hxa, hxy, hya⟩, ?_⟩
    rintro t ⟨-, z, -, hz, -, -, hzt⟩
    exact hfirst.2 ⟨z, hz, hzt⟩
  · obtain ⟨⟨hba, y, hy, hyb⟩, hlow⟩ := isLeast_iff_leastText.mpr hnext
    obtain ⟨x, hx, hxa⟩ := hfirst.1
    refine ⟨⟨x, y, hx, hy, hxa, fun hxy => hba ?_, hyb⟩, ?_⟩
    · rw [← hyb, ← hxy, hxa]
    · -- no other entity has the first type name, so one that differs has another
      rintro t ⟨x', z, hx', hz, hxa', hne, rfl⟩
      exact hlow ⟨fun hza => hshared ⟨x', z, hx', hz, hne, hxa', hza⟩, z, hz, rfl⟩

/-! ## The exact result -/

/-- A fault is the one that is reported, in both directions: the fault that comes describes the
registrations, and what describes them is unique. -/
theorem sortedEntries_error_iff {err : SchemaError} :
    r.sortedEntries = .error err ↔
      ∃ k a b, err = .duplicateKey k a b ∧ Reported r.entries k a b := by
  constructor
  · intro h
    obtain ⟨k, a, b, rfl, hc⟩ := sortedEntries_error h
    exact ⟨k, a, b, rfl, hc.reported⟩
  · rintro ⟨k, a, b, rfl, hrep⟩
    have hc := hrep.firstClash
    cases hr : r.sortedEntries with
    | ok out => exact absurd hc.key.1 ((sortedEntries_ok hr).1 k)
    | error err =>
      obtain ⟨k', a', b', rfl, hc'⟩ := sortedEntries_error hr
      obtain ⟨rfl, rfl, rfl⟩ := hc.unique hc'
      rfl

/-- Without a clash there are entries. A fault would have to be about a clash, and collapsing has no
other way to fail. -/
theorem sortedEntries_exists_iff :
    (∃ out, r.sortedEntries = .ok out) ↔ ∀ k, ¬ Clash r.entries k := by
  constructor
  · rintro ⟨out, hout⟩
    exact (sortedEntries_ok hout).1
  · intro hclash
    cases hr : r.sortedEntries with
    | ok out => exact ⟨out, rfl⟩
    | error err =>
      obtain ⟨k, a, b, -, hc⟩ := sortedEntries_error hr
      exact absurd hc.key.1 (hclash k)

/-- Entries are the one list in strictly increasing order of the keys that has the registrations as
its members. -/
theorem sortedEntries_ok_iff {out : List (String × Entity)} :
    r.sortedEntries = .ok out ↔
      out.Pairwise (fun x y => bytes x.1 < bytes y.1) ∧ ∀ x, x ∈ out ↔ x ∈ r.entries := by
  constructor
  · intro h
    obtain ⟨-, hsorted, hmem⟩ := sortedEntries_ok h
    exact ⟨hsorted.imp lt_iff_bytes_lt.mp, hmem⟩
  · rintro ⟨hbytes, hmem⟩
    have hsorted : out.Pairwise fun x y => x.1 < y.1 := hbytes.imp lt_iff_bytes_lt.mpr
    have hkeys : (out.map (·.1)).Nodup := List.pairwise_map.mpr (hsorted.imp ne_of_lt)
    -- keys do not repeat among the entries, so nothing that is registered clashes
    have hclash : ∀ k, ¬ Clash r.entries k := by
      rintro k ⟨x, y, hx, hy, hxy⟩
      have heq := List.inj_on_of_nodup_map hkeys ((hmem _).mpr hx) ((hmem _).mpr hy) rfl
      exact hxy (congrArg Prod.snd heq)
    obtain ⟨out', hout'⟩ := sortedEntries_exists_iff.mpr hclash
    obtain ⟨-, hsorted', hmem'⟩ := sortedEntries_ok hout'
    rw [hout', eq_of_key_lt hsorted' hsorted fun x => (hmem' x).trans (hmem x).symm]

/-- **The entries of a registry, or its fault, from what is registered.** There are entries exactly
if all entities under one key are equal, for every key; they are the registrations, each once, in
strictly increasing order of the keys. Otherwise the fault names the least key that has two
different entities, the least type name under it, and the one that comes next. -/
theorem sortedEntries_exact (r : Registry) :
    ((∃ out, r.sortedEntries = .ok out) ↔
      ∀ k x y, (k, x) ∈ r.entries → (k, y) ∈ r.entries → x = y) ∧
    (∀ out, r.sortedEntries = .ok out ↔
      out.Pairwise (fun x y => bytes x.1 < bytes y.1) ∧ ∀ x, x ∈ out ↔ x ∈ r.entries) ∧
    ∀ err, r.sortedEntries = .error err ↔
      ∃ k a b, err = .duplicateKey k a b ∧ Reported r.entries k a b := by
  refine ⟨?_, fun out => sortedEntries_ok_iff, fun err => sortedEntries_error_iff⟩
  rw [sortedEntries_exists_iff]
  constructor
  · intro hclash k x y hx hy
    by_contra hxy
    exact hclash k ⟨x, y, hx, hy, hxy⟩
  · rintro hsame k ⟨x, y, hx, hy, hxy⟩
    exact hxy (hsame k x y hx hy)

/-- Two entities of one type name, with an equal one between them: the name stands twice. -/
example : (((Registry.insert {} "Post" ⟨"Post", []⟩).insert "Post"
    ⟨"Post", [{ name := "title", shape := .string }]⟩).insert "Post" ⟨"Post", []⟩).sortedEntries =
      .error (.duplicateKey "Post" "Post" "Post") := by
  cbv

end StoreModel.Registry

/-! ## Generation sees a set

A registry remembers the order in which entities were put in and how often; nothing that is
generated may show it, or the output would change with the order in which a program happens to be
linked. All that generation takes from the registry is its sorted entries, and these are determined
by membership (`Registry.sortedEntries_congr`). So it is with the text, the fault, and the log on
the way to either. -/

namespace StoreModel

theorem Registry.mem_insert {r : Registry} {key : String} {e : Entity} {x : String × Entity} :
    x ∈ (r.insert key e).entries ↔ x ∈ r.entries ∨ x = (key, e) := by
  unfold insert
  rw [List.mem_append, List.mem_singleton]

theorem Registry.mem_extend {r s : Registry} {x : String × Entity} :
    x ∈ (r.extend s).entries ↔ x ∈ r.entries ∨ x ∈ s.entries := List.mem_append

/-- **What is generated depends on nothing but the set of registrations.** -/
theorem Registry.generate_eq_of_mem_iff {r r' : Registry}
    (h : ∀ x, x ∈ r.entries ↔ x ∈ r'.entries) (path : String) :
    r.generate path = r'.generate path := by
  unfold generate
  rw [sortedEntries_congr h]

/-- Two descriptions of one type under one key, which the order of the entries does not tell apart:
as they come, and the other way round with one of them repeated. -/
theorem Sample.generate_rearranged :
    (((Registry.insert {} "Post" crossed).insert "Post" { crossed with fields := [] }).insert
      "User" user).generate "super" =
    ((Registry.insert {} "User" user).extend
      (((Registry.insert {} "Post" { crossed with fields := [] }).insert "Post" crossed).insert
        "Post" { crossed with fields := [] })).generate "super" := by
  refine Registry.generate_eq_of_mem_iff (fun x => ?_) "super"
  simp only [Registry.mem_insert, Registry.mem_extend]
  tauto

end StoreModel
