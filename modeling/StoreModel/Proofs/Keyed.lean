import Mathlib.Data.List.Nodup

/-!
# Lists under keys

Fields are looked up by a name or by an identifier, in lists that are put in different orders. Every
look-up is `List.find?` on a key, and where no key repeats, what it finds does not depend on the
order.
-/

set_option autoImplicit false

namespace StoreModel

variable {α β : Type}

theorem find?_key_eq_some_iff {key : α → String} {l : List α} (hd : (l.map key).Nodup)
    {k : String} {a : α} : l.find? (key · == k) = some a ↔ a ∈ l ∧ key a = k := by
  constructor
  · intro h
    exact ⟨List.mem_of_find?_eq_some h, by simpa using List.find?_some h⟩
  · rintro ⟨hm, rfl⟩
    cases hf : l.find? (key · == key a) with
    | none =>
      have hne : ¬ (key a == key a) = true := List.find?_eq_none.mp hf a hm
      exact absurd (beq_self_eq_true (key a)) hne
    | some b =>
      have hb : b ∈ l := List.mem_of_find?_eq_some hf
      have hk : key b = key a := by simpa using List.find?_some hf
      rw [List.inj_on_of_nodup_map hd hb hm hk]

theorem find?_key_of_perm {key : α → String} {l l' : List α} (hp : l.Perm l')
    (hd : (l.map key).Nodup) (k : String) :
    l.find? (key · == k) = l'.find? (key · == k) := by
  have hd' : (l'.map key).Nodup := (hp.map key).nodup_iff.mp hd
  refine Option.ext fun a => ?_
  rw [find?_key_eq_some_iff hd, find?_key_eq_some_iff hd', hp.mem_iff]

/-- Of what the entries of a list without repeated keys give, a key selects what its own entry
gives. -/
theorem filter_flatMap_key {key : α → String} {name : β → String} {f : α → List β}
    {l : List α} (hd : (l.map key).Nodup) (hf : ∀ a ∈ l, ∀ b ∈ f a, name b = key a)
    {a : α} (ha : a ∈ l) : (l.flatMap f).filter (name · == key a) = f a := by
  induction l with
  | nil => exact absurd ha (by simp)
  | cons c r ih =>
    rw [List.map_cons, List.nodup_cons] at hd
    rw [List.flatMap_cons, List.filter_append]
    rcases List.mem_cons.mp ha with rfl | har
    · -- the entry is the first, and no later one gives anything under its key
      have hfst : (f a).filter (name · == key a) = f a := by
        refine List.filter_eq_self.mpr fun b hb => ?_
        rw [hf a ha b hb]
        exact beq_self_eq_true (key a)
      have hrest : (r.flatMap f).filter (name · == key a) = [] := by
        refine List.filter_eq_nil_iff.mpr fun b hb => ?_
        obtain ⟨d, hd', hbd⟩ := List.mem_flatMap.mp hb
        rw [hf d (List.mem_cons_of_mem _ hd') b hbd]
        intro he
        exact hd.1 (List.mem_map.mpr ⟨d, hd', by simpa using he⟩)
      rw [hfst, hrest, List.append_nil]
    · -- the entry stands behind, so the first one has another key and gives nothing under this one
      have hfst : (f c).filter (name · == key a) = [] := by
        refine List.filter_eq_nil_iff.mpr fun b hb => ?_
        rw [hf c List.mem_cons_self b hb]
        intro he
        have hca : key c = key a := by simpa using he
        exact hd.1 (hca ▸ List.mem_map_of_mem har)
      rw [hfst, List.nil_append]
      exact ih hd.2 (fun d hdr => hf d (List.mem_cons_of_mem _ hdr)) har

end StoreModel
