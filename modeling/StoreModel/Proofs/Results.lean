import Mathlib.Data.List.Basic

/-!
# Steps that may fail

Schemas, code and modules are made by steps in `Except`, one after the other and over lists. These
are the inversions that take such a making apart: what is known of the steps when the whole has
succeeded, and which step it was when the whole has failed.
-/

set_option autoImplicit false

namespace StoreModel

variable {α β ε ε' : Type}

theorem bind_eq_ok_iff {x : Except ε α} {f : α → Except ε β} {b : β} :
    x >>= f = .ok b ↔ ∃ a, x = .ok a ∧ f a = .ok b := by
  cases x with
  | error e =>
    constructor
    · intro h
      cases h
    · rintro ⟨a, ha, -⟩
      cases ha
  | ok a =>
    constructor
    · intro h
      exact ⟨a, rfl, h⟩
    · rintro ⟨a', ha, h⟩
      cases ha
      exact h

theorem bind_eq_error_iff {x : Except ε α} {f : α → Except ε β} {e : ε} :
    x >>= f = .error e ↔ x = .error e ∨ ∃ a, x = .ok a ∧ f a = .error e := by
  cases x with
  | error e' =>
    constructor
    · intro h
      cases h
      exact Or.inl rfl
    · rintro (h | ⟨a, ha, -⟩)
      · cases h
        rfl
      · cases ha
  | ok a =>
    constructor
    · intro h
      exact Or.inr ⟨a, rfl, h⟩
    · rintro (h | ⟨a', ha, h⟩)
      · cases h
      · cases ha
        exact h

theorem map_eq_ok_iff {x : Except ε α} {f : α → β} {b : β} :
    x.map f = .ok b ↔ ∃ a, x = .ok a ∧ f a = b := by
  cases x with
  | error e =>
    constructor
    · intro h
      cases h
    · rintro ⟨a, ha, -⟩
      cases ha
  | ok a => simp [Except.map]

theorem map_eq_error_iff {x : Except ε α} {f : α → β} {e : ε} :
    x.map f = .error e ↔ x = .error e := by
  cases x <;> simp [Except.map]

theorem mapError_eq_ok_iff {x : Except ε α} {f : ε → ε'} {a : α} :
    x.mapError f = .ok a ↔ x = .ok a := by
  cases x <;> simp [Except.mapError]

theorem mapError_eq_error_iff {x : Except ε α} {f : ε → ε'} {e : ε'} :
    x.mapError f = .error e ↔ ∃ e', x = .error e' ∧ f e' = e := by
  cases x <;> simp [Except.mapError]

/-- A list is good up to a member: those before it are. -/
def GoodUpTo (good : α → Prop) (l : List α) (a : α) : Prop :=
  ∃ before after, l = before ++ a :: after ∧ ∀ b ∈ before, good b

theorem goodUpTo_nil {good : α → Prop} {a : α} : ¬ GoodUpTo good [] a := by
  rintro ⟨before, after, h, -⟩
  simp at h

theorem goodUpTo_cons_iff {good : α → Prop} {c : α} {r : List α} {a : α} :
    GoodUpTo good (c :: r) a ↔ c = a ∨ good c ∧ GoodUpTo good r a := by
  constructor
  · rintro ⟨before, after, h, hbefore⟩
    cases before with
    | nil =>
      simp at h
      exact Or.inl h.1
    | cons b before =>
      simp at h
      obtain ⟨rfl, rfl⟩ := h
      simp at hbefore
      exact Or.inr ⟨hbefore.1, before, after, rfl, hbefore.2⟩
  · rintro (rfl | ⟨hc, before, after, rfl, hbefore⟩)
    · exact ⟨[], r, rfl, by simp⟩
    · exact ⟨c :: before, after, rfl, by simpa using ⟨hc, hbefore⟩⟩

theorem goodUpTo_append_iff {good : α → Prop} {l r : List α} {a : α} :
    GoodUpTo good (l ++ r) a ↔ GoodUpTo good l a ∨ (∀ b ∈ l, good b) ∧ GoodUpTo good r a := by
  induction l with
  | nil => simp [goodUpTo_nil]
  | cons c l ih =>
    simp only [List.cons_append, goodUpTo_cons_iff, ih, List.forall_mem_cons]
    tauto

theorem goodUpTo_map_iff {good : β → Prop} {f : α → β} {l : List α} {b : β} :
    GoodUpTo good (l.map f) b ↔ ∃ a, GoodUpTo (fun x => good (f x)) l a ∧ f a = b := by
  induction l with
  | nil => simp [goodUpTo_nil]
  | cons c l ih =>
    simp only [List.map_cons, goodUpTo_cons_iff, ih]
    constructor
    · rintro (rfl | ⟨hc, a, ha, rfl⟩)
      · exact ⟨c, Or.inl rfl, rfl⟩
      · exact ⟨a, Or.inr ⟨hc, ha⟩, rfl⟩
    · rintro ⟨a, rfl | ⟨hc, ha⟩, rfl⟩
      · exact Or.inl rfl
      · exact Or.inr ⟨hc, a, ha, rfl⟩

theorem goodUpTo_flatMap_iff {good : β → Prop} {f : α → List β} {l : List α} {b : β} :
    GoodUpTo good (l.flatMap f) b ↔
      ∃ a, GoodUpTo (fun x => ∀ y ∈ f x, good y) l a ∧ GoodUpTo good (f a) b := by
  induction l with
  | nil => simp [goodUpTo_nil]
  | cons c l ih =>
    simp only [List.flatMap_cons, goodUpTo_append_iff, goodUpTo_cons_iff, ih]
    constructor
    · rintro (hc | ⟨hc, a, ha, hb⟩)
      · exact ⟨c, Or.inl rfl, hc⟩
      · exact ⟨a, Or.inr ⟨hc, ha⟩, hb⟩
    · rintro ⟨a, rfl | ⟨hc, ha⟩, hb⟩
      · exact Or.inl hb
      · exact Or.inr ⟨hc, a, ha, hb⟩

/-- Steps over a list fail as the first that fails, and that is the member up to which the list is
good. With it the order of the members is the order of the faults. -/
theorem mapM_eq_error_iff {f : α → Except ε β} {l : List α} {e : ε} :
    l.mapM f = .error e ↔ ∃ a, GoodUpTo (fun x => ∃ b, f x = .ok b) l a ∧ f a = .error e := by
  induction l with
  | nil => simp [goodUpTo_nil, pure, Except.pure]
  | cons c l ih =>
    simp only [List.mapM_cons, bind_eq_error_iff, ih, goodUpTo_cons_iff]
    constructor
    · rintro (hc | ⟨b, hb, ⟨a, ha, he⟩ | ⟨bs, -, h⟩⟩)
      · exact ⟨c, Or.inl rfl, hc⟩
      · exact ⟨a, Or.inr ⟨⟨b, hb⟩, ha⟩, he⟩
      · cases h
    · rintro ⟨a, rfl | ⟨⟨b, hb⟩, ha⟩, he⟩
      · exact Or.inl he
      · exact Or.inr ⟨b, hb, Or.inl ⟨a, ha, he⟩⟩

/-- Steps over a list fail only as one of them does. -/
theorem exists_of_mapM_eq_error {f : α → Except ε β} {l : List α} {e : ε}
    (h : l.mapM f = .error e) : ∃ a ∈ l, f a = .error e := by
  obtain ⟨a, ⟨before, after, rfl, -⟩, ha⟩ := mapM_eq_error_iff.mp h
  exact ⟨a, by simp, ha⟩

/-- Steps that can only give a known result succeed over a list exactly if each of them does. The
known result is what makes the list of results a `map`, with nothing left to choose. -/
theorem mapM_eq_ok_iff {f : α → Except ε β} {g : α → β} {ok : α → Prop}
    (hf : ∀ a b, f a = .ok b ↔ ok a ∧ b = g a) {l : List α} {bs : List β} :
    l.mapM f = .ok bs ↔ (∀ a ∈ l, ok a) ∧ bs = l.map g := by
  induction l generalizing bs with
  | nil =>
    rw [List.mapM_nil]
    constructor
    · intro h
      cases h
      exact ⟨by simp, rfl⟩
    · rintro ⟨-, rfl⟩
      rfl
  | cons a r ih =>
    rw [List.mapM_cons, bind_eq_ok_iff, List.forall_mem_cons, List.map_cons]
    constructor
    · rintro ⟨b, hb, h⟩
      obtain ⟨u, hu, hbs⟩ := bind_eq_ok_iff.mp h
      obtain ⟨hr, rfl⟩ := ih.mp hu
      obtain ⟨ha, rfl⟩ := (hf a b).mp hb
      cases hbs
      exact ⟨⟨ha, hr⟩, rfl⟩
    · rintro ⟨⟨ha, hr⟩, rfl⟩
      exact ⟨g a, (hf a (g a)).mpr ⟨ha, rfl⟩,
        bind_eq_ok_iff.mpr ⟨r.map g, ih.mpr ⟨hr, rfl⟩, rfl⟩⟩

end StoreModel
