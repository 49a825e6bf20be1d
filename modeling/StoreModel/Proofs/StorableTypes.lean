import StoreModel.Proofs.TypeForms

/-!
# Which types can be stored

Two steps decide whether fields of a type can be stored: `Shape.ofType` looks at the type and leaves
a shape, and `Shape.mapping` looks at the shape. Here the two are put together, and the shape in
between is gone: a type is stored in a certain way exactly if it has a certain form
(`Ty.StoredAs`). A vector of anything that has no such form as an element is refused for its
elements, and every other type by itself (`mapping_ofType`).

Bytes are where the two steps meet. A vector of bytes is one shape already, so whether an element is
a byte, a vector of bytes or a vector of these is told by the first step for the innermost vector
and by the second for the one around it.
-/

set_option autoImplicit false

namespace StoreModel

open StoreModel.Source

namespace Source.Ty

/-! ## Forms of types -/

/-- The names of types that are stored as single values. -/
def scalarKinds : List (String × Kind) :=
  [("bool", .bool), ("i64", .int64), ("f64", .float64), ("String", .string),
    ("ByteString", .byteString)]

/-- A vector of bytes. -/
def IsBytes (t : Ty) : Prop := ∃ u, t.Applies "Vec" u ∧ u.Named "u8"

/-- Values of the type are stored in this way. -/
inductive StoredAs (t : Ty) : Shape.Mapping → Prop
  | scalar {name : String} {kind : Kind} (hkind : (name, kind) ∈ scalarKinds) (h : t.Named name) :
    StoredAs t { kind }
  | timestamp {z : Ty} (h : t.Applies "DateTime" z) (hz : z.EndsIn (.plain "Utc")) :
    StoredAs t { kind := .timestamp }
  | bytes (h : t.IsBytes) : StoredAs t { kind := .bytes, forcesNoIndex := true }
  | texts {u : Ty} (h : t.Applies "Vec" u) (hu : u.Named "String") :
    StoredAs t { kind := .string, multiple := true }
  | blobs {u : Ty} (h : t.Applies "Vec" u) (hu : u.IsBytes) :
    StoredAs t { kind := .bytes, multiple := true, forcesNoIndex := true }

/-- A vector of elements that are neither bytes nor texts nor vectors of bytes. -/
def IsOtherVector (t : Ty) : Prop :=
  ∃ u, t.Applies "Vec" u ∧ ¬ u.Named "u8" ∧ ¬ u.Named "String" ∧ ¬ u.IsBytes

end Source.Ty

namespace Shape

variable {t : Ty} {m : Mapping}

/-! ## How the forms are stored -/

theorem ofType_eq_bytes_iff : ofType t = .bytes ↔ t.IsBytes := by
  constructor
  · intro h
    cases h ▸ t.shapedAs_ofType with
    | scalar _ hs => simp [scalar?_eq_some_iff] at hs
    | @vector u _ hu hs =>
      have hu8 : ofType u = .u8 := by simpa [vectorOf_eq_iff] using hs
      exact ⟨u, hu, (ofType_eq_scalar_iff rfl).mp hu8⟩
  · rintro ⟨u, h, hu⟩
    rw [ofType_of_vector h, (ofType_eq_scalar_iff rfl).mpr hu]
    rfl

/-- Each form is stored as it says. The shape of the type is found from the form first, and then the
mapping is computed. -/
theorem mapping_of_storedAs (h : t.StoredAs m) : (ofType t).mapping = .ok m := by
  cases h with
  | scalar hkind h =>
    simp only [Ty.scalarKinds, List.mem_cons, Prod.mk.injEq, List.not_mem_nil, or_false] at hkind
    obtain ⟨rfl, rfl⟩ | ⟨rfl, rfl⟩ | ⟨rfl, rfl⟩ | ⟨rfl, rfl⟩ | ⟨rfl, rfl⟩ := hkind
    all_goals
      rw [(ofType_eq_scalar_iff rfl).mpr h]
      rfl
  | timestamp h hz =>
    rw [ofType_of_time h hz]
    rfl
  | bytes h =>
    rw [ofType_eq_bytes_iff.mpr h]
    rfl
  | texts h hu =>
    rw [ofType_of_vector h, (ofType_eq_scalar_iff rfl).mpr hu]
    rfl
  | blobs h hu =>
    rw [ofType_of_vector h, ofType_eq_bytes_iff.mpr hu]
    rfl

theorem mapping_of_isOtherVector (h : t.IsOtherVector) :
    (ofType t).mapping = .error .element := by
  obtain ⟨u, h, hbyte, hstring, hbytes⟩ := h
  rw [← ofType_eq_scalar_iff (s := .u8) rfl] at hbyte
  rw [← ofType_eq_scalar_iff (s := .string) rfl] at hstring
  rw [← ofType_eq_bytes_iff] at hbytes
  rw [ofType_of_vector h]
  cases hs : ofType u <;> simp_all [vectorOf, mapping]

/-- What has none of the forms is refused by itself, unless it is a vector. The cases are those of
the shape of the type; a vector is told by its elements. -/
theorem mapping_cases (t : Ty) :
    (∃ m, t.StoredAs m) ∨ t.IsOtherVector ∨ (ofType t).mapping = .error .type := by
  have hshaped := t.shapedAs_ofType
  generalize ofType t = s at hshaped
  cases hshaped with
  | @scalar name _ h hs =>
    have hforms : s = .u8 ∨ ∃ kind, (name, kind) ∈ Ty.scalarKinds := by
      simp only [scalar?_eq_some_iff, List.mem_cons, Prod.mk.injEq, List.not_mem_nil, or_false]
        at hs
      obtain ⟨rfl, rfl⟩ | ⟨rfl, rfl⟩ | ⟨rfl, rfl⟩ | ⟨rfl, rfl⟩ | ⟨rfl, rfl⟩ | ⟨rfl, rfl⟩ := hs
      all_goals simp [Ty.scalarKinds]
    rcases hforms with rfl | ⟨kind, hkind⟩
    · exact Or.inr (Or.inr rfl)
    · exact Or.inl ⟨_, .scalar hkind h⟩
  | timestamp h hz => exact Or.inl ⟨_, .timestamp h hz⟩
  | @vector u _ h hs =>
    -- three vectors can be stored, told by their elements; all others are refused for these
    by_cases hbyte : u.Named "u8"
    · exact Or.inl ⟨_, .bytes ⟨u, h, hbyte⟩⟩
    by_cases hstring : u.Named "String"
    · exact Or.inl ⟨_, .texts h hstring⟩
    by_cases hbytes : u.IsBytes
    · exact Or.inl ⟨_, .blobs h hbytes⟩
    exact Or.inr (Or.inl ⟨u, h, hbyte, hstring, hbytes⟩)
  | unsupported => exact Or.inr (Or.inr rfl)

theorem mapping_ok_iff : (ofType t).mapping = .ok m ↔ t.StoredAs m := by
  constructor
  · intro h
    rcases mapping_cases t with ⟨m', hstored⟩ | hother | htype
    · have hok := mapping_of_storedAs hstored
      rw [h] at hok
      cases hok
      exact hstored
    · cases h.symm.trans (mapping_of_isOtherVector hother)
    · cases h.symm.trans htype
  · exact mapping_of_storedAs

theorem mapping_element_iff : (ofType t).mapping = .error .element ↔ t.IsOtherVector := by
  constructor
  · intro h
    rcases mapping_cases t with ⟨m, hstored⟩ | hother | htype
    · cases h.symm.trans (mapping_of_storedAs hstored)
    · exact hother
    · cases h.symm.trans htype
  · exact mapping_of_isOtherVector

theorem mapping_type_iff :
    (ofType t).mapping = .error .type ↔ (∀ m, ¬ t.StoredAs m) ∧ ¬ t.IsOtherVector := by
  constructor
  · intro h
    refine ⟨fun m hstored => ?_, fun hother => ?_⟩
    · cases h.symm.trans (mapping_of_storedAs hstored)
    · cases h.symm.trans (mapping_of_isOtherVector hother)
  · rintro ⟨hstored, hother⟩
    rcases mapping_cases t with ⟨m, h⟩ | h | h
    · exact absurd h (hstored m)
    · exact absurd h hother
    · exact h

/-- **Which types can be stored.** Fields of a type can be stored exactly if the type has one of the
forms, whatever else stands in its path. A vector of elements without such a form is refused for
them, all else by itself. One property for each element is stored for vectors of texts and of
vectors of bytes only, and only bytes and vectors of them are never indexed. -/
theorem mapping_ofType (t : Ty) :
    (∀ m, (ofType t).mapping = .ok m ↔ t.StoredAs m) ∧
      ((ofType t).mapping = .error .element ↔ t.IsOtherVector) ∧
      ((ofType t).mapping = .error .type ↔ (∀ m, ¬ t.StoredAs m) ∧ ¬ t.IsOtherVector) ∧
      ((∃ m, (ofType t).mapping = .ok m ∧ m.multiple = true) ↔
        ∃ u, t.Applies "Vec" u ∧ (u.Named "String" ∨ u.IsBytes)) ∧
      ((∃ m, (ofType t).mapping = .ok m ∧ m.forcesNoIndex = true) ↔
        t.IsBytes ∨ ∃ u, t.Applies "Vec" u ∧ u.IsBytes) := by
  refine ⟨fun m => mapping_ok_iff, mapping_element_iff, mapping_type_iff, ?_, ?_⟩
  · simp only [mapping_ok_iff]
    constructor
    · rintro ⟨m, h, hmultiple⟩
      cases h with
      | texts h hu => exact ⟨_, h, Or.inl hu⟩
      | blobs h hu => exact ⟨_, h, Or.inr hu⟩
      | scalar | timestamp | bytes => cases hmultiple
    · rintro ⟨u, h, hu | hu⟩
      · exact ⟨_, .texts h hu, rfl⟩
      · exact ⟨_, .blobs h hu, rfl⟩
  · simp only [mapping_ok_iff]
    constructor
    · rintro ⟨m, h, hforces⟩
      cases h with
      | bytes h => exact Or.inl h
      | blobs h hu => exact Or.inr ⟨_, h, hu⟩
      | scalar | timestamp | texts => cases hforces
    · rintro (h | ⟨u, h, hu⟩)
      · exact ⟨_, .bytes h, rfl⟩
      · exact ⟨_, .blobs h hu, rfl⟩

end Shape

end StoreModel
