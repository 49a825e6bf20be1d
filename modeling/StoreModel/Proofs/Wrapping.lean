import Mathlib.Logic.Relation
import StoreModel.Proofs.StorableTypes

/-!
# Parentheses and groups

Parentheses and groups that are put around a type, or around the arguments in it, mean nothing, and
`Shape.ofType` goes through all of them but one: those around the zone of a time. A type whose zone
gets hidden in this way is no time any more. Nothing else is lost (`ofType_of_wraps`).

Types are related by the single places where something is put around them, so that each fact is
proved for one place. What a type says about its shape it says by its name and its argument
(`TypeForms`), and both stay as they are.
-/

set_option autoImplicit false

namespace StoreModel.Source.Ty

open Relation

/-! ## Putting parentheses and groups around types -/

/-- Parentheses or a group are put around the type, or around an argument at any depth. What is kept
as tokens may change in its tokens. -/
inductive WrapsOnce : Ty → Ty → Prop
  | paren (t : Ty) : WrapsOnce t (.paren t)
  | group (t : Ty) : WrapsOnce t (.group t)
  | insideParen {t u : Ty} (h : WrapsOnce t u) : WrapsOnce (.paren t) (.paren u)
  | insideGroup {t u : Ty} (h : WrapsOnce t u) : WrapsOnce (.group t) (.group u)
  | argument (leading : Bool) (before after : List Segment) (name : String) (separated : Bool)
    (front back : List Arg) (comma : Bool) {t u : Ty} (h : WrapsOnce t u) :
    WrapsOnce
      (.path leading
        (before ++ .generic name separated (front ++ .type t :: back) comma :: after))
      (.path leading
        (before ++ .generic name separated (front ++ .type u :: back) comma :: after))
  | argumentTokens (leading : Bool) (before after : List Segment) (name : String) (separated : Bool)
    (front back : List Arg) (comma : Bool) (ts us : List Tree) :
    WrapsOnce
      (.path leading
        (before ++ .generic name separated (front ++ .other ts :: back) comma :: after))
      (.path leading
        (before ++ .generic name separated (front ++ .other us :: back) comma :: after))
  | bound (parens : Bool) (ts us : List Tree) : WrapsOnce (.bound parens ts) (.bound parens us)
  | other (ts us : List Tree) : WrapsOnce (.other ts) (.other us)

/-- Parentheses and groups are put around the type and around arguments in it. -/
def Wraps : Ty → Ty → Prop := ReflTransGen WrapsOnce

/-- The type is a time whose zone stands in parentheses or in a group. -/
def HidesOwnZone (t : Ty) : Prop :=
  ∃ z, t.Applies "DateTime" z ∧ z.isWrapped = true ∧ z.Named "Utc"

/-- The type is a time whose zone stands in parentheses or in a group, or a vector of such. -/
inductive HidesZone : Ty → Prop
  | zone {t : Ty} (h : t.HidesOwnZone) : HidesZone t
  | vector {t u : Ty} (h : t.Applies "Vec" u) (hu : HidesZone u) : HidesZone t

variable {t u a b z z' : Ty} {n : String} {s s' : Segment}

/-! ## What stays -/

/-- What a path ends in, if one of its segments is pointed out: that segment, when none comes after
it, and otherwise something that the segment has no part in. -/
theorem endsIn_path_iff {leading : Bool} {before after : List Segment} :
    (path leading (before ++ s :: after)).EndsIn s' ↔
      (after = [] ∧ s = s') ∨ ∃ init, after = init ++ [s'] := by
  constructor
  · rintro ⟨leading', before', h⟩
    obtain ⟨-, h⟩ := path.inj h
    rcases List.eq_nil_or_concat after with rfl | ⟨init, last, rfl⟩
    · exact Or.inl ⟨rfl, List.singleton_inj.mp (List.append_inj' h rfl).2⟩
    · rw [List.concat_eq_append, ← List.cons_append, ← List.append_assoc] at h
      obtain rfl := List.singleton_inj.mp (List.append_inj' h rfl).2
      exact Or.inr ⟨init, List.concat_eq_append⟩
  · rintro (⟨rfl, rfl⟩ | ⟨init, rfl⟩)
    · exact ⟨leading, before, rfl⟩
    · exact ⟨leading, before ++ s :: init, by simp⟩

/-- The same for the argument a path is applied to. The segment that is pointed out has to be the
last, and what is changed in it has to be the only argument. -/
theorem applies_path_iff {leading : Bool} {before after : List Segment} {name : String}
    {separated : Bool} {args : List Arg} {comma : Bool} :
    (path leading (before ++ .generic name separated args comma :: after)).Applies n a ↔
      (after = [] ∧ name = n ∧ args = [.type a]) ∨
        ∃ init separated' comma', after = init ++ [.generic n separated' [.type a] comma'] := by
  simp only [Applies, unwrapped, endsIn_path_iff, Segment.generic.injEq]
  constructor
  · rintro ⟨separated', comma', ⟨rfl, rfl, -, rfl, -⟩ | ⟨init, rfl⟩⟩
    · exact Or.inl ⟨rfl, rfl, rfl⟩
    · exact Or.inr ⟨init, separated', comma', rfl⟩
  · rintro (⟨rfl, rfl, rfl⟩ | ⟨init, separated', comma', rfl⟩)
    · exact ⟨separated, comma, Or.inl ⟨rfl, rfl, rfl, rfl, rfl⟩⟩
    · exact ⟨separated', comma', Or.inr ⟨init, rfl⟩⟩

/-- The name of a type stays as it is. Names are read through everything that is put around the
type, and what is put around an argument is not looked at. -/
theorem WrapsOnce.named_iff (h : WrapsOnce t u) : t.Named n ↔ u.Named n := by
  induction h with
  | paren | group => exact Iff.rfl
  | insideParen _ ih | insideGroup _ ih => exact ih
  | argument | argumentTokens => simp [Named, unwrapped, endsIn_path_iff]
  | bound | other => simp [Named, unwrapped, EndsIn]

theorem WrapsOnce.isWrapped (h : WrapsOnce t u) (ht : t.isWrapped = true) : u.isWrapped = true := by
  cases h with
  | paren | group | insideParen | insideGroup => rfl
  | argument | argumentTokens | bound | other => cases ht

section Arguments

variable {leading separated comma : Bool} {before after : List Segment} {name : String}
  {front back : List Arg}

/-- Where one argument is put for another, the argument that a path ends in stays or is this one.
The relation is a variable, so that the lemma serves for both directions of a step. -/
theorem applies_of_argument {r : Ty → Ty → Prop} (hrefl : ∀ a, r a a) (h : r t u)
    (ha : (path leading (before ++
      .generic name separated (front ++ .type t :: back) comma :: after)).Applies n a) :
    ∃ b, (path leading (before ++
      .generic name separated (front ++ .type u :: back) comma :: after)).Applies n b ∧
        r a b := by
  rcases applies_path_iff.mp ha with ⟨hafter, hname, harg⟩ | hlast
  · obtain ⟨rfl, rfl, rfl⟩ : front = [] ∧ t = a ∧ back = [] := by
      simpa [List.append_eq_singleton_iff] using harg
    exact ⟨u, applies_path_iff.mpr (Or.inl ⟨hafter, hname, rfl⟩), h⟩
  · exact ⟨a, applies_path_iff.mpr (Or.inr hlast), hrefl a⟩

theorem applies_of_argumentTokens {ts us : List Tree}
    (ha : (path leading (before ++
      .generic name separated (front ++ .other ts :: back) comma :: after)).Applies n a) :
    (path leading (before ++
      .generic name separated (front ++ .other us :: back) comma :: after)).Applies n a := by
  rcases applies_path_iff.mp ha with ⟨-, -, harg⟩ | hlast
  · simp [List.append_eq_singleton_iff] at harg
  · exact applies_path_iff.mpr (Or.inr hlast)

end Arguments

/-- What a type is applied to may have something put around it by a step, but no more than that. The
induction goes through the wrappings of the type itself; the step in an argument is the base of it.
-/
theorem WrapsOnce.applies (h : WrapsOnce t u) (ha : t.Applies n a) :
    ∃ b, u.Applies n b ∧ Wraps a b := by
  induction h with
  | paren | group => exact ⟨a, ha, .refl⟩
  | insideParen _ ih | insideGroup _ ih => exact ih ha
  | argument _ _ _ _ _ _ _ _ h => exact applies_of_argument (fun _ => .refl) (.single h) ha
  | argumentTokens => exact ⟨a, applies_of_argumentTokens ha, .refl⟩
  | bound | other =>
    obtain ⟨_, _, _, _, ha⟩ := ha
    cases ha

theorem WrapsOnce.of_applies (h : WrapsOnce t u) (hb : u.Applies n b) :
    ∃ a, t.Applies n a ∧ Wraps a b := by
  induction h with
  | paren | group => exact ⟨b, hb, .refl⟩
  | insideParen _ ih | insideGroup _ ih => exact ih hb
  | argument _ _ _ _ _ _ _ _ h =>
    exact applies_of_argument (r := fun b a => Wraps a b) (fun _ => .refl) (.single h) hb
  | argumentTokens => exact ⟨b, applies_of_argumentTokens hb, .refl⟩
  | bound | other =>
    obtain ⟨_, _, _, _, hb⟩ := hb
    cases hb

theorem Wraps.named_iff (h : Wraps t u) : t.Named n ↔ u.Named n := by
  induction h with
  | refl => exact Iff.rfl
  | tail _ hlast ih => exact ih.trans hlast.named_iff

theorem Wraps.isWrapped (h : Wraps t u) (ht : t.isWrapped = true) : u.isWrapped = true := by
  induction h with
  | refl => exact ht
  | tail _ hlast ih => exact hlast.isWrapped ih

theorem Wraps.applies (h : Wraps t u) (ha : t.Applies n a) :
    ∃ b, u.Applies n b ∧ Wraps a b := by
  induction h with
  | refl => exact ⟨a, ha, .refl⟩
  | tail _ hlast ih =>
    obtain ⟨b, hb, hab⟩ := ih
    obtain ⟨c, hc, hbc⟩ := hlast.applies hb
    exact ⟨c, hc, hab.trans hbc⟩

theorem Wraps.of_applies (h : Wraps t u) (hb : u.Applies n b) :
    ∃ a, t.Applies n a ∧ Wraps a b := by
  induction h generalizing b with
  | refl => exact ⟨b, hb, .refl⟩
  | tail _ hlast ih =>
    obtain ⟨c, hc, hcb⟩ := hlast.of_applies hb
    obtain ⟨a, ha, hac⟩ := ih hc
    exact ⟨a, ha, hac.trans hcb⟩

/-- What is said of an argument and does not depend on what is put around it stays true. Vectors of
bytes and times whose zone may be hidden are both said in this form. -/
theorem Wraps.exists_applies_iff {p : Ty → Prop} (h : Wraps t u)
    (hp : ∀ {a b}, Wraps a b → (p a ↔ p b)) :
    (∃ a, t.Applies n a ∧ p a) ↔ ∃ b, u.Applies n b ∧ p b := by
  constructor
  · rintro ⟨a, ha, hpa⟩
    obtain ⟨b, hb, hab⟩ := h.applies ha
    exact ⟨b, hb, (hp hab).mp hpa⟩
  · rintro ⟨b, hb, hpb⟩
    obtain ⟨a, ha, hab⟩ := h.of_applies hb
    exact ⟨a, ha, (hp hab).mpr hpb⟩

theorem Wraps.isBytes_iff (h : Wraps t u) : t.IsBytes ↔ u.IsBytes :=
  h.exists_applies_iff fun hab => hab.named_iff

/-! ## Hidden zones -/

/-- The type is a time of the zone that is stored. -/
def IsTime (t : Ty) : Prop := ∃ z, t.Applies "DateTime" z ∧ z.EndsIn (.plain "Utc")

/-- A zone is seen if it has the name and nothing is put around it. This is the one place where
`Shape.ofType` does not go through what is around a type. -/
theorem endsIn_plain_iff : z.EndsIn (.plain n) ↔ z.Named n ∧ ¬ z.isWrapped = true := by
  cases z with
  | path | bound | other => simp [Named, unwrapped, isWrapped]
  | paren | group => simp [EndsIn, isWrapped]

theorem IsTime.not_hidesOwnZone (h : t.IsTime) : ¬ t.HidesOwnZone := by
  rintro ⟨z, hz, hwrapped, -⟩
  obtain ⟨z', hz', hends⟩ := h
  obtain ⟨-, rfl⟩ := hz.unique hz'
  exact (endsIn_plain_iff.mp hends).2 hwrapped

/-- A time with its zone in sight or hidden: together they depend on names and arguments only, and
these stay as they are. -/
theorem isTime_or_hidesOwnZone_iff :
    t.IsTime ∨ t.HidesOwnZone ↔ ∃ z, t.Applies "DateTime" z ∧ z.Named "Utc" := by
  constructor
  · rintro (⟨z, hz, hends⟩ | ⟨z, hz, -, hname⟩)
    · exact ⟨z, hz, (endsIn_plain_iff.mp hends).1⟩
    · exact ⟨z, hz, hname⟩
  · rintro ⟨z, hz, hname⟩
    by_cases hwrapped : z.isWrapped = true
    · exact Or.inr ⟨z, hz, hwrapped, hname⟩
    · exact Or.inl ⟨z, hz, endsIn_plain_iff.mpr ⟨hname, hwrapped⟩⟩

theorem Wraps.hidesOwnZone (h : Wraps t u) (ht : t.HidesOwnZone) : u.HidesOwnZone := by
  obtain ⟨z, hz, hwrapped, hname⟩ := ht
  obtain ⟨z', hz', hwraps⟩ := h.applies hz
  exact ⟨z', hz', hwraps.isWrapped hwrapped, hwraps.named_iff.mp hname⟩

/-- Whether a type is a time changes exactly where a zone gets hidden. A hidden zone stays hidden,
and of being a time and hiding the zone at most one is true; the rest is propositional. -/
theorem Wraps.isTime_iff_iff (h : Wraps t u) :
    (t.IsTime ↔ u.IsTime) ↔ (u.HidesOwnZone → t.HidesOwnZone) := by
  have hnames : t.IsTime ∨ t.HidesOwnZone ↔ u.IsTime ∨ u.HidesOwnZone := by
    rw [isTime_or_hidesOwnZone_iff, isTime_or_hidesOwnZone_iff]
    exact h.exists_applies_iff fun hab => hab.named_iff
  have ht : t.IsTime → ¬ t.HidesOwnZone := IsTime.not_hidesOwnZone
  have hu : u.IsTime → ¬ u.HidesOwnZone := IsTime.not_hidesOwnZone
  have hstays := h.hidesOwnZone
  tauto

theorem Applies.not_hidesOwnZone (h : t.Applies "Vec" a) : ¬ t.HidesOwnZone := by
  rintro ⟨z, hz, -⟩
  exact absurd (h.unique hz).1 (by decide)

theorem hidesZone_iff_of_vector (h : t.Applies "Vec" a) : t.HidesZone ↔ a.HidesZone := by
  constructor
  · intro ht
    cases ht with
    | zone hown => exact absurd hown h.not_hidesOwnZone
    | vector hu hzone =>
      obtain ⟨-, rfl⟩ := h.unique hu
      exact hzone
  · exact .vector h

theorem hidesZone_iff_of_not_vector (h : ∀ a, ¬ t.Applies "Vec" a) :
    t.HidesZone ↔ t.HidesOwnZone := by
  constructor
  · intro ht
    cases ht with
    | zone hown => exact hown
    | vector hu => exact absurd hu (h _)
  · exact .zone

end StoreModel.Source.Ty

namespace StoreModel

open StoreModel.Source

/-! ## Shapes -/

namespace Shape

/-- The shape with the texts of unsupported types left out. -/
def outline : Shape → Shape
  | .seq s => .seq s.outline
  | .unsupported _ => .unsupported ""
  | s => s

variable {t u : Ty} {s s' : Shape} {m : Mapping}

theorem outline_vectorOf_eq_iff :
    s.vectorOf.outline = s'.vectorOf.outline ↔ s.outline = s'.outline := by
  cases s <;> cases s' <;> simp [vectorOf, outline]

/-- How a shape is stored does not depend on the texts of unsupported types, as a refusal does not
carry them. -/
theorem mapping_outline (s : Shape) : s.outline.mapping = s.mapping := by
  cases s with
  | seq s => cases s <;> rfl
  | _ => rfl

/-- Nothing but a time is stored as a single timestamp, so what is stored tells whether a type is a
time. -/
theorem mapping_eq_timestamp_iff : s.mapping = .ok { kind := .timestamp } ↔ s = .timestamp := by
  cases s with
  | seq s => cases s <;> simp [mapping]
  | _ => simp [mapping]

/-- How a vector is stored depends on three questions about its elements: whether they are bytes,
texts, or vectors of bytes. Times among them are refused as others are. -/
theorem mapping_vectorOf_congr (hbyte : s = .u8 ↔ s' = .u8) (hstring : s = .string ↔ s' = .string)
    (hbytes : s = .bytes ↔ s' = .bytes) : s.vectorOf.mapping = s'.vectorOf.mapping := by
  cases s <;> cases s' <;> simp_all [vectorOf, mapping]

theorem ofType_eq_timestamp_iff : ofType t = .timestamp ↔ t.IsTime := by
  constructor
  · intro h
    have hshaped := t.shapedAs_ofType
    rw [h] at hshaped
    cases hshaped with
    | scalar _ hs => simp [scalar?_eq_some_iff] at hs
    | timestamp hz hends => exact ⟨_, hz, hends⟩
    | vector _ hs => simp [vectorOf_eq_iff] at hs
  · rintro ⟨z, hz, hends⟩
    exact ofType_of_time hz hends

/-- A type is a scalar by its name, a vector by its argument, or else a time or unsupported. What is
put around it cannot change the first two. -/
theorem ofType_cases (t : Ty) :
    (∃ name s, scalar? name = some s ∧ t.Named name) ∨ (∃ a, t.Applies "Vec" a) ∨
      ofType t = .timestamp ∨ ∃ text, ofType t = .unsupported text := by
  have hshaped := t.shapedAs_ofType
  generalize ofType t = s at hshaped
  cases hshaped with
  | scalar hname hs => exact Or.inl ⟨_, _, hs, hname⟩
  | vector ha => exact Or.inr (Or.inl ⟨_, ha⟩)
  | timestamp => exact Or.inr (Or.inr (Or.inl rfl))
  | unsupported text => exact Or.inr (Or.inr (Or.inr ⟨text, rfl⟩))

/-- Outside of vectors the shape stays, up to texts, just if the type stays a time or stays none. A
scalar keeps its name; of the four other pairs two are a time on one side only. -/
theorem outline_eq_iff_of_not_vector (h : Ty.Wraps t u) (ht : ¬ ∃ a, t.Applies "Vec" a)
    (hu : ¬ ∃ b, u.Applies "Vec" b) :
    (ofType t).outline = (ofType u).outline ↔ (t.IsTime ↔ u.IsTime) := by
  rw [← ofType_eq_timestamp_iff, ← ofType_eq_timestamp_iff]
  by_cases hscalar : ∃ name s, scalar? name = some s ∧ t.Named name
  · obtain ⟨name, s, hs, hname⟩ := hscalar
    rw [(ofType_eq_scalar_iff hs).mpr hname, (ofType_eq_scalar_iff hs).mpr (h.named_iff.mp hname)]
    exact iff_of_true rfl Iff.rfl
  · have ht' := (ofType_cases t).resolve_left hscalar |>.resolve_left ht
    simp only [h.named_iff] at hscalar
    have hu' := (ofType_cases u).resolve_left hscalar |>.resolve_left hu
    rcases ht' with ht' | ⟨text, ht'⟩ <;> rcases hu' with hu' | ⟨text', hu'⟩
    all_goals simp [ht', hu', outline]

/-- And outside of vectors how a type is stored changes together with its shape, since among these
types only times are told apart by what is put around. -/
theorem mapping_eq_iff_of_not_vector (h : Ty.Wraps t u) (ht : ¬ ∃ a, t.Applies "Vec" a)
    (hu : ¬ ∃ b, u.Applies "Vec" b) :
    (ofType t).mapping = (ofType u).mapping ↔ (t.IsTime ↔ u.IsTime) := by
  constructor
  · intro hmapping
    rw [← ofType_eq_timestamp_iff, ← ofType_eq_timestamp_iff, ← mapping_eq_timestamp_iff,
      ← mapping_eq_timestamp_iff, hmapping]
  · intro htime
    rw [← mapping_outline, (outline_eq_iff_of_not_vector h ht hu).mpr htime, mapping_outline]

/-- A vector is always stored as it was: the three questions about its elements are answered by
names and arguments. -/
theorem mapping_eq_of_vector {a b : Ty} (ht : t.Applies "Vec" a) (hu : u.Applies "Vec" b)
    (h : Ty.Wraps a b) : (ofType t).mapping = (ofType u).mapping := by
  rw [ofType_of_vector ht, ofType_of_vector hu]
  have hscalar : ∀ {name s}, scalar? name = some s → (ofType a = s ↔ ofType b = s) := by
    intro name s hs
    rw [ofType_eq_scalar_iff hs, ofType_eq_scalar_iff hs, h.named_iff]
  apply mapping_vectorOf_congr
  · exact hscalar (show scalar? "u8" = some .u8 from rfl)
  · exact hscalar (show scalar? "String" = some .string from rfl)
  · rw [ofType_eq_bytes_iff, ofType_eq_bytes_iff, h.isBytes_iff]

/-- **What is put around types is seen through, but for the zone of a time.** With parentheses and
groups around it and around its arguments a type has the shape it had, up to the texts of
unsupported types, and is stored as it was, exactly if no zone of a time gets hidden; a zone that
stands inside a vector makes no difference to how the type is stored. -/
theorem ofType_of_wraps (h : Ty.Wraps t u) :
    ((ofType t).outline = (ofType u).outline ↔ (u.HidesZone → t.HidesZone)) ∧
      ((ofType t).mapping = (ofType u).mapping ↔ (u.HidesOwnZone → t.HidesOwnZone)) := by
  induction t using Ty.vectorInduction generalizing u with
  | step t ih =>
    by_cases ht : ∃ a, t.Applies "Vec" a
    · obtain ⟨a, ha⟩ := ht
      obtain ⟨b, hb, hab⟩ := h.applies ha
      -- the shape goes down into the elements, how it is stored does not
      constructor
      · rw [ofType_of_vector ha, ofType_of_vector hb, outline_vectorOf_eq_iff, (ih _ ha hab).1,
          Ty.hidesZone_iff_of_vector ha, Ty.hidesZone_iff_of_vector hb]
      · exact iff_of_true (mapping_eq_of_vector ha hb hab) fun hzone =>
          absurd hzone hb.not_hidesOwnZone
    · -- wrappings make no vector of what is none, so neither side is one
      have hu : ¬ ∃ b, u.Applies "Vec" b := by
        rintro ⟨b, hb⟩
        obtain ⟨a, ha, -⟩ := h.of_applies hb
        exact ht ⟨a, ha⟩
      constructor
      · rw [outline_eq_iff_of_not_vector h ht hu, h.isTime_iff_iff,
          Ty.hidesZone_iff_of_not_vector (not_exists.mp ht),
          Ty.hidesZone_iff_of_not_vector (not_exists.mp hu)]
      · rw [mapping_eq_iff_of_not_vector h ht hu, h.isTime_iff_iff]

end Shape

namespace Sample

/-- A time with this as its zone. -/
def timeIn (z : Ty) : Ty := .path false [.generic "DateTime" false [.type z] false]

/-- The zone that is stored. -/
def utc : Ty := .path false [.plain "Utc"]

/-- A vector of these. -/
def vectorOf (t : Ty) : Ty := .path false [.generic "Vec" false [.type t] false]

/-- Parentheses around the elements of a vector are seen through. -/
theorem ofType_of_wraps_elements :
    (vectorOf (timeIn utc)).Wraps (vectorOf (.paren (timeIn utc))) ∧
      (Shape.ofType (vectorOf (timeIn utc))).outline =
        (Shape.ofType (vectorOf (.paren (timeIn utc)))).outline ∧
      (Shape.ofType (vectorOf (timeIn utc))).mapping =
        (Shape.ofType (vectorOf (.paren (timeIn utc)))).mapping := by
  have hwraps : (vectorOf (timeIn utc)).Wraps (vectorOf (.paren (timeIn utc))) :=
    .single (.argument false [] [] "Vec" false [] [] false (.paren _))
  have hvector : (vectorOf (.paren (timeIn utc))).Applies "Vec" (.paren (timeIn utc)) :=
    ⟨false, false, false, [], rfl⟩
  have htime : (Ty.paren (timeIn utc)).Applies "DateTime" utc := ⟨false, false, false, [], rfl⟩
  have hshown : ¬ (vectorOf (.paren (timeIn utc))).HidesZone := by
    rw [Ty.hidesZone_iff_of_vector hvector, Ty.hidesZone_iff_of_not_vector fun _ ha =>
      absurd (htime.unique ha).1 (by decide)]
    exact Ty.IsTime.not_hidesOwnZone ⟨utc, htime, false, [], rfl⟩
  have hkept := Shape.ofType_of_wraps hwraps
  exact ⟨hwraps, hkept.1.mpr fun h => absurd h hshown,
    hkept.2.mpr fun h => absurd h hvector.not_hidesOwnZone⟩

/-- Parentheses around the zone of a time are not. -/
theorem zone_hidden :
    (timeIn utc).WrapsOnce (timeIn (.paren utc)) ∧
      (Shape.ofType (timeIn utc)).outline ≠ (Shape.ofType (timeIn (.paren utc))).outline ∧
      (Shape.ofType (timeIn utc)).mapping = .ok { kind := .timestamp } ∧
      (Shape.ofType (timeIn (.paren utc))).mapping = .error .type :=
  ⟨.argument false [] [] "DateTime" false [] [] false (.paren _), by decide, by decide, by decide⟩

end Sample

end StoreModel
