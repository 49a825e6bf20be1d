import Mathlib.Data.List.Basic
import StoreModel.Entity.Registration

/-!
# What the shape of a type depends on

`Shape.ofType` goes down through parentheses and groups, along a path to its last name, and into the
argument of a vector. Of all that stands in a type only three things are ever told apart: a name
without arguments at the end (`Ty.Named`), a name with one argument that is a type (`Ty.Applies`),
and anything else. The shape is inverted once along these (`Ty.shapedAs_ofType`), and what it says
is all that is used of `Shape.ofType` from there on.

The argument of a vector is classified in turn, parentheses and groups around it included. The zone
of a time is not: it has to end in its name as it stands (`Ty.EndsIn`).
-/

set_option autoImplicit false

namespace StoreModel.Source

/-! ## Ends of paths -/

namespace Ty

/-- The type without the parentheses and groups that enclose it. -/
def unwrapped : Ty → Ty
  | .paren t => t.unwrapped
  | .group t => t.unwrapped
  | t => t

/-- The type is a path, and this is the last of its names. -/
def EndsIn (t : Ty) (s : Segment) : Prop := ∃ leading before, t = .path leading (before ++ [s])

/-- The type, enclosed or not, is a path that ends in a name without arguments. -/
def Named (t : Ty) (name : String) : Prop := t.unwrapped.EndsIn (.plain name)

/-- The type, enclosed or not, is a path that ends in a name with one argument, which is a type. -/
def Applies (t : Ty) (name : String) (arg : Ty) : Prop :=
  ∃ separated comma, t.unwrapped.EndsIn (.generic name separated [.type arg] comma)

/-- The type stands in parentheses or in a group. -/
def isWrapped : Ty → Bool
  | .paren _ | .group _ => true
  | _ => false

variable {t u v : Ty} {s s' : Segment} {n n' : String}

theorem isWrapped_unwrapped (t : Ty) : t.unwrapped.isWrapped = false := by
  fun_induction unwrapped t with
  | case1 t ih => exact ih
  | case2 t ih => exact ih
  | case3 t hparen hgroup =>
    cases t with
    | paren t => exact absurd rfl (hparen t)
    | group t => exact absurd rfl (hgroup t)
    | path | bound | other => rfl

/-- A path has one last name. This is what makes the three forms of a type exclude each other. -/
theorem EndsIn.unique (h : t.EndsIn s) (h' : t.EndsIn s') : s = s' := by
  obtain ⟨leading, before, rfl⟩ := h
  obtain ⟨leading', before', heq⟩ := h'
  obtain ⟨-, hsegments⟩ := path.inj heq
  exact List.singleton_inj.mp (List.append_inj' hsegments rfl).2

theorem EndsIn.named_iff (h : t.unwrapped.EndsIn s) : t.Named n ↔ s = .plain n := by
  constructor
  · exact h.unique
  · rintro rfl
    exact h

theorem EndsIn.applies_iff (h : t.unwrapped.EndsIn s) :
    t.Applies n u ↔ ∃ separated comma, s = .generic n separated [.type u] comma := by
  constructor
  · rintro ⟨separated, comma, h'⟩
    exact ⟨separated, comma, h.unique h'⟩
  · rintro ⟨separated, comma, rfl⟩
    exact ⟨separated, comma, h⟩

theorem Named.unique (h : t.Named n) (h' : t.Named n') : n = n' := by
  cases (EndsIn.named_iff h).mp h'
  rfl

theorem Named.not_applies (h : t.Named n) : ¬ t.Applies n' u := by
  intro h'
  obtain ⟨_, _, hsegment⟩ := (EndsIn.applies_iff h).mp h'
  cases hsegment

theorem Applies.unique (h : t.Applies n u) (h' : t.Applies n' v) : n = n' ∧ u = v := by
  obtain ⟨_, _, h⟩ := h
  obtain ⟨_, _, hsegment⟩ := h.applies_iff.mp h'
  cases hsegment
  exact ⟨rfl, rfl⟩

theorem sizeOf_unwrapped_le (t : Ty) : sizeOf t.unwrapped ≤ sizeOf t := by
  fun_induction unwrapped t with
  | case1 t ih =>
    rw [paren.sizeOf_spec]
    omega
  | case2 t ih =>
    rw [group.sizeOf_spec]
    omega
  | case3 => exact Nat.le_refl _

/-- The argument of a type is smaller than the type, parentheses and groups counted in. Without this
there would be no induction along vectors of vectors. -/
theorem Applies.sizeOf_lt (h : t.Applies n u) : sizeOf u < sizeOf t := by
  obtain ⟨separated, comma, leading, before, hpath⟩ := h
  have hsegment : sizeOf (Segment.generic n separated [.type u] comma) <
      sizeOf (before ++ [Segment.generic n separated [.type u] comma]) :=
    List.sizeOf_lt_of_mem (by simp)
  have hle := sizeOf_unwrapped_le t
  rw [hpath, path.sizeOf_spec] at hle
  rw [Segment.generic.sizeOf_spec, List.cons.sizeOf_spec, Arg.type.sizeOf_spec] at hsegment
  omega

/-- Induction along the arguments of vectors: what holds of a type if it holds of the argument that
a vector has, holds of every type. Other types are where the induction starts. -/
theorem vectorInduction {motive : Ty → Prop}
    (step : ∀ t, (∀ u, t.Applies "Vec" u → motive u) → motive t) (t : Ty) : motive t :=
  step t fun u happlies =>
    have : sizeOf u < sizeOf t := happlies.sizeOf_lt
    vectorInduction step u
termination_by sizeOf t

end Ty

/-! ## The zone of a time -/

/-- The zone is recognized by the last name of its path and by nothing else. Types in parentheses
are not looked into here, unlike everywhere else. -/
theorem isUtc_iff {z : Ty} : isUtc z = true ↔ z.EndsIn (.plain "Utc") := by
  cases z with
  | path leading segments =>
    have hends : (Ty.path leading segments).EndsIn (.plain "Utc") ↔
        segments.getLast? = some (.plain "Utc") := by
      rw [List.getLast?_eq_some_iff]
      simp [Ty.EndsIn]
    rw [hends]
    unfold isUtc
    dsimp only
    rcases hlast : segments.getLast? with - | ⟨name⟩ | ⟨name, separated, args, comma⟩
    · simp
    · simp
    · simp
  | paren | group | bound | other => simp [isUtc, Ty.EndsIn]

end StoreModel.Source

namespace StoreModel

open StoreModel.Source

/-! ## The shape of a type -/

namespace Shape

theorem ofType_unwrapped (t : Ty) : ofType t.unwrapped = ofType t := by
  fun_induction Ty.unwrapped t with
  | case1 t ih => exact ih
  | case2 t ih => exact ih
  | case3 => rfl

theorem ofSegments?_append (before : List Segment) (s : Segment) :
    ofSegments? (before ++ [s]) = ofSegment? s := by
  induction before with
  | nil => rfl
  | cons b before ih =>
    cases before with
    | nil => rfl
    | cons c before => exact ih

theorem ofType_endsIn {t : Ty} {s : Segment} (h : t.unwrapped.EndsIn s) :
    ofType t = (ofSegment? s).getD (.unsupported t.unwrapped.text) := by
  rw [← ofType_unwrapped]
  obtain ⟨leading, before, hpath⟩ := h
  rw [hpath, ofType, ofSegments?_append]

end Shape

namespace Source.Ty

variable {t u : Ty}

/-- All that the shape of a type says about the type. -/
inductive ShapedAs (t : Ty) : Shape → Prop
  | scalar {name : String} {s : Shape} (h : t.Named name) (hs : Shape.scalar? name = some s) :
    ShapedAs t s
  | timestamp {z : Ty} (h : t.Applies "DateTime" z) (hz : z.EndsIn (.plain "Utc")) :
    ShapedAs t .timestamp
  | vector {u : Ty} {s : Shape} (h : t.Applies "Vec" u) (hs : (Shape.ofType u).vectorOf = s) :
    ShapedAs t s
  | unsupported (text : String) (hname : ∀ name, t.Named name → Shape.scalar? name = none)
    (hzone : ∀ z, t.Applies "DateTime" z → ¬ z.EndsIn (.plain "Utc"))
    (hvector : ∀ u, ¬ t.Applies "Vec" u) : ShapedAs t (.unsupported text)

/-- A type that is a path is told by the last name of it. The cases are those of the reader of
segments, and where none of them takes the name the type is unsupported for want of all three forms.
-/
theorem shapedAs_of_endsIn {s : Segment} (h : t.unwrapped.EndsIn s) :
    t.ShapedAs ((Shape.ofSegment? s).getD (.unsupported t.unwrapped.text)) := by
  cases s with
  | plain name =>
    rw [Shape.ofSegment?]
    cases hs : Shape.scalar? name with
    | some s => exact .scalar h hs
    | none =>
      refine .unsupported _ (fun n hn => ?_) ?_ ?_
      · rw [← Named.unique h hn, hs]
      · exact fun z hz => absurd hz (Named.not_applies h)
      · exact fun u => Named.not_applies h
  | generic name separated args comma =>
    have hname : ∀ n, ¬ t.Named n := by simp [h.named_iff]
    by_cases harg : ∃ u, args = [.type u]
    · obtain ⟨u, rfl⟩ := harg
      have hself : t.Applies name u := ⟨separated, comma, h⟩
      rw [Shape.ofSegment?]
      -- the two names that count are asked for in this order, and a zone belongs to the second
      by_cases hvector : name = "Vec"
      · rw [if_pos hvector]
        exact .vector (hvector ▸ hself) rfl
      · rw [if_neg hvector]
        by_cases htime : name = "DateTime" ∧ isUtc u = true
        · rw [if_pos htime]
          exact .timestamp (htime.1 ▸ hself) (isUtc_iff.mp htime.2)
        · rw [if_neg htime]
          refine .unsupported _ (fun n hn => absurd hn (hname n)) (fun z hz hutc => ?_)
            fun v hv => ?_
          · obtain ⟨rfl, rfl⟩ := hself.unique hz
            exact htime ⟨rfl, isUtc_iff.mpr hutc⟩
          · exact hvector (hself.unique hv).1
    · -- with no argument, with more than one or with one that is no type, nothing is recognized
      have hnone : Shape.ofSegment? (.generic name separated args comma) = none := by
        rw [Shape.ofSegment?.eq_def]
        dsimp only
        split
        · exact absurd ⟨_, rfl⟩ harg
        · rfl
      have happlies : ∀ n u, ¬ t.Applies n u := by
        intro n u hu
        obtain ⟨_, _, hsegment⟩ := h.applies_iff.mp hu
        cases hsegment
        exact harg ⟨u, rfl⟩
      rw [hnone]
      exact .unsupported _ (fun n hn => absurd hn (hname n)) (fun z hz => absurd hz (happlies _ z))
        (happlies _)

/-- A type that is no path, or a path without names, is never supported, and keeps the text that it
has without its parentheses. -/
theorem ofType_of_not_endsIn (h : ¬ ∃ s, t.unwrapped.EndsIn s) :
    Shape.ofType t = .unsupported t.unwrapped.text := by
  have hwrapped := isWrapped_unwrapped t
  rw [← Shape.ofType_unwrapped]
  cases hform : t.unwrapped with
  | path leading segments =>
    rcases List.eq_nil_or_concat segments with rfl | ⟨before, s, rfl⟩
    · rfl
    · exact absurd ⟨s, leading, before, hform.trans (by rw [List.concat_eq_append])⟩ h
  | paren u =>
    rw [hform] at hwrapped
    cases hwrapped
  | group u =>
    rw [hform] at hwrapped
    cases hwrapped
  | bound parens ts => rfl
  | other ts => rfl

/-- **The shape of a type is decided by the end of its path.** -/
theorem shapedAs_ofType (t : Ty) : t.ShapedAs (Shape.ofType t) := by
  by_cases hends : ∃ s, t.unwrapped.EndsIn s
  · obtain ⟨s, hs⟩ := hends
    rw [Shape.ofType_endsIn hs]
    exact shapedAs_of_endsIn hs
  · rw [ofType_of_not_endsIn hends]
    exact .unsupported _ (fun _ hn => absurd ⟨_, hn⟩ hends)
      (fun _ ⟨_, _, hz⟩ => absurd ⟨_, hz⟩ hends) fun _ ⟨_, _, hu⟩ => hends ⟨_, hu⟩

end Source.Ty

/-! ## Types of a shape -/

namespace Shape

variable {t u : Ty}

/-- The scalar types by their names, as a table. It has no name twice and no shape twice. -/
theorem scalar?_eq_some_iff {name : String} {s : Shape} : scalar? name = some s ↔
    (name, s) ∈ [("bool", bool), ("i64", i64), ("f64", f64), ("u8", u8), ("String", string),
      ("ByteString", byteString)] := by
  unfold scalar?
  split
  all_goals simp_all [eq_comm]

theorem scalar?_injective {n n' : String} {s : Shape} (h : scalar? n = some s)
    (h' : scalar? n' = some s) : n = n' := by
  rw [scalar?_eq_some_iff] at h h'
  cases s <;> simp_all

theorem vectorOf_eq_iff {s s' : Shape} :
    s.vectorOf = s' ↔ s = .u8 ∧ s' = .bytes ∨ s ≠ .u8 ∧ s' = .seq s := by
  cases s <;> simp [vectorOf, eq_comm]

theorem ofType_of_vector (h : t.Applies "Vec" u) : ofType t = (ofType u).vectorOf := by
  obtain ⟨separated, comma, h⟩ := h
  rw [ofType_endsIn h]
  rfl

theorem ofType_of_time {z : Ty} (h : t.Applies "DateTime" z) (hz : z.EndsIn (.plain "Utc")) :
    ofType t = .timestamp := by
  obtain ⟨separated, comma, h⟩ := h
  rw [ofType_endsIn h, ofSegment?, if_neg (by decide), if_pos ⟨rfl, isUtc_iff.mpr hz⟩]
  rfl

/-- A type has the shape of a scalar exactly if it has the name of it. Times and vectors have shapes
of their own, so nothing else can be mistaken for a scalar. -/
theorem ofType_eq_scalar_iff {name : String} {s : Shape} (hs : scalar? name = some s) :
    ofType t = s ↔ t.Named name := by
  constructor
  · intro h
    rw [scalar?_eq_some_iff] at hs
    cases h ▸ t.shapedAs_ofType with
    | scalar hname hs' => exact scalar?_injective hs' (scalar?_eq_some_iff.mpr hs) ▸ hname
    | timestamp => simp at hs
    | vector _ hvector =>
      rcases vectorOf_eq_iff.mp hvector with ⟨-, rfl⟩ | ⟨-, rfl⟩
      · simp at hs
      · simp at hs
    | unsupported => simp at hs
  · intro h
    rw [ofType_endsIn h, ofSegment?, hs]
    rfl

end Shape

end StoreModel
