import StoreModel.Proofs.ModuleReading

/-!
# A module is told from its tokens

A module is its pieces, put one behind the other, and nothing in the text says how long its parts
are. Yet each part is found in its pieces, whatever stands behind it (`Decodes`): its fixed words
are passed over, a name or a literal is one piece, and wherever the code has a choice the next piece
shows how it was made. A list of parts ends where a piece comes that none of them begins with.
-/

set_option autoImplicit false

namespace StoreModel

open StoreModel.Layout StoreModel.Source StoreModel.Text

namespace ModuleText

variable {as bs x y : List Atom}

/-! ## Values that are found in their pieces -/

@[simp]
theorem kept_append (as bs : List Atom) : kept (as ++ bs) = kept as ++ kept bs :=
  List.filter_append ..

@[simp]
theorem kept_word (s : String) (as : List Atom) : kept (.word s :: as) = .word s :: kept as := rfl

@[simp]
theorem kept_literal (s : String) (as : List Atom) :
    kept (.literal s :: as) = .literal s :: kept as := rfl

@[simp]
theorem kept_gap (as : List Atom) : kept (.gap :: as) = kept as := rfl

/-- The pieces begin with different ones. -/
def headsApart (as bs : List Atom) : Bool :=
  match as.head?, bs.head? with
  | some a, some b => a != b
  | _, _ => false

/-- Pieces that begin with different ones stay different with anything behind them. All the ends of
lists and all the choices below are told in this way, by one piece. -/
theorem ne_of_headsApart (h : headsApart as bs = true) (x y : List Atom) : as ++ x ≠ bs ++ y := by
  intro heq
  cases as with
  | nil => cases h
  | cons a as =>
    cases bs with
    | nil => cases h
    | cons b bs =>
      have hne : (a != b) = true := h
      exact bne_iff_ne.mp hne (List.cons.inj heq).1

/-- For fixed texts the first pieces are compared by computation. The characters have to be given,
since the pieces of a text are split off its characters and not off the text. -/
theorem headsApart_fixed {s t : String} {cs ds : List Char} (hs : s = String.ofList cs)
    (ht : t = String.ofList ds)
    (h : headsApart (kept (splitAtoms [] cs)) (kept (splitAtoms [] ds)) = true) :
    headsApart (kept (atomsOf s)) (kept (atomsOf t)) = true := by
  rwa [atomsOf_eq hs, atomsOf_eq ht]

/-- A value is found in its pieces, whatever stands behind them. -/
def Decodes {α : Type} (f : α → List Atom) : Prop :=
  ∀ ⦃a b : α⦄ ⦃x y : List Atom⦄, kept (f a) ++ x = kept (f b) ++ y → a = b ∧ x = y

/-- Values are found one by one if what stands behind them begins like none of them. The induction
is on the first list: where one list is at its end and the other is not, a value would begin like
what stands behind. -/
theorem Decodes.flatMap {α : Type} {f : α → List Atom} (hf : Decodes f) {l l' : List α}
    (hx : ∀ a z, kept (f a) ++ z ≠ x) (hy : ∀ a z, kept (f a) ++ z ≠ y)
    (h : kept (l.flatMap f) ++ x = kept (l'.flatMap f) ++ y) : l = l' ∧ x = y := by
  induction l generalizing l' with
  | nil =>
    cases l' with
    | nil => exact ⟨rfl, h⟩
    | cons b l' =>
      -- the first list is at its end, so the value `b` would begin like what stands behind it
      rw [List.flatMap_cons, kept_append, List.append_assoc] at h
      exact absurd h.symm (hx b _)
  | cons a l ih =>
    cases l' with
    | nil =>
      rw [List.flatMap_cons, kept_append, List.append_assoc] at h
      exact absurd h (hy a _)
    | cons b l' =>
      rw [List.flatMap_cons, List.flatMap_cons, kept_append, kept_append, List.append_assoc,
        List.append_assoc] at h
      obtain ⟨rfl, hrest⟩ := hf h
      obtain ⟨rfl, htail⟩ := ih hrest
      exact ⟨rfl, htail⟩

theorem decodes_constant : Decodes constantAtoms := by
  rintro ⟨⟨name⟩, value⟩ ⟨⟨name'⟩, value'⟩ x y h
  simp only [constantAtoms, kept_append, kept_word, kept_literal, List.append_assoc,
    List.cons_append, List.append_cancel_left_eq, List.cons.injEq, Atom.word.injEq,
    Atom.literal.injEq] at h
  obtain ⟨rfl, rfl, htail⟩ := h
  exact ⟨rfl, htail⟩

/-! ## Loading -/

theorem decodes_reset : Decodes resetAtoms := by
  rintro ⟨f⟩ ⟨f'⟩ x y h
  simp only [resetAtoms, kept_append, kept_word, List.append_assoc, List.cons_append,
    List.append_cancel_left_eq, List.cons.injEq, Atom.word.injEq] at h
  obtain ⟨rfl, htail⟩ := h
  exact ⟨rfl, htail⟩

/-- A refusal is told by its four texts. Whether it is about an element shows in one word in front
of them. -/
theorem decodes_refusal : Decodes refusalAtoms := by
  rintro ⟨t, f, k, element⟩ ⟨t', f', k', element'⟩ x y h
  simp only [refusalAtoms, kept_append, kept_word, kept_literal, List.append_assoc,
    List.cons_append, List.append_cancel_left_eq, List.cons.injEq, Atom.word.injEq,
    Atom.literal.injEq] at h
  obtain ⟨hname, rfl, rfl, rfl, htail⟩ := h
  have helement : element = element' := by
    revert hname
    cases element <;> cases element' <;> simp
  exact ⟨by rw [helement], htail⟩

/-- The first piece of a text tells which of two it is. Both texts are fixed, so after the choice is
known they cancel, and what stands behind them is left. -/
theorem decode_choice {b b' : Bool} (hclash : headsApart (kept as) (kept bs) = true)
    (h : kept (if b then as else bs) ++ x = kept (if b' then as else bs) ++ y) :
    b = b' ∧ x = y := by
  cases b with
  | false =>
    cases b' with
    | false => exact ⟨rfl, List.append_cancel_left h⟩
    | true => exact absurd h.symm (ne_of_headsApart hclash _ _)
  | true =>
    cases b' with
    | false => exact absurd h (ne_of_headsApart hclash _ _)
    | true => exact ⟨rfl, List.append_cancel_left h⟩

/-- A mark that may be missing is told from what comes after it. That comparison needs both
directions, as either of the two texts may be the one without the mark. -/
theorem decode_mark {b b' : Bool} (hx : ∀ z, kept as ++ z ≠ x) (hy : ∀ z, kept as ++ z ≠ y)
    (h : kept (if b then as else []) ++ x = kept (if b' then as else []) ++ y) :
    b = b' ∧ x = y := by
  cases b with
  | false =>
    cases b' with
    | false => exact ⟨rfl, h⟩
    | true => exact absurd h.symm (hx y)
  | true =>
    cases b' with
    | false => exact absurd h (hy x)
    | true => exact ⟨rfl, List.append_cancel_left h⟩

/-- An arm is found from its name on; whether it pushes or assigns is the last thing it says, by the
first piece of the statement it ends with. -/
theorem decodes_arm : Decodes armAtoms := by
  rintro ⟨name, ⟨f⟩, kind, push, mismatch⟩ ⟨name', ⟨f'⟩, kind', push', mismatch'⟩ x y h
  simp only [armAtoms, takeAtoms, kept_append, kept_word, kept_literal, List.append_assoc,
    List.cons_append, List.append_cancel_left_eq, List.cons.injEq, Atom.word.injEq,
    Atom.literal.injEq] at h
  obtain ⟨rfl, hkind, h⟩ := h
  obtain ⟨rfl, h⟩ := decodes_refusal h
  simp only [List.append_cancel_left_eq, List.cons.injEq, Atom.word.injEq] at h
  obtain ⟨rfl, h⟩ := h
  obtain ⟨rfl, htail⟩ := decode_choice (headsApart_fixed rfl rfl rfl) h
  rw [Kind.variant_injective hkind]
  exact ⟨rfl, List.append_cancel_left htail⟩

/-! ## Saving -/

/-- The content of a saved property names the field only outside of loops, where the field has been
named before. So the field is told here in one case and by the loop in the other. -/
theorem decode_content {s t : Saving} (hloop : s.loop = t.loop) (hkind : s.kind = t.kind)
    (h : kept (contentAtoms s) ++ x = kept (contentAtoms t) ++ y) :
    (s.loop = false → s.field = t.field) ∧ x = y := by
  unfold contentAtoms at h
  rw [← hloop, ← hkind] at h
  cases hl : s.loop with
  | true =>
    rw [if_pos hl, if_pos hl] at h
    exact ⟨fun hfalse => (by cases hfalse), List.append_cancel_left h⟩
  | false =>
    have hno : ¬ s.loop = true := by simp [hl]
    rw [if_neg hno, if_neg hno] at h
    have hfield : s.field.text = t.field.text ∧ x = y := by
      split at h
      all_goals
        simpa only [kept_append, kept_word, List.append_assoc, List.cons_append,
          List.append_cancel_left_eq, List.cons.injEq, Atom.word.injEq] using h
    exact ⟨fun _ => congrArg Ident.mk hfield.1, hfield.2⟩

/-- What is pushed tells its name, kind and mark. That there is a loop has to be known in advance,
since it changes what the content is written with. -/
theorem decode_push {s t : Saving} (hloop : s.loop = t.loop)
    (h : kept (pushAtoms s) ++ x = kept (pushAtoms t) ++ y) :
    s.name = t.name ∧ s.kind = t.kind ∧ s.noIndex = t.noIndex ∧
      (s.loop = false → s.field = t.field) ∧ x = y := by
  simp only [pushAtoms, markAtoms, kept_append, kept_word, kept_literal, List.append_assoc,
    List.cons_append, List.append_cancel_left_eq, List.cons.injEq, Atom.word.injEq,
    Atom.literal.injEq] at h
  obtain ⟨hname, hkind, h⟩ := h
  have hkind := Kind.variant_injective hkind
  obtain ⟨hfield, h⟩ := decode_content hloop hkind h
  rw [hloop] at h
  simp only [List.append_cancel_left_eq] at h
  have hend : ∀ w z, kept (atomsOf ".no_index()") ++ z ≠ kept (atomsOf ");") ++ w :=
    fun w z => ne_of_headsApart (headsApart_fixed rfl rfl rfl) z w
  obtain ⟨hindex, h⟩ := decode_mark (hend x) (hend y) h
  exact ⟨hname, hkind, hindex, hfield, List.append_cancel_left h⟩

/-- A saving is found in its pieces, with a loop around it or without. The two begin with different
words, and each of them names the field in its own place. -/
theorem decodes_saving : Decodes savingAtoms := by
  intro s t x y h
  have hclash : headsApart (kept (atomsOf "for elem in &self."))
      (kept (atomsOf "props.push(::propkit::Property::new(")) = true := headsApart_fixed rfl rfl rfl
  unfold savingAtoms at h
  have hall : s.loop = t.loop ∧ s.name = t.name ∧ s.kind = t.kind ∧ s.noIndex = t.noIndex ∧
      s.field = t.field ∧ x = y := by
    -- the first word tells whether there is a loop; only with one the field stands in front
    cases hloop : s.loop with
    | false =>
      rw [hloop, if_neg Bool.false_ne_true] at h
      cases hloop' : t.loop with
      | false =>
        rw [hloop', if_neg Bool.false_ne_true] at h
        obtain ⟨hname, hkind, hindex, hfield, htail⟩ := decode_push (hloop.trans hloop'.symm) h
        exact ⟨rfl, hname, hkind, hindex, hfield hloop, htail⟩
      | true =>
        rw [hloop', if_pos rfl] at h
        simp only [pushAtoms, kept_append, List.append_assoc] at h
        exact absurd h.symm (ne_of_headsApart hclash _ _)
    | true =>
      rw [hloop, if_pos rfl] at h
      cases hloop' : t.loop with
      | false =>
        rw [hloop', if_neg Bool.false_ne_true] at h
        simp only [pushAtoms, kept_append, List.append_assoc] at h
        exact absurd h (ne_of_headsApart hclash _ _)
      | true =>
        rw [hloop', if_pos rfl] at h
        simp only [kept_append, kept_word, List.append_assoc, List.cons_append,
          List.append_cancel_left_eq, List.cons.injEq, Atom.word.injEq] at h
        obtain ⟨hfield, hpush⟩ := h
        obtain ⟨hname, hkind, hindex, -, htail⟩ := decode_push (hloop.trans hloop'.symm) hpush
        exact ⟨rfl, hname, hkind, hindex, congrArg Ident.mk hfield, List.append_cancel_left htail⟩
  obtain ⟨field, name, kind, loop, noIndex⟩ := s
  obtain ⟨field', name', kind', loop', noIndex'⟩ := t
  dsimp only at hall
  obtain ⟨rfl, rfl, rfl, rfl, rfl, htail⟩ := hall
  exact ⟨rfl, htail⟩

/-! ## Implementations -/

/-- Resets end where the loop over the properties begins: no reset begins with its first word. -/
theorem reset_ne (f : Ident) (z w : List Atom) :
    kept (resetAtoms f) ++ z ≠ kept (opensBody "for prop in props") ++ w := by
  have hclash : headsApart (kept (atomsOf "self.")) (kept (opensBody "for prop in props")) =
      true := by
    rw [atomsOf_eq rfl, opensBody_eq rfl]
    rfl
  simp only [resetAtoms, kept_append, List.append_assoc]
  exact ne_of_headsApart hclash _ _

/-- Arms end at the arm for all other names, which begins with an underscore where each of them has
a literal. -/
theorem arm_ne (a : Arm) (z w : List Atom) :
    kept (armAtoms a) ++ z ≠ kept (atomsOf "_ => \x7b\x7d") ++ w := by
  intro h
  cases h

/-- Savings end at the result. Both ways a saving can begin have to be compared with it. -/
theorem saving_ne (s : Saving) (z w : List Atom) :
    kept (savingAtoms s) ++ z ≠ kept (atomsOf "::std::result::Result::Ok(props)") ++ w := by
  have hfor : headsApart (kept (atomsOf "for elem in &self."))
      (kept (atomsOf "::std::result::Result::Ok(props)")) = true := headsApart_fixed rfl rfl rfl
  have hpush : headsApart (kept (atomsOf "props.push(::propkit::Property::new("))
      (kept (atomsOf "::std::result::Result::Ok(props)")) = true := headsApart_fixed rfl rfl rfl
  unfold savingAtoms pushAtoms
  split
  · simp only [kept_append, List.append_assoc]
    exact ne_of_headsApart hfor _ _
  · simp only [kept_append, List.append_assoc]
    exact ne_of_headsApart hpush _ _

/-- An implementation is found in its pieces: the name of the type, then three lists. Each list ends
at fixed text that none of its parts begins with, which is what the three lemmas above are for. -/
theorem decodes_implementation : Decodes implementationAtoms := by
  rintro ⟨⟨t⟩, resets, arms, savings⟩ ⟨⟨t'⟩, resets', arms', savings'⟩ x y h
  simp only [implementationAtoms, loadAtoms, saveAtoms, kept_append, kept_word, kept_gap,
    List.append_assoc, List.cons_append, List.append_cancel_left_eq, List.cons.injEq,
    Atom.word.injEq] at h
  obtain ⟨rfl, h⟩ := h
  -- each list ends at the fixed text behind it, which none of its parts begins with
  obtain ⟨rfl, h⟩ := decodes_reset.flatMap (fun f z => reset_ne f z _) (fun f z => reset_ne f z _) h
  simp only [List.append_cancel_left_eq] at h
  obtain ⟨rfl, h⟩ := decodes_arm.flatMap (fun a z => arm_ne a z _) (fun a z => arm_ne a z _) h
  simp only [List.append_cancel_left_eq] at h
  obtain ⟨rfl, h⟩ :=
    decodes_saving.flatMap (fun s z => saving_ne s z _) (fun s z => saving_ne s z _) h
  simp only [List.append_cancel_left_eq] at h
  exact ⟨rfl, h⟩

/-! ## Modules -/

/-- Constants end where the first implementation begins or, without one, where the module ends. -/
theorem constant_ne (c : Constant) (is : List Implementation) (z : List Atom) :
    kept (constantAtoms c) ++ z ≠ kept (is.flatMap implementationAtoms) := by
  have hclash : headsApart (kept (atomsOf "pub const "))
      (kept (atomsOf "impl ::propkit::PropertyLoadSaver")) = true := headsApart_fixed rfl rfl rfl
  cases is with
  | nil =>
    intro h
    cases h
  | cons i is =>
    simp only [constantAtoms, implementationAtoms, List.flatMap_cons, kept_append,
      List.append_assoc]
    exact ne_of_headsApart hclash _ _

theorem implementation_ne (i : Implementation) (z : List Atom) :
    kept (implementationAtoms i) ++ z ≠ [] := by
  intro h
  cases h

end ModuleText

open ModuleText in
/-- **Modules with the same tokens are the same**, if they import from the same path. What the path
is written as then stands in front of both and cancels; constants and implementations follow, found
one by one. -/
theorem Module.eq_of_readTrees_eq {m m' : Module} (h : m.Lexical) (h' : m'.Lexical)
    (hpath : m.importPath = m'.importPath) (heq : readTrees m.text = readTrees m'.text) :
    m = m' := by
  obtain ⟨path, constants, impls⟩ := m
  obtain ⟨path', constants', impls'⟩ := m'
  obtain ⟨ts, hts, hatoms⟩ := readTrees_text h
  obtain ⟨ts', hts', hatoms'⟩ := readTrees_text h'
  have hsame : ts = ts' := by
    rw [hts, hts'] at heq
    exact Option.some.inj heq
  rw [hsame] at hatoms
  have hkept := List.append_cancel_left (hatoms.symm.trans hatoms')
  cases hpath
  simp only [moduleAtoms, kept_append, List.append_cancel_left_eq] at hkept
  -- behind the constants there is an implementation or nothing at all
  obtain ⟨rfl, himpls⟩ := decodes_constant.flatMap (fun c z => constant_ne c impls z)
    (fun c z => constant_ne c impls' z) hkept
  have hend : kept (impls.flatMap implementationAtoms) ++ [] =
      kept (impls'.flatMap implementationAtoms) ++ [] := by
    rw [himpls]
  obtain ⟨rfl, -⟩ := decodes_implementation.flatMap implementation_ne implementation_ne hend
  rfl

end StoreModel
