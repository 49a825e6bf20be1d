import StoreModel.Entity.Registration
import StoreModel.Output.Outcome
import StoreModel.Proofs.Stages
import StoreModel.Proofs.Storability

/-!
# Faults on one line

A run over a model with a fault prints nothing but the fault, and an author reads it as one line.
Whether it is one line depends on where the texts in it come from. Keys, tags and stored names are
quoted, and quoting leaves no line break in any text, since line breaks are among the hidden
characters that it writes by number. Names of types and fields and the texts of types stand in the
message as they are.

So the message is one line exactly if those texts are (`SchemaError.oneLine_message_iff`), and they
all come from the registered entities. They need not be, even if an entity comes from a declaration:
the text of a type keeps the literals in it, and a literal may go on in a new line.
-/

set_option autoImplicit false

namespace StoreModel

open StoreModel.Text

/-! ## Lines -/

namespace Text

/-- The characters at which a text goes on in a new line. -/
def lineBreaks : List Char := ['\n', '\x0b', '\x0c', '\r', '\u0085', '\u2028', '\u2029']

/-- No line break is among the characters. -/
def Unbroken (l : List Char) : Prop := ∀ c ∈ l, c ∉ lineBreaks

instance : DecidablePred Unbroken := fun l =>
  decidable_of_iff (l.all fun c => !lineBreaks.contains c) (by simp [Unbroken])

/-- The text stays on one line wherever it is shown. -/
def OneLine (s : String) : Prop := Unbroken s.toList

instance : DecidablePred OneLine := fun s => inferInstanceAs (Decidable (Unbroken s.toList))

variable {c : Char}

@[simp]
theorem unbroken_append {l m : List Char} : Unbroken (l ++ m) ↔ Unbroken l ∧ Unbroken m := by
  simp [Unbroken, or_imp, forall_and]

@[simp]
theorem oneLine_append {s t : String} : OneLine (s ++ t) ↔ OneLine s ∧ OneLine t := by
  simp [OneLine]

/-- Every line break is a hidden character, which quoting writes by letter or number. Whether a
character is hidden is looked up in tables, so the seven are checked by computation. -/
theorem isHidden_of_mem_lineBreaks (h : c ∈ lineBreaks) : isHidden c = true := by
  have hall : lineBreaks.all isHidden = true := by decide +kernel
  exact List.all_eq_true.mp hall c h

/-- Digits are no line breaks. The induction takes the last digit off, as digits are only known from
the number they come from. -/
theorem unbroken_toDigits (n : Nat) : Unbroken (Nat.toDigits 16 n) := by
  have hdigit : ∀ d < 16, Unbroken [Nat.digitChar d] := by decide
  induction n using Nat.strongRecOn with
  | ind n ih =>
    by_cases hn : n < 16
    · rw [Nat.toDigits_of_lt_base hn]
      exact hdigit n hn
    · rw [Nat.toDigits_of_base_le (by decide) (by omega), unbroken_append]
      exact ⟨ih (n / 16) (by omega), hdigit (n % 16) (by omega)⟩

theorem unbroken_numbered (c : Char) : Unbroken (numbered c) := by
  have hsplit : numbered c = ['\\', 'u', '{'] ++ (Nat.toDigits 16 c.toNat ++ ['}']) := rfl
  rw [hsplit, unbroken_append, unbroken_append]
  exact ⟨by decide, unbroken_toDigits c.toNat, by decide⟩

/-- Each way to write a character in quotes has no line break in it. Most are fixed texts; a
character that stands for itself is not hidden, and so it is no line break. -/
theorem unbroken_escapeChar (c : Char) : Unbroken (escapeChar c) := by
  unfold escapeChar
  split_ifs with _ _ _ _ _ hhidden
  any_goals decide
  · exact unbroken_numbered c
  · intro d hd hbreak
    rw [List.mem_singleton.mp hd] at hbreak
    exact hhidden (isHidden_of_mem_lineBreaks hbreak)

/-- Quoting leaves no line break in any text. A null before a digit is written in a way of its own,
which is the second case of the step. -/
theorem unbroken_escapeMessage (l : List Char) : Unbroken (escapeMessage l) := by
  induction l with
  | nil => decide
  | cons c l ih =>
    rw [escapeMessage, unbroken_append]
    refine ⟨?_, ih⟩
    split_ifs
    · decide
    · exact unbroken_escapeChar c

@[simp]
theorem oneLine_quoteMessage (s : String) : OneLine (quoteMessage s) := by
  have hsplit : (quoteMessage s).toList = ['"'] ++ (escapeMessage s.toList ++ ['"']) := by
    simp [quoteMessage]
  rw [OneLine, hsplit, unbroken_append, unbroken_append]
  exact ⟨by decide, unbroken_escapeMessage s.toList, by decide⟩

end Text

/-! ## The texts of a fault -/

namespace SchemaError

/-- The texts that a message shows as they are. -/
def plain : SchemaError → List String
  | missingTag t f => [t, f]
  | invalidTag t f _ => [t, f]
  | emptyName t f _ => [t, f]
  | duplicateName _ t f p => [t, f, t, p]
  | unsupportedType t f ty => [ty, t, f]
  | unsupportedElement t f ty => [ty, t, f]
  | duplicateKey _ a b => [a, b]
  | constantCollision c t f => [c, t, f]

/-- The words of the messages are on one line. They are listed here once, so that a message is split
into words and texts without looking at its characters. -/
theorem oneLine_wording : ∀ t ∈ ["missing datastore struct tag for ", ".",
    "invalid struct tag for ", ": ", "empty datastore field name for ", "datastore field name ",
    " for ", " already used for ", "unsupported type ", " specified for ",
    "unsupported slice type ", "kind ", " registered for both ", " and ", "generated constant ",
    " collides with an earlier constant"], OneLine t := by decide +kernel

/-- A message is one line exactly if the texts are that it shows as they are. Everything else in it
is wording or quoted, for each of the errors. -/
theorem oneLine_message_iff (e : SchemaError) : OneLine e.message ↔ ∀ t ∈ e.plain, OneLine t := by
  cases e <;> unfold message <;> simp [plain, oneLine_wording, and_assoc]

end SchemaError

/-- The texts of an entity that a message may show as they are. -/
def Entity.shown (e : Entity) : List String :=
  e.typeName :: e.exportedFields.flatMap fun f => [f.name, f.shape.text]

namespace Entity

variable {e : Entity} {f : Field}

theorem typeName_mem_shown : e.typeName ∈ e.shown := List.mem_cons_self

theorem name_mem_shown (h : f ∈ e.exportedFields) : f.name ∈ e.shown :=
  List.mem_cons_of_mem _ (List.mem_flatMap.mpr ⟨f, h, by simp⟩)

theorem shape_mem_shown (h : f ∈ e.exportedFields) : f.shape.text ∈ e.shown :=
  List.mem_cons_of_mem _ (List.mem_flatMap.mpr ⟨f, h, by simp⟩)

end Entity

/-- What a fault of one entity shows as it is comes from that entity: from its name, the field at
fault, an earlier field of the same stored name, or the type of the field. -/
theorem Schema.plain_of_derive {key : String} {e : Entity} {err : SchemaError}
    (h : derive key e = .error err) : ∀ t ∈ err.plain, t ∈ e.shown := by
  obtain ⟨before, f, after, hsplit, -, hfault⟩ := Schema.derive_error_iff.mp h
  have hf : f ∈ e.exportedFields := by simp [hsplit]
  have hname := Entity.name_mem_shown hf
  have hshape := Entity.shape_mem_shown hf
  have htype : e.typeName ∈ e.shown := Entity.typeName_mem_shown
  cases hfault with
  | duplicateName ha hg =>
    have hprevious := Entity.name_mem_shown (hsplit ▸ List.mem_append_left (f :: after) hg)
    simp [SchemaError.plain, htype, hname, hprevious]
  | unsupportedType => simp [SchemaError.plain, htype, hname, hshape]
  | unsupportedElement => simp [SchemaError.plain, htype, hname, hshape]
  | missingTag => simp [SchemaError.plain, htype, hname]
  | invalidTag => simp [SchemaError.plain, htype, hname]
  | emptyName => simp [SchemaError.plain, htype, hname]

/-! ## Runs over a registry with a fault -/

namespace Registry

variable {r : Registry} {f : SchemaError}

/-- A registry without schemas has a clash of two entities or an entity without a schema, and a
clash is found first. -/
theorem schemas_eq_error_iff :
    r.schemas = .error f ↔ r.sortedEntries = .error f ∨
      ∃ es ss, r.sortedEntries = .ok es ∧ deriveEach es = { schemas := ss, fault := some f } := by
  unfold schemas
  rw [bind_eq_error_iff]
  refine or_congr_right (exists_congr fun es => ?_)
  cases hd : deriveEach es with
  | mk ss fault => cases fault <;> simp

/-- So what any fault shows comes from registered entities: two type names for a clash, and
otherwise the texts of the entity at fault. -/
theorem plain_of_schemas (h : r.schemas = .error f) :
    ∀ t ∈ f.plain, ∃ x ∈ r.entries, t ∈ x.2.shown := by
  intro t ht
  rcases schemas_eq_error_iff.mp h with hclash | ⟨es, ss, hes, hfault⟩
  · obtain ⟨k, a, b, rfl, hreported⟩ := sortedEntries_error_iff.mp hclash
    obtain ⟨x, hx, rfl⟩ := hreported.firstClash.first.1
    obtain ⟨-, y, -, hy, -, -, rfl⟩ := hreported.firstClash.second.1
    rcases List.mem_pair.mp ht with rfl | rfl
    · exact ⟨_, hx, Entity.typeName_mem_shown⟩
    · exact ⟨_, hy, Entity.typeName_mem_shown⟩
  · obtain ⟨before, x, after, rfl, -, hx⟩ := deriveEach_eq_fault_iff.mp hfault
    exact ⟨x, ((sortedEntries_ok_iff.mp hes).2 x).mp (by simp), Schema.plain_of_derive hx t ht⟩

theorem result_of_schemas (h : r.schemas = .error f) (path : String) :
    (r.generate path).result = .error (.model f) := by
  unfold generate
  rcases schemas_eq_error_iff.mp h with hclash | ⟨es, ss, hes, hfault⟩
  · rw [hclash]
  · simp only [hes, hfault]

/-- **What a run over a model with a fault leaves behind.** It prints nothing and fails, and what
it says of the error is the message of the fault and a line end. The message is one line exactly if
the texts are that it shows as they are, which are names of types and fields and texts of types of
registered entities; so it is if none of those has a line break. -/
theorem printModule_of_fault (h : r.schemas = .error f) (path : String) :
    r.printModule path =
        { exitCode := 1, output := "", errors := "ERROR: " ++ f.message ++ "\n" } ∧
      (OneLine f.message ↔ ∀ t ∈ f.plain, OneLine t) ∧
      (∀ t ∈ f.plain, ∃ x ∈ r.entries, t ∈ x.2.shown) ∧
      ((∀ x ∈ r.entries, ∀ t ∈ x.2.shown, OneLine t) → OneLine f.message) := by
  have hplain := plain_of_schemas h
  refine ⟨?_, f.oneLine_message_iff, hplain, ?_⟩
  · rw [printModule, result_of_schemas h path]
    rfl
  · intro hall
    refine f.oneLine_message_iff.mpr fun t ht => ?_
    obtain ⟨x, hx, hshown⟩ := hplain t ht
    exact hall x hx t hshown

end Registry

namespace Sample

/-- A line break in a key is written by a letter. -/
theorem printModule_of_fault_clash :
    let r := (Registry.insert {} "Po\nst" comment).insert "Po\nst" rating
    let f := SchemaError.duplicateKey "Po\nst" "Comment" "Rating"
    r.schemas = .error f ∧ (r.printModule "").output = "" ∧
      (r.printModule "").errors =
        "ERROR: kind \"Po\\nst\" registered for both Comment and Rating\n" ∧ OneLine f.message := by
  intro r f
  have hfault : r.schemas = .error f := by
    have hsort : [("Po\nst", comment), ("Po\nst", rating)].mergeSort Registry.entryLE =
        [("Po\nst", comment), ("Po\nst", rating)] := List.mergeSort_of_pairwise (by decide)
    refine Registry.schemas_eq_error_iff.mpr (Or.inl ?_)
    unfold Registry.sortedEntries
    exact (congrArg Registry.collapse hsort).trans rfl
  obtain ⟨hrun, hline, -, -⟩ := Registry.printModule_of_fault hfault ""
  rw [hrun]
  refine ⟨hfault, rfl, by decide +kernel, hline.mpr (by decide)⟩

/-- The length of an array is that of a text which goes on in a new line. -/
def paddedText : String :=
  "struct Padded \x7b #[datastore(\"pad\")] pub pad: [u8; \"a\nb\".len()] \x7d"

def paddedType : String := "[u8 ; \"a\nb\" . len ()]"

def padded : Entity :=
  { typeName := "Padded", fields := [stored "pad" "pad" (.unsupported paddedType)] }

/-- The text of a type is shown with the line break in it. -/
theorem message_on_two_lines :
    Declaration.read paddedText = .ok ⟨"Padded", padded⟩ ∧
      ∃ f, (Registry.insert {} "Padded" padded).schemas = .error f ∧
        ((Registry.insert {} "Padded" padded).printModule "super").errors =
          "ERROR: unsupported type [u8 ; \"a\nb\" . len ()] specified for Padded.pad\n" ∧
        ¬ OneLine f.message := by
  have hread : Declaration.read paddedText = .ok ⟨"Padded", padded⟩ := by decide +kernel
  have hfault : (Registry.insert {} "Padded" padded).schemas =
      .error (.unsupportedType "Padded" "pad" paddedType) := by
    have hsorted : (Registry.insert {} "Padded" padded).sortedEntries =
        .ok [("Padded", padded)] := by
      simp [Registry.sortedEntries, Registry.insert, Registry.collapse]
    exact Registry.schemas_eq_error_iff.mpr (Or.inr ⟨_, [], hsorted, rfl⟩)
  refine ⟨hread, _, hfault, ?_, by decide +kernel⟩
  rw [Registry.printModule, Registry.result_of_schemas hfault]
  rfl

end Sample

end StoreModel
