import StoreModel.Entity.Registration
import StoreModel.Proofs.Results
import StoreModel.Proofs.Tags

/-!
# The arguments that give a key

The attribute of an item has arguments with commas between them, and the only one it may have is a
key. They are read token by token, and the first token that does not fit decides the fault. Here the
arguments are described by the tokens that they are written with: those that are accepted
(`KeyList`), and for each fault the tokens that lead to it (`ListFault`), from the path of an
argument through its value to what stands between two arguments.

A second key is never accepted, so reading ends in the second argument at the latest. That is why
the bound on the number of arguments is never reached, and why one rule is enough for all that comes
after the first comma.
-/

set_option autoImplicit false

namespace StoreModel.Declaration

open StoreModel.Source StoreModel.Text

variable {ts us rest : List Tree} {ws : List String} {e : DeclarationError}

/-! ## Readers -/

theorem readFrom_eq_ok_iff {α : Type} {read : Reader α} {a : α} :
    readFrom read ts = .ok (a, rest) ↔ ∃ stray, read ⟨ts, none⟩ = .ok (a, ⟨rest, stray⟩) := by
  unfold readFrom
  cases read ⟨ts, none⟩ with
  | error f => simp
  | ok p =>
    obtain ⟨b, trees, stray⟩ := p
    simp

/-- The reader of an operator looks at the tokens and nothing else: it takes as many of them as the
operator has characters, or says what it expected. -/
theorem readOp_eq (o : String) (s : Rest) : readOp o s =
    if opAhead o s.trees then .ok (Tree.operator o, { s with trees := s.trees.drop o.length })
    else .error ⟨false, .expected [token o]⟩ := by
  show (if opAhead o s.trees then _ else _ : Reader (List Tree)) s = _
  split <;> rfl

/-- An operator of one character stands at the front if its character does, joined to the next one
or not. Longer operators ask for joined characters, so they do not follow this rule. -/
theorem opAhead_char_iff {o : String} {c : Char} (ho : o.toList = [c]) :
    opAhead o ts = true ↔ ∃ joint us, ts = .punct c joint :: us := by
  unfold opAhead
  rw [ho]
  rcases ts with - | ⟨t, us⟩
  · simp [joinedAhead]
  · cases t with
    | punct d joint => simp [joinedAhead, @eq_comm _ d]
    | word | literal | group => simp [joinedAhead]

theorem readFrom_readOp_ok_iff {o : String} {c : Char} (ho : o.toList = [c]) :
    readFrom (readOp o) ts = .ok (us, rest) ↔
      us = Tree.operator o ∧ ∃ joint, ts = .punct c joint :: rest := by
  have hlength : o.length = 1 := by rw [← String.length_toList, ho, List.length_singleton]
  rw [readFrom_eq_ok_iff, readOp_eq, hlength]
  by_cases hahead : opAhead o ts = true
  · rw [if_pos hahead]
    obtain ⟨joint, vs, rfl⟩ := (opAhead_char_iff ho).mp hahead
    simp [@eq_comm _ us]
  · rw [if_neg hahead]
    have hno : ∀ joint, ts ≠ .punct c joint :: rest := fun joint hts =>
      hahead ((opAhead_char_iff ho).mpr ⟨joint, rest, hts⟩)
    simp [hno]

/-- A string literal at the front is given, and anything else there is a fault. The fault says
whether the tokens had ended, since it is then shown in another way. -/
theorem readStringLiteral_eq (s : Rest) :
    (∃ text str us, s.trees = .literal text (.string str) :: us ∧
      readStringLiteral s = .ok (str, { s with trees := us })) ∨
    stringAhead s.trees = false ∧
      readStringLiteral s = .error ⟨s.trees.isEmpty, .expected ["string literal"]⟩ := by
  obtain ⟨ts, stray⟩ := s
  rcases ts with - | ⟨t, us⟩
  · exact Or.inr ⟨rfl, rfl⟩
  · cases t with
    | literal text kind =>
      cases kind with
      | string str => exact Or.inl ⟨text, str, us, rfl, rfl⟩
      | number | other => exact Or.inr ⟨rfl, rfl⟩
    | word | punct | group => exact Or.inr ⟨rfl, rfl⟩

theorem readFrom_readStringLiteral_ok_iff {s : String} :
    readFrom readStringLiteral ts = .ok (s, rest) ↔
      ∃ text, ts = .literal text (.string s) :: rest := by
  rw [readFrom_eq_ok_iff]
  rcases readStringLiteral_eq ⟨ts, none⟩ with ⟨text, str, us, rfl, h⟩ | ⟨hno, h⟩
  · rw [h]
    simp [and_comm]
  · rw [h]
    constructor
    · rintro ⟨stray, hstray⟩
      cases hstray
    · rintro ⟨text, rfl⟩
      cases hno

/-- Further names of a path, each behind the separator, and the tokens behind the last one. -/
inductive MoreNames : List Tree → List String → List Tree → Prop where
  | done {ts : List Tree} (stop : opAhead "::" ts = false) : MoreNames ts [] ts
  | more {joint : Bool} {w : String} {ts rest : List Tree} {ws : List String}
    (later : MoreNames ts ws rest) :
    MoreNames (.punct ':' true :: .punct ':' joint :: .word w :: ts) (w :: ws) rest

/-- Further names of a path, with a separator behind them and no name behind that. -/
inductive NameMissing : List Tree → Fault → Prop where
  | here {joint : Bool} {ts : List Tree} (none : anyWordAhead ts = false) :
    NameMissing (.punct ':' true :: .punct ':' joint :: ts) ⟨ts.isEmpty, .expected ["ident"]⟩
  | later {joint : Bool} {w : String} {ts : List Tree} {f : Fault} (h : NameMissing ts f) :
    NameMissing (.punct ':' true :: .punct ':' joint :: .word w :: ts) f

theorem opAhead_separator_iff :
    opAhead "::" ts = true ↔ ∃ joint us, ts = .punct ':' true :: .punct ':' joint :: us := by
  constructor
  · intro h
    have hjoined : joinedAhead [':', ':'] ts = true := h
    rcases ts with - | ⟨t, us⟩
    · cases hjoined
    · cases t with
      | punct c joint =>
        simp only [joinedAhead, Bool.and_eq_true, beq_iff_eq] at hjoined
        obtain ⟨⟨rfl, rfl⟩, hcolon⟩ := hjoined
        obtain ⟨joint', vs, rfl⟩ := (opAhead_char_iff (o := ":") rfl).mp hcolon
        exact ⟨joint', vs, rfl⟩
      | word | literal | group => cases hjoined
  · rintro ⟨joint, us, rfl⟩
    rfl

theorem anyWordAhead_iff : anyWordAhead ts = true ↔ ∃ w us, ts = .word w :: us := by
  rcases ts with - | ⟨t, us⟩
  · simp [anyWordAhead]
  · cases t with
    | word | punct | literal | group => simp [anyWordAhead]

/-- A further name with the separator in front of it. -/
def readNext : Reader String := readOp "::" >>= fun _ => readAnyWord

theorem readManyUpTo_next (n : Nat) (joint : Bool) (w : String) (ts : List Tree)
    (stray : Option Delimiter) :
    readManyUpTo (opAhead "::") readNext (n + 1)
        ⟨.punct ':' true :: .punct ':' joint :: .word w :: ts, stray⟩ =
      (readManyUpTo (opAhead "::") readNext n >>= fun ws => pure (w :: ws) : Reader (List String))
        ⟨ts, stray⟩ := rfl

/-- The further names that are read, if the bound suffices. The reader asks for a separator before
each name and stops without one, so the induction is on the names and not on the bound. -/
theorem MoreNames.readMany {n : Nat} (h : MoreNames ts ws rest) (hn : ts.length < n)
    (stray : Option Delimiter) :
    readManyUpTo (opAhead "::") readNext n ⟨ts, stray⟩ =
      .ok (ws, ⟨rest, stray⟩) := by
  induction h generalizing n with
  | @done ts stop =>
    cases n with
    | zero => cases hn
    | succ n =>
      show (if opAhead "::" ts = true then _ else pure [] : Reader (List String)) _ = _
      rw [stop]
      rfl
  | @more joint w ts rest ws later ih =>
    cases n with
    | zero => cases hn
    | succ n =>
      have hread := ih (n := n) (by simp at hn; omega)
      rw [readManyUpTo_next]
      exact bind_eq_ok_iff.mpr ⟨_, hread, rfl⟩

/-- A separator with no name behind it is a fault, after whatever names. It is not the end of the
path: the reader has taken the separator when it looks for the name. -/
theorem NameMissing.readMany {n : Nat} {f : Fault} (h : NameMissing ts f) (hn : ts.length < n)
    (stray : Option Delimiter) :
    readManyUpTo (opAhead "::") readNext n ⟨ts, stray⟩ =
      .error f := by
  induction h generalizing n with
  | @here joint ts none =>
    cases n with
    | zero => cases hn
    | succ n =>
      rcases ts with - | ⟨t, us⟩
      · rfl
      · cases t with
        | word => cases none
        | punct | literal | group => rfl
  | @later joint w ts f h ih =>
    cases n with
    | zero => cases hn
    | succ n =>
      have hread := ih (n := n) (by simp at hn; omega)
      rw [readManyUpTo_next]
      exact bind_eq_error_iff.mpr (Or.inl hread)

/-- Any tokens are one or the other, further names to the last one or a separator without a name.
This turns the two lemmas on what is read into equivalences. -/
theorem moreNames_or_nameMissing (ts : List Tree) :
    (∃ ws rest, MoreNames ts ws rest) ∨ ∃ f, NameMissing ts f := by
  induction hlength : ts.length using Nat.strong_induction_on generalizing ts with
  | _ n ih =>
    cases hahead : opAhead "::" ts with
    | false => exact Or.inl ⟨_, _, .done hahead⟩
    | true =>
      obtain ⟨joint, us, rfl⟩ := opAhead_separator_iff.mp hahead
      cases hword : anyWordAhead us with
      | false => exact Or.inr ⟨_, .here hword⟩
      | true =>
        obtain ⟨w, vs, rfl⟩ := anyWordAhead_iff.mp hword
        rcases ih vs.length (by simp at hlength; omega) vs rfl with ⟨ws, rest, h⟩ | ⟨f, h⟩
        · exact Or.inl ⟨_, _, .more h⟩
        · exact Or.inr ⟨_, .later h⟩

theorem readFrom_readMoreNames_ok_iff :
    readFrom readMoreNames ts = .ok (ws, rest) ↔ MoreNames ts ws rest := by
  rw [readFrom_eq_ok_iff]
  constructor
  · rintro ⟨stray, h⟩
    rcases moreNames_or_nameMissing ts with ⟨ws', rest', hnames⟩ | ⟨f, hmissing⟩
    · cases (hnames.readMany (Nat.lt_succ_self _) none).symm.trans h
      exact hnames
    · cases (hmissing.readMany (Nat.lt_succ_self _) none).symm.trans h
  · intro hnames
    exact ⟨none, hnames.readMany (Nat.lt_succ_self _) none⟩

/-- What begins a path, or the tokens where its first name should be. -/
inductive Leads : List Tree → Bool → List Tree → Prop where
  | name {ts : List Tree} (no : opAhead "::" ts = false) : Leads ts false ts
  | separator {joint : Bool} {ts : List Tree} :
    Leads (.punct ':' true :: .punct ':' joint :: ts) true ts

/-- The names of a path are cut off where one of them should be. -/
inductive NameFault : List Tree → DeclarationError → Prop where
  | ended : NameFault [] (.malformed ⟨true, .expected ["nested attribute"]⟩)
  | literal {ts : List Tree} (ne : ts ≠ []) (noWord : anyWordAhead ts = false)
    (literal : literalAhead ts = true) : NameFault ts .literalArgument
  | stray {ts : List Tree} (ne : ts ≠ []) (noWord : anyWordAhead ts = false)
    (noLiteral : literalAhead ts = false) : NameFault ts .strayArgument
  | later {w : String} {ts : List Tree} {f : Fault} (h : NameMissing ts f) :
    NameFault (.word w :: ts) (.malformed f)

/-- The path of an argument, and the tokens behind it. -/
def ArgumentPath (ts : List Tree) (path : Bool × List String) (rest : List Tree) : Prop :=
  ∃ w us ws, Leads ts path.1 (.word w :: us) ∧ MoreNames us ws rest ∧ path.2 = w :: ws

def PathFault (ts : List Tree) (e : DeclarationError) : Prop :=
  ∃ leading us, Leads ts leading us ∧ NameFault us e

theorem exists_leads (ts : List Tree) : ∃ leading us, Leads ts leading us := by
  cases hahead : opAhead "::" ts with
  | false => exact ⟨_, _, .name hahead⟩
  | true =>
    obtain ⟨joint, us, rfl⟩ := opAhead_separator_iff.mp hahead
    exact ⟨_, _, .separator⟩

/-- The path of an argument from its first name on. -/
def readNames (leading : Bool) :
    List Tree → Except DeclarationError ((Bool × List String) × List Tree)
  | .word w :: r => readFrom readMoreNames r >>= fun (ws, r) => .ok ((leading, w :: ws), r)
  | [] => .error (.malformed ⟨true, .expected ["nested attribute"]⟩)
  | ts => .error (if literalAhead ts then .literalArgument else .strayArgument)

/-- What begins a path is taken off, and the rest is read from the first name on. -/
theorem readArgumentPath_eq {leading : Bool} (h : Leads ts leading us) :
    readArgumentPath ts = readNames leading us := by
  cases h with
  | name no =>
    unfold readArgumentPath
    rw [no]
    rfl
  | separator => rfl

theorem readNames_of_noWord {leading : Bool} (ne : us ≠ []) (noWord : anyWordAhead us = false) :
    readNames leading us =
      .error (if literalAhead us then .literalArgument else .strayArgument) := by
  rcases us with - | ⟨t, us⟩
  · exact absurd rfl ne
  · cases t with
    | word => cases noWord
    | punct | literal | group => rfl

/-- A path is read exactly where one stands: perhaps a separator, a name, and further names to the
last one. Keywords count as names here. -/
theorem readArgumentPath_ok_iff {path : Bool × List String} :
    readArgumentPath ts = .ok (path, rest) ↔ ArgumentPath ts path rest := by
  constructor
  · intro h
    obtain ⟨leading, us, hleads⟩ := exists_leads ts
    rw [readArgumentPath_eq hleads] at h
    cases hword : anyWordAhead us with
    | true =>
      obtain ⟨w, us, rfl⟩ := anyWordAhead_iff.mp hword
      obtain ⟨⟨ws, r⟩, hmore, h⟩ := bind_eq_ok_iff.mp h
      cases h
      exact ⟨w, us, ws, hleads, readFrom_readMoreNames_ok_iff.mp hmore, rfl⟩
    | false =>
      by_cases hne : us = []
      · subst hne
        cases h
      · rw [readNames_of_noWord hne hword] at h
        cases h
  · obtain ⟨leading, names⟩ := path
    rintro ⟨w, us, ws, hleads, hmore, rfl⟩
    rw [readArgumentPath_eq hleads]
    exact bind_eq_ok_iff.mpr ⟨(ws, rest), readFrom_readMoreNames_ok_iff.mpr hmore, rfl⟩

/-- The value of a key with its equals sign, and the tokens behind it. -/
def ValueAhead (ts : List Tree) (s : String) (rest : List Tree) : Prop :=
  ∃ joint text, ts = .punct '=' joint :: .literal text (.string s) :: rest

/-- The tokens behind the path of a key do not begin with a value for it. -/
inductive ValueFault : List Tree → DeclarationError → Prop where
  | equals {ts : List Tree} (no : opAhead "=" ts = false) :
    ValueFault ts (.malformed ⟨false, .expected [token "="]⟩)
  | literal {joint : Bool} {ts : List Tree} (no : stringAhead ts = false) :
    ValueFault (.punct '=' joint :: ts) (.malformed ⟨ts.isEmpty, .expected ["string literal"]⟩)
  | blank {ts rest : List Tree} {s : String} (value : ValueAhead ts s rest)
    (blank : AllBlank s.toList) : ValueFault ts .blankKey

/-- The path of the only argument that there may be. -/
def keyPath : Bool × List String := (false, ["kind"])

/-- The tokens begin with an argument that is at fault, when it is known whether a key was given
before. -/
inductive ArgumentFault : Bool → List Tree → DeclarationError → Prop where
  | path {given : Bool} {ts : List Tree} {e : DeclarationError} (h : PathFault ts e) :
    ArgumentFault given ts e
  | unknown {given : Bool} {ts rest : List Tree} {path : Bool × List String}
    (h : ArgumentPath ts path rest) (ne : path ≠ keyPath) : ArgumentFault given ts .unknownArgument
  | twice {ts rest : List Tree} (h : ArgumentPath ts keyPath rest) :
    ArgumentFault true ts .keyTwice
  | value {ts rest : List Tree} {e : DeclarationError} (h : ArgumentPath ts keyPath rest)
    (value : ValueFault rest e) : ArgumentFault false ts e

/-- A key as it is given, and the tokens behind it. -/
def KeyAhead (ts : List Tree) (s : String) (rest : List Tree) : Prop :=
  ∃ us, ts = .word "kind" :: us ∧ ValueAhead us s rest

/-- The path of a key is its one word and nothing else. What follows must not be a separator, or the
path would have gone on. -/
theorem argumentPath_keyPath_iff :
    ArgumentPath ts keyPath rest ↔ ts = .word "kind" :: rest ∧ opAhead "::" rest = false := by
  constructor
  · rintro ⟨w, us, ws, hleads, hmore, hnames⟩
    cases hnames
    cases hmore with
    | done stop =>
      cases hleads
      exact ⟨rfl, stop⟩
  · rintro ⟨rfl, stop⟩
    exact ⟨"kind", rest, [], .name rfl, .done stop, rfl⟩

theorem isEmpty_trimChars_iff {s : String} :
    (trimChars s.toList).isEmpty = true ↔ AllBlank s.toList := by
  rw [List.isEmpty_iff, trimChars_eq_nil_iff]

/-- The value of the first key. -/
def readValue (ts : List Tree) : Except DeclarationError (String × List Tree) :=
  readFrom (readOp "=") ts >>= fun p => readFrom readStringLiteral p.2 >>= fun q =>
    if (trimChars q.1.toList).isEmpty then .error .blankKey else .ok q

/-- The value of a key is read exactly from an equals sign with a string literal behind it, unless
the text is blank. -/
theorem readValue_ok_iff {s : String} :
    readValue ts = .ok (s, rest) ↔ ValueAhead ts s rest ∧ ¬ AllBlank s.toList := by
  unfold readValue
  constructor
  · intro h
    obtain ⟨⟨eq, us⟩, heq, hrest⟩ := bind_eq_ok_iff.mp h
    obtain ⟨⟨str, vs⟩, hstr, hcheck⟩ := bind_eq_ok_iff.mp hrest
    obtain ⟨-, joint, rfl⟩ := (readFrom_readOp_ok_iff (c := '=') rfl).mp heq
    obtain ⟨text, hus⟩ := readFrom_readStringLiteral_ok_iff.mp hstr
    by_cases hblank : (trimChars str.toList).isEmpty = true
    · cases (if_pos hblank).symm.trans hcheck
    · cases (if_neg hblank).symm.trans hcheck
      exact ⟨⟨joint, text, congrArg _ hus⟩, fun hall => hblank (isEmpty_trimChars_iff.mpr hall)⟩
  · rintro ⟨⟨joint, text, rfl⟩, hblank⟩
    refine bind_eq_ok_iff.mpr
      ⟨_, (readFrom_readOp_ok_iff (c := '=') rfl).mpr ⟨rfl, joint, rfl⟩, ?_⟩
    refine bind_eq_ok_iff.mpr ⟨_, readFrom_readStringLiteral_ok_iff.mpr ⟨text, rfl⟩, ?_⟩
    exact if_neg fun hempty => hblank (isEmpty_trimChars_iff.mp hempty)

theorem readArgument_eq (key : Option String) (ts : List Tree) :
    readArgument key ts = readArgumentPath ts >>= fun p =>
      if p.1 = keyPath then if key.isSome then .error .keyTwice else readValue p.2
      else .error .unknownArgument := rfl

section Argument

variable {key : Option String} {s : String}

/-- An argument is accepted if it is a key with a text that is not blank, and only as the first one.
-/
theorem readArgument_ok_iff : readArgument key ts = .ok (s, rest) ↔
    key = none ∧ KeyAhead ts s rest ∧ ¬ AllBlank s.toList := by
  rw [readArgument_eq, bind_eq_ok_iff]
  constructor
  · rintro ⟨⟨path, us⟩, hpath, h⟩
    rw [readArgumentPath_ok_iff] at hpath
    by_cases hkey : path = keyPath
    · subst hkey
      obtain ⟨rfl, -⟩ := argumentPath_keyPath_iff.mp hpath
      cases key with
      | some k => cases h
      | none =>
        obtain ⟨hvalue, hblank⟩ := readValue_ok_iff.mp h
        exact ⟨rfl, ⟨us, rfl, hvalue⟩, hblank⟩
    · cases (if_neg hkey).symm.trans h
  · rintro ⟨rfl, ⟨us, rfl, hvalue⟩, hblank⟩
    have hstop : opAhead "::" us = false := by
      obtain ⟨joint, text, rfl⟩ := hvalue
      rfl
    refine ⟨(keyPath, us),
      readArgumentPath_ok_iff.mpr (argumentPath_keyPath_iff.mpr ⟨rfl, hstop⟩), ?_⟩
    exact readValue_ok_iff.mpr ⟨hvalue, hblank⟩

end Argument

/-! ## Arguments with commas between them -/

/-- Keys with commas between them, and perhaps a comma at the end. -/
inductive KeyList : List Tree → List String → Prop where
  | nil : KeyList [] []
  | last {ts : List Tree} {s : String} (h : KeyAhead ts s []) : KeyList ts [s]
  | cons {ts us : List Tree} {s : String} {ss : List String} {joint : Bool}
    (h : KeyAhead ts s (.punct ',' joint :: us)) (later : KeyList us ss) : KeyList ts (s :: ss)

/-- What follows the first key is at fault. Whatever it is, it is not a second one. -/
inductive FurtherFault : List Tree → DeclarationError → Prop where
  | comma {ts : List Tree} (ne : ts ≠ []) (no : opAhead "," ts = false) :
    FurtherFault ts (.malformed ⟨false, .expected [token ","]⟩)
  | later {joint : Bool} {ts : List Tree} {e : DeclarationError} (ne : ts ≠ [])
    (h : ArgumentFault true ts e) : FurtherFault (.punct ',' joint :: ts) e

/-- The arguments are at fault, when it is known whether a key was given before. -/
inductive ListFault : Bool → List Tree → DeclarationError → Prop where
  | argument {given : Bool} {ts : List Tree} {e : DeclarationError} (ne : ts ≠ [])
    (h : ArgumentFault given ts e) : ListFault given ts e
  | further {ts rest : List Tree} {s : String} {e : DeclarationError} (h : KeyAhead ts s rest)
    (filled : ¬ AllBlank s.toList) (fault : FurtherFault rest e) : ListFault false ts e

theorem KeyAhead.length_lt {s : String} (h : KeyAhead ts s rest) : rest.length < ts.length := by
  obtain ⟨us, rfl, joint, text, rfl⟩ := h
  simp only [List.length_cons]
  omega

theorem KeyAhead.ne_nil {s : String} (h : KeyAhead ts s rest) : ts ≠ [] :=
  List.ne_nil_of_length_pos (Nat.zero_lt_of_lt h.length_lt)

theorem KeyList.eq_nil_iff {ss : List String} (h : KeyList ts ss) : ss = [] ↔ ts = [] := by
  cases h with
  | nil => simp
  | last h => simp [h.ne_nil]
  | cons h later => simp [h.ne_nil]

section Arguments

variable {n : Nat} {key key' : Option String} {s : String}

/-- The key, and the arguments behind it. -/
def readFurther (n : Nat) (s : String) (ts : List Tree) :
    Except DeclarationError (Option String) :=
  if ts.isEmpty then .ok (some s)
  else readFrom (readOp ",") ts >>= fun p =>
    if p.2.isEmpty then .ok (some s) else readArguments n (some s) p.2

theorem readArguments_succ (n : Nat) (key : Option String) (ts : List Tree) :
    readArguments (n + 1) key ts = readArgument key ts >>= fun p => readFurther n p.1 p.2 := rfl

/-- Behind a key that was given no argument is accepted. Reading ends there, with a key or with a
fault, so no induction on the arguments is needed. -/
theorem readArguments_some_ne_ok : readArguments (n + 1) (some s) ts ≠ .ok key' := by
  intro h
  obtain ⟨⟨k, us⟩, hfirst, -⟩ := bind_eq_ok_iff.mp h
  cases (readArgument_ok_iff.mp hfirst).1

/-- What follows the first key is accepted if there is nothing, or one comma and nothing. The bound
on the number of arguments need not leave room for more than the tokens that are there. -/
theorem readFurther_ok_iff (hn : ts.length ≤ n) :
    readFurther n s ts = .ok key' ↔
      key' = some s ∧ (ts = [] ∨ ∃ joint, ts = [.punct ',' joint]) := by
  unfold readFurther
  constructor
  · intro h
    by_cases hempty : ts.isEmpty = true
    · cases (if_pos hempty).symm.trans h
      exact ⟨rfl, Or.inl (List.isEmpty_iff.mp hempty)⟩
    · rw [if_neg hempty] at h
      obtain ⟨⟨comma, us⟩, hcomma, hlater⟩ := bind_eq_ok_iff.mp h
      obtain ⟨-, joint, rfl⟩ := (readFrom_readOp_ok_iff (c := ',') rfl).mp hcomma
      by_cases hlast : us.isEmpty = true
      · cases (if_pos hlast).symm.trans hlater
        exact ⟨rfl, Or.inr ⟨joint, congrArg _ (List.isEmpty_iff.mp hlast)⟩⟩
      · rw [if_neg hlast] at hlater
        -- there are tokens for a second argument, and the bound leaves room for it
        cases n with
        | zero => simp at hn
        | succ n => exact absurd hlater readArguments_some_ne_ok
  · rintro ⟨rfl, rfl | ⟨joint, rfl⟩⟩
    · rfl
    · exact bind_eq_ok_iff.mpr
        ⟨_, (readFrom_readOp_ok_iff (c := ',') rfl).mpr ⟨rfl, joint, rfl⟩, rfl⟩

/-- Arguments are accepted if they are one key, with or without a comma behind it, that is not
blank, and no key was given before. -/
theorem readArguments_ok_iff (hne : ts ≠ []) (hn : ts.length ≤ n) :
    readArguments n key ts = .ok key' ↔
      key = none ∧ ∃ s, KeyList ts [s] ∧ ¬ AllBlank s.toList ∧ key' = some s := by
  cases n with
  | zero => exact absurd (List.length_eq_zero_iff.mp (Nat.le_zero.mp hn)) hne
  | succ n =>
    rw [readArguments_succ, bind_eq_ok_iff]
    constructor
    · rintro ⟨⟨s, us⟩, hfirst, hfurther⟩
      obtain ⟨rfl, hkey, hfilled⟩ := readArgument_ok_iff.mp hfirst
      -- a key takes at least one token, so the bound is enough for what is left
      have hus : us.length ≤ n := by have := hkey.length_lt; omega
      obtain ⟨rfl, rfl | ⟨joint, rfl⟩⟩ := (readFurther_ok_iff hus).mp hfurther
      · exact ⟨rfl, s, .last hkey, hfilled, rfl⟩
      · exact ⟨rfl, s, .cons hkey .nil, hfilled, rfl⟩
    · rintro ⟨rfl, s, hlist, hfilled, rfl⟩
      cases hlist with
      | last hkey =>
        exact ⟨_, readArgument_ok_iff.mpr ⟨rfl, hkey, hfilled⟩,
          (readFurther_ok_iff (Nat.zero_le n)).mpr ⟨rfl, Or.inl rfl⟩⟩
      | @cons _ us _ _ joint hkey hlater =>
        obtain rfl := hlater.eq_nil_iff.mp rfl
        have hn' : 1 ≤ n := by have := hkey.length_lt; simp at this; omega
        exact ⟨_, readArgument_ok_iff.mpr ⟨rfl, hkey, hfilled⟩,
          (readFurther_ok_iff hn').mpr ⟨rfl, Or.inr ⟨joint, rfl⟩⟩⟩

end Arguments

end StoreModel.Declaration
