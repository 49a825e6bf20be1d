import StoreModel.Proofs.Collisions
import StoreModel.Proofs.ModuleReading

/-!
# The names in a module are words

What is read as an identifier is a word of the text it is read from, and so are the names of a path
that is imported from. A scanner gives no other words than such that it would take again
(`word_of_readTrees`), and a reader of a path without arguments gives back the words that it passes
over. So all names in a module that has been assembled are words (`Module.lexical_of_assemble`).
-/

set_option autoImplicit false

namespace StoreModel.Source

open StoreModel.Text

/-! ## Words of a text -/

variable {cs rest : List Char} {v : String}

/-- A word among the lexemes that are scanned at one place was scanned as a word. A documentation
comment becomes an attribute with a word in it, but there the word is in a group. -/
theorem word_of_scanLexemes {ls : List Lexeme} (h : scanLexemes cs = some (ls, rest))
    (hv : .leaf (.word v) ∈ ls) : Word v.toList := by
  unfold scanLexemes at h
  rcases hbracket : bracket? cs with - | ⟨l, r⟩
  case some =>
    rw [hbracket] at h
    cases h
    obtain ⟨d, rfl | rfl⟩ := bracket?_ok hbracket
    · simp at hv
    · simp at hv
  · rw [hbracket] at h
    rcases hdoc : docComment cs with - | ⟨inner, content, r⟩
    case some =>
      rw [hdoc] at h
      dsimp only at h
      split at h
      · cases h
        -- an attribute has its word inside of a group
        cases inner with
        | false => simp [docAttribute, Tree.mark] at hv
        | true => simp [docAttribute, Tree.mark] at hv
      · cases h
    · rw [hdoc] at h
      obtain ⟨⟨t, r⟩, hleaf, heq⟩ := Option.map_eq_some_iff.mp h
      cases heq
      rw [List.mem_singleton] at hv
      cases hv
      obtain ⟨w, hw, rfl⟩ := scanLeaf_word hleaf
      rw [String.toList_ofList]
      exact scanAnyWord_ok hw

/-- All words among the lexemes of a text are words that a scanner would take again. The induction
is on the bound of the scanner, which goes down with each lexeme. -/
theorem word_of_lexemes {n : Nat} {ls : List Lexeme} (h : lexemes n cs = some ls)
    (hv : .leaf (.word v) ∈ ls) : Word v.toList := by
  induction n generalizing cs ls with
  | zero => cases h
  | succ n ih =>
    rw [lexemes] at h
    cases hskip : skipGaps (cs.length + 1) cs with
    | nil =>
      rw [hskip] at h
      cases h
      cases hv
    | cons c r =>
      rw [hskip] at h
      dsimp only at h
      rcases hscan : scanLexemes (c :: r) with - | ⟨ls₀, rest⟩
      · rw [hscan] at h
        cases h
      · rw [hscan] at h
        obtain ⟨ls₁, hrest, rfl⟩ := Option.map_eq_some_iff.mp h
        rcases List.mem_append.mp hv with hfirst | hlater
        · exact word_of_scanLexemes hscan hfirst
        · exact ih hrest hlater

/-- A word outside of groups comes from a word that was scanned, also where groups are open. The
statement is about the whole stack, since a group that closes puts the trees below it in front
again. -/
theorem mem_of_nest {ls : List Lexeme} {ts res : List Tree} {outer : List (Delimiter × List Tree)}
    (h : nest ls ts outer = some res) (hv : .word v ∈ res) :
    .leaf (.word v) ∈ ls ∨ .word v ∈ ts ∨ ∃ o ∈ outer, .word v ∈ o.2 := by
  fun_induction nest ls ts outer with
  | case1 ts =>
    cases h
    exact Or.inr (Or.inl (List.mem_reverse.mp hv))
  | case2 => cases h
  | case3 t ls ts outer ih =>
    rcases ih h with hls | hts | houter
    · exact Or.inl (List.mem_cons_of_mem _ hls)
    · rcases List.mem_cons.mp hts with rfl | hts
      · exact Or.inl List.mem_cons_self
      · exact Or.inr (Or.inl hts)
    · exact Or.inr (Or.inr houter)
  | case4 d ls ts outer ih =>
    -- brackets open: what has been gathered waits outside, and inside nothing has been yet
    rcases ih h with hls | hts | ⟨o, ho, hvo⟩
    · exact Or.inl (List.mem_cons_of_mem _ hls)
    · cases hts
    · rcases List.mem_cons.mp ho with rfl | ho
      · exact Or.inr (Or.inl hvo)
      · exact Or.inr (Or.inr ⟨o, ho, hvo⟩)
  | case5 => cases h
  | case6 ls ts d us outer ih =>
    -- brackets close: what is inside becomes one token, which is no word
    rcases ih h with hls | hus | ⟨o, ho, hvo⟩
    · exact Or.inl (List.mem_cons_of_mem _ hls)
    · rcases List.mem_cons.mp hus with hgroup | hus
      · cases hgroup
      · exact Or.inr (Or.inr ⟨_, List.mem_cons_self, hus⟩)
    · exact Or.inr (Or.inr ⟨o, List.mem_cons_of_mem _ ho, hvo⟩)
  | case7 => cases h

theorem word_of_readTrees {s : String} {ts : List Tree} (h : readTrees s = some ts)
    (hv : .word v ∈ ts) : Word v.toList := by
  unfold readTrees at h
  dsimp only at h
  generalize dropByteOrderMark s.toList = cs at h
  cases hls : lexemes (cs.length + 1) cs with
  | none =>
    rw [hls] at h
    cases h
  | some ls =>
    rw [hls] at h
    rcases mem_of_nest h hv with hmem | hnone | ⟨o, hnone, -⟩
    · exact word_of_lexemes hls hmem
    · cases hnone
    · cases hnone

theorem Ident.word_of_read {s : String} {id : Ident} (h : read s = .ok id) :
    Word id.text.toList := by
  obtain ⟨v, hv, rfl⟩ := map_eq_ok_iff.mp h
  exact word_of_readTrees (readText_readIdent hv).1 List.mem_cons_self

/-! ## Names of a path -/

variable {s s' : Rest}

theorem read_bind_eq_ok_iff {α β : Type} {x : Reader α} {f : α → Reader β} {b : β} :
    (x >>= f) s = .ok (b, s') ↔ ∃ a s₁, x s = .ok (a, s₁) ∧ f a s₁ = .ok (b, s') := by
  refine bind_eq_ok_iff.trans ?_
  constructor
  · rintro ⟨⟨a, s₁⟩, ha, hf⟩
    exact ⟨a, s₁, ha, hf⟩
  · rintro ⟨a, s₁, ha, hf⟩
    exact ⟨(a, s₁), ha, hf⟩

theorem readAnyWord_ok (h : readAnyWord s = .ok (v, s')) : s.trees = .word v :: s'.trees := by
  obtain ⟨ts, stray⟩ := s
  rcases ts with - | ⟨t, ts⟩
  · cases h
  · cases t with
    | word w =>
      cases h
      rfl
    | punct c joint => cases h
    | literal text kind => cases h
    | group d us => cases h

theorem readOp_ok {o : String} {ts : List Tree} (h : readOp o s = .ok (ts, s')) :
    s'.trees <:+ s.trees := by
  unfold readOp at h
  obtain ⟨ts₁, s₁, hahead, h⟩ := read_bind_eq_ok_iff.mp h
  cases hahead
  split at h
  · cases h
    exact List.drop_suffix _ _
  · cases h

theorem optionalOp_ok {o : String} {ts : List Tree} (h : optionalOp o s = .ok (ts, s')) :
    s'.trees <:+ s.trees := by
  unfold optionalOp readIf at h
  obtain ⟨ts₁, s₁, hahead, h⟩ := read_bind_eq_ok_iff.mp h
  cases hahead
  split at h
  · exact readOp_ok h
  · cases h
    exact List.suffix_rfl

/-- A name without arguments is the word that is passed over. With arguments the segment would not
be plain, so in each branch of the reader either the word was all or the case is impossible. -/
theorem readSegment_plain {n : Nested} {name : String}
    (h : readSegment n false s = .ok (.plain name, s')) : s.trees = .word name :: s'.trees := by
  unfold readSegment at h
  obtain ⟨ts, s₁, hahead, h⟩ := read_bind_eq_ok_iff.mp h
  cases hahead
  split at h
  · obtain ⟨w, s₂, hword, h⟩ := read_bind_eq_ok_iff.mp h
    cases h
    exact readAnyWord_ok hword
  · obtain ⟨ts, s₁, hahead, h⟩ := read_bind_eq_ok_iff.mp h
    cases hahead
    -- by a special word or by any other name, the segment begins with one word
    split at h
    all_goals
      obtain ⟨w, s₂, hname, h⟩ := read_bind_eq_ok_iff.mp h
      have hword : s.trees = .word w :: s₂.trees := by
        first
        | exact readAnyWord_ok hname
        | exact (readIdent_ok hname).1
      obtain ⟨ts, s₃, hahead, h⟩ := read_bind_eq_ok_iff.mp h
      cases hahead
      dsimp only at h
      -- with arguments the segment would not be a plain name
      split at h
      · obtain ⟨args, s₄, -, h⟩ := read_bind_eq_ok_iff.mp h
        cases h
      · cases h
        exact hword

theorem importNames_cons {seg : Segment} {segments : List Segment} {names : List String}
    (h : importNames (seg :: segments) = .ok names) :
    ∃ name ns, seg = .plain name ∧ importNames segments = .ok ns ∧ names = name :: ns := by
  cases seg with
  | plain name =>
    by_cases hself : name = "Self"
    · rw [hself] at h
      cases h
    · rw [importNames.eq_3 _ _ fun he => hself he] at h
      obtain ⟨ns, hns, rfl⟩ := map_eq_ok_iff.mp h
      exact ⟨name, ns, rfl, hns, rfl⟩
  | generic name separated args comma =>
    rw [importNames] at h
    split at h
    · cases h
    · cases h

/-- The names behind the first one are words that are passed over, each with a separator in front.
What is left at each step is an end of what was there before, so the words are all among the first
tokens. -/
theorem readManyUpTo_names {n : Nested} {more : List Tree → Bool} {k : Nat}
    {segments : List Segment} {names : List String}
    (h : readManyUpTo more (readOp "::" >>= fun _ => readSegment n false) k s =
      .ok (segments, s')) (hnames : importNames segments = .ok names) :
    ∀ name ∈ names, .word name ∈ s.trees := by
  induction k generalizing s segments names with
  | zero =>
    cases h
    cases hnames
    simp
  | succ k ih =>
    rw [readManyUpTo] at h
    obtain ⟨ts, s₁, hahead, h⟩ := read_bind_eq_ok_iff.mp h
    cases hahead
    split at h
    · obtain ⟨seg, s₂, hseg, h⟩ := read_bind_eq_ok_iff.mp h
      obtain ⟨segs, s₃, hsegs, h⟩ := read_bind_eq_ok_iff.mp h
      cases h
      obtain ⟨name, ns, rfl, hns, rfl⟩ := importNames_cons hnames
      -- one round takes the colons and then the name, and goes on behind both
      obtain ⟨ts, s₁, hop, hseg⟩ := read_bind_eq_ok_iff.mp hseg
      have hsuffix := readOp_ok hop
      have hword := readSegment_plain hseg
      rw [List.forall_mem_cons]
      constructor
      · apply hsuffix.subset
        rw [hword]
        exact List.mem_cons_self
      · intro later hlater
        apply hsuffix.subset
        rw [hword]
        exact List.mem_cons_of_mem _ (ih hsegs hns later hlater)
    · cases h
      cases hnames
      simp

/-- The names of a path to import from are words of the text that the path is read from. -/
theorem readPath_names {n : Nested} {leading : Bool} {segments : List Segment}
    {names : List String} (h : readPath n false s = .ok ((leading, segments), s'))
    (hnames : importNames segments = .ok names) : ∀ name ∈ names, .word name ∈ s.trees := by
  unfold readPath readMany at h
  obtain ⟨colons, s₁, hcolons, h⟩ := read_bind_eq_ok_iff.mp h
  obtain ⟨first, s₂, hfirst, h⟩ := read_bind_eq_ok_iff.mp h
  obtain ⟨more, s₃, hmore, h⟩ := read_bind_eq_ok_iff.mp h
  cases h
  obtain ⟨ts, s₄, hahead, hmore⟩ := read_bind_eq_ok_iff.mp hmore
  cases hahead
  obtain ⟨name, ns, rfl, hns, rfl⟩ := importNames_cons hnames
  have hsuffix := optionalOp_ok hcolons
  have hword := readSegment_plain hfirst
  rw [List.forall_mem_cons]
  constructor
  · apply hsuffix.subset
    rw [hword]
    exact List.mem_cons_self
  · intro later hlater
    apply hsuffix.subset
    rw [hword]
    exact List.mem_cons_of_mem _ (readManyUpTo_names hmore hns later hlater)

end StoreModel.Source

namespace StoreModel

open StoreModel.Source StoreModel.Text

/-! ## Assembled modules -/

theorem word_of_importNames {path name : String} {leading : Bool} {segments : List Segment}
    {names : List String} (h : readText (readTrees path) readTypePath = .ok (leading, segments))
    (hnames : importNames segments = .ok names) (hname : name ∈ names) : Word name.toList := by
  obtain ⟨ts, htrees, hread⟩ := readText_ok h
  exact word_of_readTrees htrees (readPath_names hread hnames name hname)

theorem word_ofText {s : String} (h : ∃ id, Ident.read s = .ok id) :
    Word (Ident.ofText s).text.toList := by
  obtain ⟨id, hid⟩ := h
  rw [Ident.ofText_eq hid]
  exact Ident.word_of_read hid

theorem Schema.Readable.lexical {s : Schema} (h : s.Readable) : s.code.Lexical where
  typeName := word_ofText h.typeName
  resets := by
    intro f hf
    obtain ⟨a, ha, rfl⟩ := List.mem_map.mp hf
    exact word_ofText (h.sequences a ha)
  arms := by
    intro a ha
    obtain ⟨p, hp, rfl⟩ := List.mem_map.mp ha
    exact word_ofText (h.byName p hp)
  savings := by
    intro a ha
    obtain ⟨p, hp, rfl⟩ := List.mem_map.mp ha
    exact word_ofText (h.byField p hp)

/-- The names in a module that is assembled are words. -/
theorem Module.lexical_of_assemble {ss : List Schema} {path : String} {m : Module}
    (h : assemble ss path = .ok m) : m.Lexical := by
  obtain ⟨⟨leading, segments, names, hpath, hnames, himport⟩, hok, hconstants, himpls⟩ :=
    assemble_eq_ok_iff.mp h
  constructor
  · intro n hn
    rw [himport] at hn
    exact word_of_importNames hpath hnames hn
  · intro c hc
    rw [hconstants] at hc
    obtain ⟨x, hx, rfl⟩ := List.mem_map.mp hc
    exact word_ofText (hok.constants _ (List.mem_map_of_mem hx))
  · intro i hi
    rw [himpls] at hi
    obtain ⟨s, hs, rfl⟩ := List.mem_map.mp hi
    exact (hok.schemas s hs).lexical

end StoreModel
