import Mathlib.Data.List.Basic
import Mathlib.Order.Lattice
import StoreModel.Module.Text

/-!
# A module is printed item by item

The layout of a piece of text may depend on all that follows it: whether a line ends at a break is
decided by how far the text reaches up to the next one. This file shows that the items of a module
are out of each other's sight. After an item stands a break that fits on no line, so nothing behind
it is measured and the next item starts on a line of its own, with no box open. The text of a module
is therefore the texts of its items, one after the other (`Module.text_eq`).

Two things are needed of an item (`Nested`). Its boxes close, so that the state in which it is laid
out is the state in which it ends. And its lines do not begin far to the left of the margin: the
space on a line is counted from where it begins, and enough of it would hold the last break.
-/

set_option autoImplicit false

namespace StoreModel.Layout

/-- Pieces whose boxes close, and whose lines do not begin far to the left when the indentation
around them is at least the given one. -/
inductive Nested : Int → List Piece → Prop where
  | nil {low : Int} : Nested low []
  | word {low : Int} (s : String) {r : List Piece} : Nested low r → Nested low (.word s :: r)
  | stop {low : Int} {b : Break} {r : List Piece} : margin - wide < low + b.offset →
      Nested low r → Nested low (.stop b :: r)
  | box {low indent : Int} (consistent : Bool) {content r : List Piece} :
      Nested (min low (low + indent)) content → Nested low r →
      Nested low (.opening consistent indent :: (content ++ .closing :: r))

variable {low : Int} {x y : List Piece}

/-- Nested pieces stand behind nested pieces: no box is left open between them. -/
theorem Nested.append (hx : Nested low x) (hy : Nested low y) : Nested low (x ++ y) := by
  induction hx with
  | nil => exact hy
  | word s _ ih => exact .word s (ih hy)
  | stop hb _ ih => exact .stop hb (ih hy)
  | box c hcontent _ _ ih =>
    rw [List.cons_append, List.append_assoc, List.cons_append]
    exact .box c hcontent (ih hy)

/-! ## How far a line reaches -/

/-- Inside of an open box no break ends what is measured, so lengths add up. The depth is arbitrary,
since the boxes inside are measured at a greater one. -/
theorem Nested.extent_succ (hx : Nested low x) (depth : Nat) (rest : List Piece) :
    extent (depth + 1) (x ++ rest) = extent (depth + 1) x + extent (depth + 1) rest := by
  induction hx generalizing depth rest with
  | nil => simp [extent]
  | word s _ ih => rw [List.cons_append, extent, extent, ih, Nat.add_assoc]
  | stop _ _ ih => rw [List.cons_append, extent, extent, ih, Nat.add_assoc]
  | box c _ _ ihc ihr =>
    rw [List.cons_append, extent, extent, List.append_assoc, ihc, ihc, List.cons_append, extent,
      extent, Nat.add_sub_cancel, ihr]
    exact (Nat.add_assoc _ _ _).symm

/-- What follows nested pieces counts only by how far it reaches itself, up to its first break. The
first break of the pieces, if they have one outside of boxes, ends the measuring before that. -/
theorem Nested.extent_congr (hx : Nested low x) {rest rest' : List Piece}
    (h : extent 0 rest = extent 0 rest') : extent 0 (x ++ rest) = extent 0 (x ++ rest') := by
  induction hx with
  | nil => exact h
  | word s _ ih => rw [List.cons_append, List.cons_append, extent, extent, ih]
  | stop _ _ _ => rfl
  | box c hcontent _ _ ih =>
    rw [List.cons_append, List.cons_append, extent, extent, List.append_assoc, List.append_assoc,
      hcontent.extent_succ, hcontent.extent_succ, List.cons_append, List.cons_append, extent,
      extent]
    exact congrArg _ ih

/-! ## Laying out -/

/-- Whether a line goes on at a break depends on what follows only by how far it reaches. -/
theorem stays_congr {b : Break} {frames : List Frame} {room : Int} {rest rest' : List Piece}
    (h : extent 0 rest = extent 0 rest') :
    stays b frames room rest = stays b frames room rest' := by
  unfold stays
  rw [h]

/-- **Nested pieces are laid out by themselves.** What is written for them depends on what follows
only by how far that reaches, and afterwards the indentation and the open boxes are as before. The
induction is on the nesting, for all states of the layout. A break and a box each ask one question
about what follows, whether it fits; the answer is the same for all that reaches equally far, so it
is taken from one such text and the cases are split by it. -/
theorem Nested.chunks_append (hx : Nested low x) (rest₀ : List Piece) (room indent : Int)
    (frames : List Frame) (pending : Nat) (hlow : low ≤ indent) (hroom : room < wide) :
    ∃ (out : List String) (room' : Int) (pending' : Nat), room' < wide ∧
      ∀ rest, extent 0 rest = extent 0 rest₀ → chunks room indent frames pending (x ++ rest) =
        out ++ chunks room' indent frames pending' rest := by
  induction hx generalizing rest₀ room indent frames pending with
  | nil => exact ⟨[], room, pending, hroom, fun _ _ => rfl⟩
  | word s _ ih =>
    obtain ⟨out, room', pending', hroom', hout⟩ :=
      ih rest₀ (room - s.utf8ByteSize) indent frames 0 hlow (by omega)
    refine ⟨blanks pending :: s :: out, room', pending', hroom', fun rest hrest => ?_⟩
    rw [List.cons_append, chunks, hout rest hrest]
    rfl
  | @stop low b r hb hr ih =>
    cases hstays : stays b frames room (r ++ rest₀) with
    | true =>
      obtain ⟨out, room', pending', hroom', hout⟩ :=
        ih rest₀ (room - b.blank) indent frames (pending + b.blank) hlow (by omega)
      refine ⟨out, room', pending', hroom', fun rest hrest => ?_⟩
      rw [List.cons_append, chunks, stays_congr (hr.extent_congr hrest), hstays, if_pos rfl,
        hout rest hrest]
    | false =>
      -- a line that does not begin far to the left never has room for the last break
      have hstart : max (margin - (indent + b.offset)) leastSpace < wide := by
        have hleast : leastSpace < wide := by decide
        exact max_lt (by omega) hleast
      obtain ⟨out, room', pending', hroom', hout⟩ :=
        ih rest₀ (max (margin - (indent + b.offset)) leastSpace) indent frames
          (indent + b.offset).toNat hlow hstart
      refine ⟨(if b.last.isEmpty then "\n" else blanks pending ++ b.last ++ "\n") :: out, room',
        pending', hroom', fun rest hrest => ?_⟩
      rw [List.cons_append, chunks, stays_congr (hr.extent_congr hrest), hstays,
        if_neg (by simp)]
      dsimp only
      rw [hout rest hrest]
      rfl
  | @box low n c content r hcontent hr ihc ihr =>
    -- whether the box fits is the same whatever follows, and its content ends where it closes
    have hreach : ∀ rest, extent 0 rest = extent 0 rest₀ →
        extent 0 (.closing :: (r ++ rest)) = extent 0 (.closing :: (r ++ rest₀)) := by
      intro rest hrest
      rw [extent, extent]
      exact hr.extent_congr hrest
    have hbox : ∀ rest, extent 0 rest = extent 0 rest₀ →
        extent 1 (content ++ .closing :: (r ++ rest)) =
          extent 1 (content ++ .closing :: (r ++ rest₀)) := by
      intro rest hrest
      rw [hcontent.extent_succ, hcontent.extent_succ, extent, extent]
      exact congrArg _ (hr.extent_congr hrest)
    by_cases hfits : (extent 1 (content ++ .closing :: (r ++ rest₀)) : Int) > room
    · obtain ⟨out₁, room₁, pending₁, hroom₁, hout₁⟩ := ihc (.closing :: (r ++ rest₀)) room
        (indent + n) (.broken c indent :: frames) pending (by omega) hroom
      obtain ⟨out₂, room₂, pending₂, hroom₂, hout₂⟩ :=
        ihr rest₀ room₁ indent frames pending₁ hlow hroom₁
      refine ⟨out₁ ++ out₂, room₂, pending₂, hroom₂, fun rest hrest => ?_⟩
      rw [List.cons_append, List.append_assoc, List.cons_append, chunks, hbox rest hrest,
        if_pos hfits, hout₁ _ (hreach rest hrest), chunks, hout₂ rest hrest, List.append_assoc]
    · obtain ⟨out₁, room₁, pending₁, hroom₁, hout₁⟩ := ihc (.closing :: (r ++ rest₀)) room
        indent (.fits :: frames) pending (by omega) hroom
      obtain ⟨out₂, room₂, pending₂, hroom₂, hout₂⟩ :=
        ihr rest₀ room₁ indent frames pending₁ hlow hroom₁
      refine ⟨out₁ ++ out₂, room₂, pending₂, hroom₂, fun rest hrest => ?_⟩
      rw [List.cons_append, List.append_assoc, List.cons_append, chunks, hbox rest hrest,
        if_neg hfits, hout₁ _ (hreach rest hrest), chunks, hout₂ rest hrest, List.append_assoc]
      exact fun _ _ h => by cases h

/-- Behind nested pieces a line ends, and with it all that what follows can depend on: no box is
open, the indentation is zero, and the space is that of a new line. -/
theorem Nested.render_append (hx : Nested 0 x) (rest : List Piece) :
    render (x ++ hard ++ rest) = render (x ++ hard) ++ render rest := by
  obtain ⟨out, room, pending, hroom, hout⟩ :=
    hx.chunks_append hard margin 0 [] 0 le_rfl (by decide)
  have hline : ∀ r : List Piece, chunks margin 0 [] 0 (x ++ hard ++ r) =
      out ++ "\n" :: chunks margin 0 [] 0 r := by
    intro r
    have hstays : stays { blank := wide } [] room r = false := by
      have hfull : ¬ ((wide + extent 0 r : Nat) : Int) ≤ room := by omega
      exact decide_eq_false hfull
    rw [List.append_assoc, hout (hard ++ r) rfl]
    show out ++ chunks room 0 [] pending (.stop { blank := wide } :: r) = _
    rw [chunks, hstays]
    rfl
  have hnil := hline []
  rw [List.append_nil] at hnil
  unfold render
  rw [hline, hnil, String.join_append, String.join_append, String.join_cons, String.join_cons,
    chunks, String.join_nil, String.append_empty, String.append_assoc]

/-- Items that end their lines are rendered one by one. -/
theorem render_items {items : List (List Piece)} (h : ∀ x ∈ items, Nested 0 x) :
    render (items.flatMap fun item => item ++ hard) =
      String.join (items.map fun item => render (item ++ hard)) := by
  induction items with
  | nil => rfl
  | cons x r ih =>
    have hr := ih fun y hy => h y (List.mem_cons_of_mem _ hy)
    rw [List.flatMap_cons, List.map_cons, String.join_cons,
      (h x List.mem_cons_self).render_append, hr]

/-! ## Parts -/

theorem nested_word (s : String) : Nested low (word s) := .word s .nil

theorem nested_stop {b : Break} (hb : margin - wide < low + b.offset) : Nested low [.stop b] :=
  .stop hb .nil

theorem nested_zero : Nested 0 zero := nested_stop (by decide)

theorem nested_never : Nested 0 never := nested_stop (by decide)

theorem nested_hard : Nested 0 hard := nested_stop (by decide)

/-- A box that is not indented to the left. -/
theorem nested_cbox {n : Int} (hn : 0 ≤ n) (hx : Nested 0 x) : Nested 0 (cbox n x) := by
  have hmin : min 0 (0 + n) = 0 := by omega
  exact .box true (hmin.symm ▸ hx) .nil

theorem nested_ibox (hx : Nested 0 x) : Nested 0 (ibox 0 x) := .box false hx .nil

theorem nested_intercalate {sep : List Piece} {xs : List (List Piece)} (hsep : Nested low sep)
    (h : ∀ x ∈ xs, Nested low x) : Nested low (sep.intercalate xs) := by
  induction xs with
  | nil => exact .nil
  | cons x r ih =>
    obtain ⟨hx, hr⟩ := List.forall_mem_cons.mp h
    cases r with
    | nil => rwa [List.intercalate_singleton]
    | cons y r =>
      rw [List.intercalate_cons_cons]
      exact (hx.append hsep).append (ih hr)

end StoreModel.Layout

namespace StoreModel.ModuleText

open StoreModel.Layout

variable {as lines : List (List Piece)}

/-- Arguments are nested, in whichever way their box is broken. Without arguments there is no box at
all. -/
theorem nested_arguments (h : ∀ a ∈ as, Nested 0 a) : Nested 0 (arguments as) := by
  cases as with
  | nil => exact .nil
  | cons a r =>
    have hcomma : Nested 0 (word "," ++ space) := .word "," (nested_stop (by decide))
    exact nested_cbox (by decide)
      ((nested_zero.append (nested_intercalate hcomma h)).append (nested_stop (by decide)))

theorem nested_call {f : String} (h : ∀ a ∈ as, Nested 0 a) : Nested 0 (call f as) :=
  (((nested_word f).append (nested_word "(")).append (nested_arguments h)).append (nested_word ")")

theorem nested_method {f : String} (h : ∀ a ∈ as, Nested 0 a) : Nested 0 (method f as) :=
  (nested_word _).append (nested_cbox le_rfl
    (((nested_word "(").append (nested_arguments h)).append (nested_word ")")))

theorem nested_selfField (f : String) : Nested 0 (selfField f) :=
  nested_cbox (by decide) (((nested_word "self").append nested_zero).append (nested_word _))

theorem nested_statement {e : List Piece} (h : Nested 0 e) : Nested 0 (statement e) :=
  nested_ibox (h.append (nested_word ";"))

theorem nested_assignment (f v : String) : Nested 0 (assignment f v) :=
  nested_statement (nested_ibox
    ((((nested_selfField f).append (nested_word " = ")).append nested_never).append
      (nested_word v)))

/-- A body goes back to the left with its last line, but not beyond where it began. -/
theorem nested_body (h : ∀ x ∈ lines, Nested 0 x) : Nested 0 (body lines) :=
  (nested_cbox (by decide) ((nested_hard.append (nested_intercalate nested_hard h)).append
    (nested_stop (by decide)))).append (nested_word _)

theorem nested_braced {line : String} (h : ∀ x ∈ lines, Nested 0 x) :
    Nested 0 (braced line lines) := (nested_word _).append (nested_body h)

/-- The statement that refuses a value is nested: a call in a call, with words for arguments. -/
theorem nested_refusal (m : Mismatch) : Nested 0 (refusal m) := by
  refine nested_statement ((nested_word _).append (nested_call ?_))
  rw [List.forall_mem_singleton]
  refine nested_call ?_
  intro a ha
  simp only [List.mem_cons, List.not_mem_nil, or_false] at ha
  obtain rfl | rfl | rfl := ha
  all_goals exact nested_word _

/-- An arm is nested. Of its two lines the second depends on whether the field is a sequence. -/
theorem nested_arm (a : Arm) : Nested 0 (arm a) := by
  refine nested_braced ?_
  rw [List.forall_mem_cons, List.forall_mem_singleton]
  constructor
  · refine (nested_braced ?_).append (nested_word ";")
    rw [List.forall_mem_singleton]
    exact nested_refusal _
  · split
    · refine nested_statement (nested_cbox (by decide)
        ((((nested_word _).append (nested_word _)).append nested_zero).append (nested_method ?_)))
      rw [List.forall_mem_singleton]
      exact nested_word _
    · exact nested_assignment _ _

/-- The function that loads a record is nested, from the arms in the innermost body out to the line
that the function begins with. -/
theorem nested_load (i : Implementation) : Nested 0 (load i) := by
  have harms : ∀ x ∈ i.arms.map arm ++ [word "_ => \x7b\x7d"], Nested 0 x := by
    rw [List.forall_mem_append, List.forall_mem_map, List.forall_mem_singleton]
    exact ⟨fun a _ => nested_arm a, nested_word _⟩
  have hloop : ∀ x ∈ [word "let ::propkit::Property \x7b name, value, .. \x7d = prop;",
      braced "match name.as_str()" (i.arms.map arm ++ [word "_ => \x7b\x7d"])], Nested 0 x := by
    rw [List.forall_mem_cons, List.forall_mem_singleton]
    exact ⟨nested_word _, nested_braced harms⟩
  have hhead : Nested 0 (word "fn load(" ++ hard ++ word "&mut self," ++ hard
      ++ word "props: ::std::vec::Vec<::propkit::Property>,"
      ++ [.stop { blank := wide, offset := -4 }]) :=
    (((((nested_word _).append nested_hard).append (nested_word _)).append nested_hard).append
      (nested_word _)).append (nested_stop (by decide))
  refine (nested_cbox (by decide) hhead).append (nested_braced ?_)
  rw [List.forall_mem_append, List.forall_mem_map, List.forall_mem_cons,
    List.forall_mem_singleton]
  exact ⟨fun f _ => nested_assignment _ _, nested_braced hloop, nested_word _⟩

theorem nested_content (s : Saving) : Nested 0 (content s) := by
  have hclone : Nested 0 (method "clone" []) := nested_method (by simp)
  unfold content
  split
  · split
    · exact nested_word _
    · exact nested_cbox (by decide) (((nested_word _).append nested_zero).append hclone)
  · split
    · exact nested_selfField _
    · exact nested_cbox (by decide) (((((nested_word _).append nested_zero).append
        (nested_word _)).append nested_zero).append hclone)

/-- A property is nested with and without its marks. Each mark is there or not, so the two are
looked at together before the box around them. -/
theorem nested_property (s : Saving) : Nested 0 (property s) := by
  have hmark : ∀ (b : Bool) (f : String),
      Nested 0 (if b then zero ++ method f [] else []) := by
    intro b f
    split
    · exact nested_zero.append (nested_method (by simp))
    · exact .nil
  have hplain : Nested 0 (call "::propkit::Property::new"
      [literal s.name, call ("::propkit::Value::" ++ s.kind.variant) [content s]]) := by
    refine nested_call ?_
    rw [List.forall_mem_cons, List.forall_mem_singleton]
    refine ⟨nested_word _, nested_call ?_⟩
    rw [List.forall_mem_singleton]
    exact nested_content s
  have hmarks := (hmark s.loop "multiple").append (hmark s.noIndex "no_index")
  unfold property
  exact iteInduction (fun _ => hplain) fun _ => nested_cbox (by decide) (hplain.append hmarks)

/-- The statement that saves a field is nested; a sequence has a loop around it, whose line is in a
box of its own. -/
theorem nested_saving (s : Saving) : Nested 0 (saving s) := by
  have hpush :
      Nested 0 (statement (cbox 4 (word "props" ++ zero ++ method "push" [property s]))) := by
    refine nested_statement (nested_cbox (by decide)
      (((nested_word _).append nested_zero).append (nested_method ?_)))
    rw [List.forall_mem_singleton]
    exact nested_property s
  unfold saving
  dsimp only
  split
  · have hfield : Nested 0 (word "&" ++ selfField s.field.text ++ space) :=
      ((nested_word _).append (nested_selfField _)).append (nested_stop (by decide))
    refine nested_ibox ((((((nested_word _).append nested_never).append
      (nested_cbox le_rfl hfield)).append (nested_word _)).append nested_never).append
      (nested_body ?_))
    rw [List.forall_mem_singleton]
    exact hpush
  · exact hpush

theorem nested_save (i : Implementation) : Nested 0 (save i) := by
  refine nested_braced ?_
  rw [List.forall_mem_append, List.forall_mem_cons, List.forall_mem_map,
    List.forall_mem_singleton]
  exact ⟨⟨nested_word _, fun s _ => nested_saving s⟩, nested_word _⟩

/-- An implementation is nested, although its first line is in a box that goes to the left: there is
no break in that box but the one in front of the type. -/
theorem nested_implementation (i : Implementation) : Nested 0 (implementation i) := by
  -- only this line is in a box that is indented to the left
  have hline : Nested 0 (ibox (-4) (word "impl ::propkit::PropertyLoadSaver" ++ space
      ++ word ("for " ++ i.typeName.text))) :=
    .box false (.word _ (.stop (by decide) (nested_word _))) .nil
  exact (nested_cbox (by decide) ((((((hline.append (nested_word _)).append nested_hard).append
    (nested_load i)).append nested_hard).append (nested_save i)).append
    (nested_stop (by decide)))).append (nested_word _)

/-- Every item of a module is nested, and so none can be seen from another. -/
theorem nested_of_mem_items {m : Module} {x : List Piece} (hx : x ∈ items m) : Nested 0 x := by
  unfold items at hx
  simp only [List.mem_append, List.mem_cons, List.mem_map] at hx
  obtain (⟨s, -, rfl⟩ | rfl | ⟨c, -, rfl⟩) | ⟨i, -, rfl⟩ := hx
  · exact nested_word s
  · exact nested_word _
  · exact nested_word _
  · exact nested_implementation i

end StoreModel.ModuleText

namespace StoreModel

open StoreModel.Layout

/-- **The text of a module is the texts of its items.** -/
theorem Module.text_eq (m : Module) :
    m.text = String.join ((ModuleText.items m).map fun item => render (item ++ hard)) :=
  render_items fun _ => ModuleText.nested_of_mem_items

end StoreModel
