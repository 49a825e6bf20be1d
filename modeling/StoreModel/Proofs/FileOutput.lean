import StoreModel.Output.Writing
import StoreModel.Proofs.Composition
import StoreModel.Proofs.OutputPath

/-!
# What writing does to files

`Registry.writeModule` may add directories on the way to its file, and then it writes the file or
leaves it alone. This file says what stands at every place of the tree afterwards, whether the run
succeeds or fails, and that a second run finds nothing left to do.

Directories and files are kept apart for this. Adding directories extends a tree: what stood
somewhere still stands there, and what is new is a directory on the way (`FileTree.Extended`).
Writing changes one place, and that is no directory, so the way that led to the file still does; a
second run walks it and adds nothing (`createDirectories_of_walk?`).

Where a path leads is told from its names alone (`OutputPath.place`), with nothing asked of the
tree. So it can be said where a file is going to be before there is a directory for it.
-/

set_option autoImplicit false

namespace StoreModel

/-! ## Places on a way -/

/-- Where a name leads to from a place. -/
def enter (here : Place) (name : String) : Place :=
  if name = ".." then here.dropLast else here ++ [name]

/-- Where names lead to from a place, one after the other. -/
def follow (here : Place) (names : List String) : Place := names.foldl enter here

theorem follow_append (here : Place) (ns ns' : List String) :
    follow here (ns ++ ns') = follow (follow here ns) ns' := List.foldl_append

theorem enter_of_ne {here : Place} {name : String} (h : name ≠ "..") :
    enter here name = here ++ [name] := if_neg h

namespace OutputPath

/-- The place that a path leads to. -/
def place (p : OutputPath) : Place := follow [] p.names

/-- A path leads through the directory at a place, on the way to its last name. -/
def Passes (p : OutputPath) (l : Place) : Prop :=
  ∃ ns, ns <+: p.names.dropLast ∧ l = follow [] ns

/-- A file stands in the directory of its path, under its name. -/
theorem place_eq {p : OutputPath} {name : String} (h : p.fileName? = some name) :
    p.place = follow [] p.names.dropLast ++ [name] := by
  obtain ⟨hname, hnames⟩ := names_eq_append h
  unfold place
  rw [hnames, follow_append, List.dropLast_concat]
  exact enter_of_ne hname

end OutputPath

namespace FileTree

variable {t t' t'' : FileTree} {here l : Place} {name : String} {way : Place → Prop}

/-! ## Trees with more directories -/

/-- A tree with directories put where nothing stood, at places on a way. -/
def Extended (t t' : FileTree) (way : Place → Prop) : Prop :=
  ∀ l, t'.node? l = t.node? l ∨ t.node? l = none ∧ t'.node? l = some .directory ∧ way l

namespace Extended

theorem refl (t : FileTree) (way : Place → Prop) : Extended t t way := fun _ => Or.inl rfl

theorem of_some (h : Extended t t' way) {n : Node} (hn : t.node? l = some n) :
    t'.node? l = some n := by
  rcases h l with hsame | ⟨hnone, -, -⟩
  · rw [hsame, hn]
  · rw [hn] at hnone
    cases hnone

/-- Two extensions make one. A directory that the second one adds cannot stand in place of one that
the first has added, since a place that the first has filled is no longer free. -/
theorem trans (h : Extended t t' way) (h' : Extended t' t'' way) : Extended t t'' way := by
  intro l
  rcases h' l with hsame' | ⟨hnone', hdir', hway⟩
  · rw [hsame']
    exact h l
  · rcases h l with hsame | ⟨-, hdir, -⟩
    · exact Or.inr ⟨hsame ▸ hnone', hdir', hway⟩
    · rw [hdir] at hnone'
      cases hnone'

theorem mono {way' : Place → Prop} (h : Extended t t' way) (hway : ∀ l, way l → way' l) :
    Extended t t' way' :=
  fun l => (h l).imp_right fun ⟨hnone, hdir, hl⟩ => ⟨hnone, hdir, hway l hl⟩

/-- The same files stand in both trees, with the same contents: what is new is a directory, so
whether a file is current can be asked before or after directories were added. -/
theorem file_iff (h : Extended t t' way) {content : ByteArray} :
    t'.node? l = some (.file content) ↔ t.node? l = some (.file content) := by
  rcases h l with hsame | ⟨hnone, hdir, -⟩
  · rw [hsame]
  · rw [hnone, hdir]
    exact ⟨fun he => (by cases he), fun he => by cases he⟩

theorem put_directory (hl : l ≠ []) (hnone : t.node? l = none) (hway : way l) :
    Extended t (t.put l .directory) way := by
  intro k
  rw [node?_put _ _ _ _ hl]
  by_cases hk : k = l
  · rw [if_pos hk, hk]
    exact Or.inr ⟨hnone, rfl, hway⟩
  · rw [if_neg hk]
    exact Or.inl rfl

end Extended

/-! ## Walking and adding -/

/-- Along a way that can be walked there is nothing to add, so the tree is just the same afterwards.
This is why a second run changes nothing. -/
theorem createDirectories_of_walk? {names : List String} {e : Place}
    (h : t.walk? here names = some e) : t.createDirectories here names = (t, some e) := by
  fun_induction walk? t here names with
  | case1 here =>
    cases h
    rfl
  | case2 here r ih =>
    rw [createDirectories, if_pos rfl]
    exact ih h
  | case3 here name r hname hdir ih =>
    rw [createDirectories, if_neg hname, hdir]
    exact ih h
  | case4 here name r hname hdir => cases h

/-- A way leads on as long as no directory on it is gone. -/
theorem walk?_mono {names : List String} {e : Place} (h : t.walk? here names = some e)
    (hdir : ∀ l, t.node? l = some .directory → t'.node? l = some .directory) :
    t'.walk? here names = some e := by
  fun_induction walk? t here names with
  | case1 here => exact h
  | case2 here r ih =>
    rw [walk?, if_pos rfl]
    exact ih h
  | case3 here name r hname hthere ih =>
    rw [walk?, if_neg hname, hdir _ hthere]
    exact ih h
  | case4 here name r hname hthere => cases h

/-- A walk that does not fail ends where the names lead to. Whether it fails is up to the tree, but
the place is told by the names alone. -/
theorem eq_follow_of_walk? {names : List String} {e : Place} (h : t.walk? here names = some e) :
    e = follow here names := by
  fun_induction walk? t here names with
  | case1 here =>
    cases h
    rfl
  | case2 here r ih => exact ih h
  | case3 here name r hname hdir ih =>
    rw [ih h, follow, follow, List.foldl_cons, enter_of_ne hname]
  | case4 here name r hname hdir => cases h

/-- The places that names lead through from a place. -/
def Along (here : Place) (names : List String) (l : Place) : Prop :=
  ∃ ns, ns <+: names ∧ l = follow here ns

theorem Along.cons {names : List String} (h : Along (enter here name) names l) :
    Along here (name :: names) l := by
  obtain ⟨ns, hns, rfl⟩ := h
  exact ⟨name :: ns, List.cons_prefix_cons.mpr ⟨rfl, hns⟩, rfl⟩

/-- Adding directories extends the tree, and if the way is not blocked it can be walked then. The
induction follows the names; where a directory is added, the rest of the way is walked in the tree
that has it, and the directory is still there when the rest is done. -/
theorem createDirectories_extended {names : List String} :
    Extended t (t.createDirectories here names).1 (Along here names) ∧
      ∀ e, (t.createDirectories here names).2 = some e →
        (t.createDirectories here names).1.walk? here names = some e := by
  fun_induction createDirectories t here names with
  | case1 t here => exact ⟨.refl _ _, fun e he => he⟩
  | case2 t here r ih =>
    refine ⟨ih.1.mono fun l hl => Along.cons (by rwa [enter, if_pos rfl]), fun e he => ?_⟩
    rw [walk?, if_pos rfl]
    exact ih.2 e he
  | case3 t here name r hname hdir ih =>
    -- the directory is there already, and what is made further down leaves it there
    refine ⟨ih.1.mono fun l hl => Along.cons (by rwa [enter_of_ne hname]), fun e he => ?_⟩
    rw [walk?, if_neg hname, ih.1.of_some hdir]
    exact ih.2 e he
  | case4 t here name r hname content hfile => exact ⟨.refl _ _, fun e he => by cases he⟩
  | case5 t here name r hname hnone hroom ih =>
    -- the directory is put in first; the later ones are made in the tree that has it
    have hput : Extended t (t.put (here ++ [name]) .directory) (Along here (name :: r)) :=
      .put_directory (by simp) hnone
        ⟨[name], List.cons_prefix_cons.mpr ⟨rfl, List.nil_prefix⟩, (enter_of_ne hname).symm⟩
    have hadded : (t.put (here ++ [name]) .directory).node? (here ++ [name]) = some .directory := by
      rw [node?_put _ _ _ _ (by simp), if_pos rfl]
    refine ⟨hput.trans (ih.1.mono fun l hl => Along.cons (by rwa [enter_of_ne hname])),
      fun e he => ?_⟩
    rw [walk?, if_neg hname, ih.1.of_some hadded]
    exact ih.2 e he
  | case6 t here name r hname hnone hroom => exact ⟨.refl _ _, fun e he => by cases he⟩

/-! ## Writing a text -/

theorem readText?_eq_some_iff {text : String} :
    t.readText? l = some text ↔ t.node? l = some (.file text.toUTF8) := by
  unfold readText?
  rcases hnode : t.node? l with _ | _ | content
  · exact ⟨fun h => (by cases h), fun h => by cases h⟩
  · exact ⟨fun h => (by cases h), fun h => by cases h⟩
  · show String.fromUTF8? content = some text ↔ some (Node.file content) = _
    rw [Option.some.injEq, Node.file.injEq]
    unfold String.fromUTF8?
    by_cases hvalid : content.IsValidUTF8
    · rw [dif_pos hvalid, Option.some.injEq, ← String.toByteArray_inj]
      rfl
    · -- a file that is not text at all is not the text of any string
      rw [dif_neg hvalid]
      exact ⟨fun h => (by cases h), fun h => absurd (h ▸ text.isValidUTF8) hvalid⟩

/-- Writing replaces what stands at one place, which is no directory. -/
theorem write?_eq_some {content : ByteArray} (h : t.write? here name content = some t') :
    t.node? (here ++ [name]) ≠ some .directory ∧ t' = t.put (here ++ [name]) (.file content) := by
  unfold write? at h
  rcases hnode : t.node? (here ++ [name]) with _ | _ | old
  · rw [hnode] at h
    by_cases hroom : t.hasRoomFor here name = true
    · exact ⟨by rintro ⟨⟩, (Option.some.inj ((if_pos hroom).symm.trans h)).symm⟩
    · cases (if_neg hroom).symm.trans h
  · rw [hnode] at h
    cases h
  · rw [hnode] at h
    exact ⟨by rintro ⟨⟩, (Option.some.inj h).symm⟩

/-- What an update of a file leaves: the file with the text, or everything as it was. There is no
third case, since the one change to the tree is the last step and is made only if it can be. -/
theorem update_cases (t : FileTree) (here : Place) (path : OutputPath) (text : String) :
    t.update here path text = (t, .error (.file path)) ∨
    ∃ name, path.isUsable = true ∧ path.fileName? = some name ∧
      (t.node? (here ++ [name]) = some (.file text.toUTF8) ∧
          t.update here path text = (t, .ok false) ∨
        t.node? (here ++ [name]) ≠ some (.file text.toUTF8) ∧
          t.node? (here ++ [name]) ≠ some .directory ∧
          t.update here path text = (t.put (here ++ [name]) (.file text.toUTF8), .ok true)) := by
  unfold update
  by_cases husable : path.isUsable = true
  · rw [if_pos husable]
    cases hname : path.fileName? with
    | none => exact Or.inl rfl
    | some name =>
      simp only
      -- a file that cannot be read is written like one with another text
      by_cases hread : t.readText? (here ++ [name]) = some text
      · rw [if_pos hread]
        exact Or.inr ⟨name, husable, rfl, Or.inl ⟨readText?_eq_some_iff.mp hread, rfl⟩⟩
      · rw [if_neg hread]
        cases hwrite : t.write? here name text.toUTF8 with
        | none => exact Or.inl rfl
        | some t' =>
          obtain ⟨hdir, rfl⟩ := write?_eq_some hwrite
          exact Or.inr ⟨name, husable, rfl,
            Or.inr ⟨mt readText?_eq_some_iff.mpr hread, hdir, rfl⟩⟩
  · rw [if_neg husable]
    exact Or.inl rfl

/-- A file that holds the text already is left alone, whatever else the tree holds. -/
theorem update_of_content {path : OutputPath} {text : String} (husable : path.isUsable = true)
    (hname : path.fileName? = some name)
    (hfile : t.node? (here ++ [name]) = some (.file text.toUTF8)) :
    t.update here path text = (t, .ok false) := by
  unfold update
  rw [if_pos husable, hname]
  show (if t.readText? (here ++ [name]) = some text then _ else _) = _
  rw [if_pos (readText?_eq_some_iff.mpr hfile)]

theorem update_of_other {path : OutputPath} {text : String} {content : ByteArray}
    (husable : path.isUsable = true) (hname : path.fileName? = some name)
    (hfile : t.node? (here ++ [name]) = some (.file content)) (hother : content ≠ text.toUTF8) :
    t.update here path text = (t.put (here ++ [name]) (.file text.toUTF8), .ok true) := by
  have hread : t.readText? (here ++ [name]) ≠ some text := by
    intro h
    rw [readText?_eq_some_iff, hfile] at h
    exact hother (Node.file.inj (Option.some.inj h))
  have hwrite : t.write? here name text.toUTF8 =
      some (t.put (here ++ [name]) (.file text.toUTF8)) := by
    unfold write?
    rw [hfile]
  unfold update
  rw [if_pos husable, hname]
  show (if t.readText? (here ++ [name]) = some text then _ else _) = _
  rw [if_neg hread, hwrite]

/-! ## Saving -/

/-- A text was saved in the file of a path. -/
structure Saved (t t' : FileTree) (path : OutputPath) (text : String) (changed : Bool) : Prop where
  content : t'.node? path.place = some (.file text.toUTF8)
  others : ∀ l, l ≠ path.place → t'.node? l = t.node? l ∨
    t.node? l = none ∧ t'.node? l = some .directory ∧ path.Passes l
  changed_iff : changed = false ↔ t.node? path.place = some (.file text.toUTF8)
  again : t'.save path text = (t', .ok false)

variable {path d : OutputPath} {text : String}

theorem save_of_directory?_eq_none (h : path.directory? = none) :
    t.save path text = (t, .error (.file path)) := by
  unfold save
  rw [h]
  show t.update [] path text = _
  rcases t.update_cases [] path text with herr | ⟨name, -, hname, -⟩
  · exact herr
  · -- a path without a directory has no names, so it has none for a file either
    have hnames := (OutputPath.names_eq_append hname).2
    rw [OutputPath.names_eq_nil h] at hnames
    cases hnames

theorem addDirectory_extended (h : path.directory? = some d) :
    Extended t (t.addDirectory d).1 path.Passes ∧
      ∀ here, (t.addDirectory d).2 = some here →
        (t.addDirectory d).1.walk? [] d.names = some here ∧ d.isUsable = true := by
  unfold addDirectory
  by_cases husable : d.isUsable = true
  · rw [if_pos husable]
    have hext : Extended t (t.createDirectories [] d.names).1 (Along [] d.names) :=
      createDirectories_extended.1
    rw [OutputPath.names_directory h] at hext ⊢
    exact ⟨hext, fun here hhere => ⟨createDirectories_extended.2 here hhere, husable⟩⟩
  · rw [if_neg husable]
    exact ⟨.refl _ _, fun here hhere => by cases hhere⟩

theorem save_of_addDirectory (h : path.directory? = some d) :
    (∀ here, (t.addDirectory d).2 = some here →
      t.save path text = (t.addDirectory d).1.update here path text) ∧
    ((t.addDirectory d).2 = none →
      t.save path text = ((t.addDirectory d).1, .error (.directory d))) := by
  unfold save
  rw [h]
  cases hadd : t.addDirectory d with
  | mk t₁ found =>
    constructor
    · rintro here rfl
      dsimp only
      rw [hadd]
    · rintro rfl
      dsimp only
      rw [hadd]

theorem save_of_walk? (h : path.directory? = some d) (husable : d.isUsable = true)
    (hwalk : t.walk? [] d.names = some here) : t.save path text = t.update here path text := by
  have hadd : t.addDirectory d = (t, some here) := by
    unfold addDirectory
    rw [if_pos husable, createDirectories_of_walk? hwalk]
  rw [(save_of_addDirectory h).1 here (by rw [hadd]), hadd]

/-- A text that cannot be saved leaves at most directories behind. Either the way was blocked and no
file was looked at, or the way was free and the file could not be changed. -/
theorem save_error {e : OutputError} (h : t.save path text = (t', .error e)) :
    Extended t t' path.Passes := by
  cases hd : path.directory? with
  | none =>
    rw [save_of_directory?_eq_none hd] at h
    cases h
    exact .refl _ _
  | some d =>
    have hext := (addDirectory_extended (t := t) hd).1
    cases hhere : (t.addDirectory d).2 with
    | none =>
      rw [(save_of_addDirectory hd).2 hhere] at h
      cases h
      exact hext
    | some here =>
      rw [(save_of_addDirectory hd).1 here hhere] at h
      -- once the directories are there, an error means that the file was not touched
      rcases (t.addDirectory d).1.update_cases here path text with
        herr | ⟨name, -, -, ⟨-, hok⟩ | ⟨-, -, hok⟩⟩
      · rw [herr] at h
        cases h
        exact hext
      · rw [hok] at h
        cases h
      · rw [hok] at h
        cases h

section Ready

/-- The directories of a path are there, and its last name is one for a file. -/
structure Ready (t : FileTree) (path d : OutputPath) (here : Place) (name : String) : Prop where
  directory : path.directory? = some d
  usable : path.isUsable = true ∧ d.isUsable = true
  walk : t.walk? [] d.names = some here
  fileName : path.fileName? = some name

variable {name : String}

theorem Ready.place_eq (h : Ready t path d here name) : path.place = here ++ [name] := by
  rw [eq_follow_of_walk? h.walk, OutputPath.names_directory h.directory]
  exact OutputPath.place_eq h.fileName

/-- A file with the text is found, and left alone. -/
theorem Ready.save_of_content (h : Ready t path d here name)
    (hfile : t.node? path.place = some (.file text.toUTF8)) :
    t.save path text = (t, .ok false) := by
  rw [save_of_walk? h.directory h.usable.2 h.walk]
  apply update_of_content h.usable.1 h.fileName
  rw [← h.place_eq]
  exact hfile

theorem Ready.node?_put (h : Ready t path d here name) (n : Node) (l : Place) :
    (t.put path.place n).node? l = if l = path.place then some n else t.node? l := by
  apply FileTree.node?_put
  rw [h.place_eq]
  simp

/-- A file is none of the directories that lead to it, so they still do when it is there. -/
theorem Ready.put (h : Ready t path d here name) (hdir : t.node? path.place ≠ some .directory)
    (content : ByteArray) : Ready (t.put path.place (.file content)) path d here name := by
  refine { h with walk := walk?_mono h.walk fun l hl => ?_ }
  have hne : l ≠ path.place := by
    intro he
    rw [he] at hl
    exact hdir hl
  rw [h.node?_put, if_neg hne]
  exact hl

end Ready

/-- A text that is saved stands in its file, and all that was asked of the tree for it still holds,
so it would be saved again at once. -/
theorem save_ok {changed : Bool} (h : t.save path text = (t', .ok changed)) :
    Saved t t' path text changed := by
  cases hd : path.directory? with
  | none =>
    rw [save_of_directory?_eq_none hd] at h
    cases h
  | some d =>
    obtain ⟨hext, hway⟩ := addDirectory_extended (t := t) hd
    cases hhere : (t.addDirectory d).2 with
    | none =>
      rw [(save_of_addDirectory hd).2 hhere] at h
      cases h
    | some here =>
      rw [(save_of_addDirectory hd).1 here hhere] at h
      obtain ⟨hwalk, husable⟩ := hway here hhere
      generalize (t.addDirectory d).1 = t₁ at h hext hwalk
      -- from here on only the tree with the directories matters
      rcases t₁.update_cases here path text with herr | ⟨name, hpath, hname, hcases⟩
      · rw [herr] at h
        cases h
      · have hready : Ready t₁ path d here name := ⟨hd, ⟨hpath, husable⟩, hwalk, hname⟩
        rw [← hready.place_eq] at hcases
        rcases hcases with ⟨hfile, hok⟩ | ⟨hfile, hdir, hok⟩
        · rw [hok] at h
          cases h
          exact
            { content := hfile
              others := fun l _ => hext l
              changed_iff := ⟨fun _ => hext.file_iff.mp hfile, fun _ => rfl⟩
              again := hready.save_of_content hfile }
        · rw [hok] at h
          cases h
          have hcontent : (t₁.put path.place (.file text.toUTF8)).node? path.place =
              some (.file text.toUTF8) := by
            rw [hready.node?_put, if_pos rfl]
          refine
            { content := hcontent
              others := fun l hl => ?_
              changed_iff :=
                ⟨fun he => (by cases he), fun he => absurd (hext.file_iff.mpr he) hfile⟩
              again := (hready.put hdir _).save_of_content hcontent }
          rw [hready.node?_put, if_neg hl]
          exact hext l

end FileTree

/-! ## Writing a module -/

theorem Registry.writeModule_of_error {r : Registry} {importPath : String} {e : GenerationError}
    (h : (r.generate importPath).result = .error e) (t : FileTree) (path : OutputPath) :
    (r.writeModule importPath t path).result = .error (.generation e) ∧
      (r.writeModule importPath t path).tree = t := by
  unfold writeModule
  simp only [h, and_self]

theorem Registry.writeModule_of_ok {r : Registry} {importPath text : String}
    (h : (r.generate importPath).result = .ok text) (t : FileTree) (path : OutputPath) :
    (r.writeModule importPath t path).tree = (t.save path text).1 ∧
      (r.writeModule importPath t path).result = (t.save path text).2 := by
  unfold writeModule
  simp only [h]
  rcases t.save path text with ⟨t', _ | _ | _⟩ <;> exact ⟨rfl, rfl⟩

/-- **What a run does to files.** If there is no module, the run fails for that reason and the tree
is just what it was. If the run succeeds, its file holds the text of the module; nothing else is
different, save that directories were added where nothing stood on the way to the file; the file was
left alone exactly if it held that text before; and another run succeeds at once, with no change to
the tree. If the run fails although there is a module, nothing is different but such directories, so
no file has another content. -/
theorem Registry.writeModule_effect (r : Registry) (importPath : String) (t : FileTree)
    (path : OutputPath) :
    (∀ e, (r.generate importPath).result = .error e →
      (r.writeModule importPath t path).result = .error (.generation e) ∧
        (r.writeModule importPath t path).tree = t) ∧
    (∀ changed, (r.writeModule importPath t path).result = .ok changed →
      ∃ text, (r.generate importPath).result = .ok text ∧
        let t' := (r.writeModule importPath t path).tree
        t'.node? path.place = some (.file text.toUTF8) ∧
        (∀ l, l ≠ path.place → t'.node? l = t.node? l ∨
          t.node? l = none ∧ t'.node? l = some .directory ∧ path.Passes l) ∧
        (changed = false ↔ t.node? path.place = some (.file text.toUTF8)) ∧
        (r.writeModule importPath t' path).result = .ok false ∧
        (r.writeModule importPath t' path).tree = t') ∧
    ∀ e, (r.writeModule importPath t path).result = .error e → ∀ l,
      (r.writeModule importPath t path).tree.node? l = t.node? l ∨
        t.node? l = none ∧ (r.writeModule importPath t path).tree.node? l = some .directory ∧
          path.Passes l := by
  cases hgen : (r.generate importPath).result with
  | error e =>
    obtain ⟨hresult, htree⟩ := writeModule_of_error hgen t path
    refine ⟨fun e' he' => ?_, fun changed hok => ?_, fun e' _ l => Or.inl ?_⟩
    · cases he'
      exact ⟨hresult, htree⟩
    · rw [hresult] at hok
      cases hok
    · rw [htree]
  | ok text =>
    obtain ⟨htree, hresult⟩ := writeModule_of_ok hgen t path
    refine ⟨fun e he => (by cases he), fun changed hok => ?_, fun e herr => ?_⟩
    · have hs := FileTree.save_ok (Prod.ext htree.symm (hresult.symm.trans hok))
      obtain ⟨htree', hresult'⟩ :=
        writeModule_of_ok hgen (r.writeModule importPath t path).tree path
      rw [hs.again] at htree' hresult'
      exact ⟨text, rfl, hs.content, hs.others, hs.changed_iff, hresult', htree'⟩
    · rw [hresult] at herr
      rw [htree]
      exact FileTree.save_error (Prod.ext rfl herr)

/-- The text of a module begins with the first line of its header, whatever it holds. -/
theorem Module.head?_text (m : Module) : m.text.toList.head? = some '/' := by
  have hitems : ModuleText.items m =
      Layout.word (ModuleText.header.headD "") :: (ModuleText.items m).tail := rfl
  have hfirst :
      (Layout.render (Layout.word (ModuleText.header.headD "") ++ Layout.hard)).toList.head? =
        some '/' := by decide
  rw [Module.text_eq, hitems, List.map_cons, String.join_cons, String.toList_append,
    List.head?_append, hfirst, Option.some_or]

namespace Sample

theorem generate_crossed :
    ∃ m : Module, ((Registry.insert {} "Post" crossed).generate "super").result = .ok m.text := by
  have hsorted : (Registry.insert {} "Post" crossed).sortedEntries = .ok [("Post", crossed)] := by
    unfold Registry.sortedEntries
    exact (congrArg Registry.collapse (List.mergeSort_singleton ("Post", crossed))).trans rfl
  exact ⟨_, Registry.generate_eq_ok_iff.mpr
    ⟨_, _, _, hsorted, .cons derive_crossed .nil, assemblable_crossed.assemble_super, rfl⟩⟩

/-- A path with a way that leads back once. -/
def apart : OutputPath := ⟨"gen/../models/out.rs"⟩

/-- What an earlier program has left: a file where the path leads to, and another one beside it. -/
def outdated : FileTree :=
  { entries := [
      (["models"], .directory),
      (["models", "out.rs"], .file "mod old;".toUTF8),
      (["models", "notes"], .file "keep".toUTF8)] }

/-- The module takes the place of the old file, the directory that the path only passes is added,
and the file beside it stays. -/
theorem writeModule_effect_apart :
    ∃ text t, ((Registry.insert {} "Post" crossed).generate "super").result = .ok text ∧
      ((Registry.insert {} "Post" crossed).writeModule "super" outdated apart).result = .ok true ∧
      ((Registry.insert {} "Post" crossed).writeModule "super" outdated apart).tree = t ∧
      apart.place = ["models", "out.rs"] ∧
      t.node? ["models", "out.rs"] = some (.file text.toUTF8) ∧
      t.node? ["models", "notes"] = some (.file "keep".toUTF8) ∧
      t.node? ["gen"] = some .directory ∧
      ((Registry.insert {} "Post" crossed).writeModule "super" t apart).result = .ok false := by
  obtain ⟨m, hm⟩ := generate_crossed
  obtain ⟨htree, hresult⟩ := Registry.writeModule_of_ok hm outdated apart
  -- the old file does not begin as modules do
  have hother : ("mod old;" : String).toUTF8 ≠ m.text.toUTF8 := by
    intro h
    have hhead := congrArg (·.toList.head?) (String.toByteArray_inj.mp h)
    rw [m.head?_text] at hhead
    cases hhead
  have hupdate : (outdated.put ["gen"] .directory).update ["models"] apart m.text =
      ((outdated.put ["gen"] .directory).put ["models", "out.rs"] (.file m.text.toUTF8),
        .ok true) := FileTree.update_of_other rfl rfl rfl hother
  have hsave : outdated.save apart m.text =
      (outdated.put ["gen"] .directory).update ["models"] apart m.text := rfl
  rw [hsave, hupdate] at htree hresult
  obtain ⟨text, htext, hfile, -, -, hagain, -⟩ :=
    (Registry.writeModule_effect _ "super" outdated apart).2.1 true hresult
  refine ⟨text, _, htext, hresult, rfl, rfl, hfile, ?_, ?_, hagain⟩
  · rw [htree]
    rfl
  · rw [htree]
    rfl

end Sample

end StoreModel
