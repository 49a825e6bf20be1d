import Mathlib.Data.List.Basic
import StoreModel.Output.FileTree

/-!
# Where the directory of a path leads

The directory of a path is found on its text, by dropping what stands at the end; where a path leads
is told by its names. The two fit together: the names of the directory are those of the path without
the last one (`OutputPath.names_directory`), and if the path names a file, the name left out is the
name of the file (`OutputPath.names_eq_append`).

The text is looked at from its end, so the names are too: names of a reversed text are the reversed
names in reversed order, and `dropIdle` drops from the front of it only what names nothing.
-/

set_option autoImplicit false

namespace StoreModel.OutputPath

open StoreModel.Text

variable {p d : OutputPath}

/-! ## Names of a text -/

/-- A piece between slashes that is a name. -/
def isMeant (n : List Char) : Bool := n != [] && n != ['.']

/-- The names in a text. -/
def meant (cs : List Char) : List (List Char) := (splitAt '/' cs).filter isMeant

theorem names_eq (p : OutputPath) : p.names = (meant p.text.toList).map String.ofList := rfl

theorem meant_slash (cs : List Char) : meant ('/' :: cs) = meant cs := by
  unfold meant
  rw [splitAt, if_pos rfl, List.filter_cons_of_neg (by simp [isMeant])]

theorem meant_dot_slash (cs : List Char) : meant ('.' :: '/' :: cs) = meant cs := by
  unfold meant
  rw [show '.' :: '/' :: cs = ['.'] ++ '/' :: cs from rfl, splitAt_append (by simp),
    List.filter_cons_of_neg (by simp [isMeant])]

theorem meant_reverse (cs : List Char) :
    meant cs.reverse = ((meant cs).map List.reverse).reverse := by
  unfold meant
  rw [splitAt_reverse, List.filter_reverse, List.filter_map]
  refine congrArg (fun l => (List.map List.reverse l).reverse) (List.filter_congr fun n _ => ?_)
  have hone : n.reverse = ['.'] ↔ n = ['.'] := by rw [List.reverse_eq_iff]; rfl
  rw [Function.comp_apply, Bool.eq_iff_iff]
  simp [isMeant, hone]

/-- Idle characters mean nothing: dropping them takes no name away. The cases are those of
`dropIdle`, a slash before more text, a dot between slashes, and the end of what is idle. -/
theorem meant_dropIdle (cs : List Char) : meant (dropIdle cs) = meant cs := by
  fun_induction dropIdle cs with
  | case1 c r ih => rw [ih, meant_slash (c :: r)]
  | case2 r ih => rw [ih, meant_slash, meant_dot_slash]
  | case3 r => rfl

theorem dropWhile_eq_nil {n : List Char} (h : '/' ∉ n) : n.dropWhile (· != '/') = [] := by
  induction n with
  | nil => rfl
  | cons c n ih =>
    rw [List.mem_cons, not_or] at h
    rw [List.dropWhile_cons_of_pos (by simpa using Ne.symm h.1), ih h.2]

theorem dropWhile_append_slash {n : List Char} (h : '/' ∉ n) (cs : List Char) :
    (n ++ '/' :: cs).dropWhile (· != '/') = '/' :: cs := by
  rw [List.dropWhile_append, dropWhile_eq_nil h]
  rfl

/-- What is left after idle characters starts with a name, if it has any, and cutting off the text
up to the next slash takes exactly this name. -/
theorem meant_dropWhile (cs : List Char) :
    meant ((dropIdle cs).dropWhile (· != '/')) = (meant (dropIdle cs)).tail := by
  fun_induction dropIdle cs with
  | case1 c r ih => exact ih
  | case2 r ih => exact ih
  | case3 r hslash hdot =>
    obtain ⟨n, ns, hsplit⟩ := List.exists_cons_of_ne_nil (splitAt_ne_nil '/' r)
    obtain ⟨hn, ⟨rfl, rfl⟩ | ⟨q, rfl, rfl⟩⟩ := of_splitAt_eq_cons hsplit
    · rw [dropWhile_eq_nil hn]
      unfold meant
      rw [hsplit, List.filter_cons]
      split
      · rfl
      · rfl
    · rw [dropWhile_append_slash hn, meant_slash]
      cases hname : isMeant n with
      | true => rw [meant, meant, hsplit, List.filter_cons_of_pos hname, List.tail_cons]
      | false =>
        -- nothing idle is in front, so this is one slash and nothing else
        have hidle : n = [] ∨ n = ['.'] := by simpa [isMeant, or_iff_not_imp_left] using hname
        rcases hidle with rfl | rfl
        · cases q with
          | nil => rfl
          | cons c q => exact absurd rfl (hslash c q)
        · exact absurd rfl (hdot q)

/-! ## The directory -/

/-- The directory has the names of the path without the last one. The text is cut from its end, so
the names are counted on the reversed text, where the last name is the first. -/
theorem names_directory (h : p.directory? = some d) : d.names = p.names.dropLast := by
  have hd : d = ⟨String.ofList
      (dropIdle ((dropIdle p.text.toList.reverse).dropWhile (· != '/'))).reverse⟩ := by
    unfold directory? at h
    split at h
    · cases h
    · cases h
    · exact (Option.some.inj h).symm
  rw [hd, names_eq, names_eq, String.toList_ofList, meant_reverse, meant_dropIdle, meant_dropWhile,
    meant_dropIdle, meant_reverse, List.tail_reverse]
  simp only [List.map_reverse, List.reverse_reverse, List.map_dropLast, List.map_map]
  simp

/-- A path without a directory leads nowhere: its text is idle from end to end, or it is the root.
-/
theorem names_eq_nil (h : p.directory? = none) : p.names = [] := by
  have hidle : meant (dropIdle p.text.toList.reverse) = [] := by
    unfold directory? at h
    split at h
    case h_1 hnil =>
      rw [hnil]
      rfl
    case h_2 hslash =>
      rw [hslash]
      rfl
    case h_3 => cases h
  rw [meant_dropIdle, meant_reverse, List.reverse_eq_nil_iff, List.map_eq_nil_iff] at hidle
  rw [names_eq, hidle, List.map_nil]

/-! ## The name of the file -/

/-- The name of a file is the last name of its path and does not lead back, so the file stands in
the directory under this name. -/
theorem names_eq_append {n : String} (h : p.fileName? = some n) :
    n ≠ ".." ∧ p.names = p.names.dropLast ++ [n] := by
  unfold fileName? at h
  split at h
  case h_5 last hnil hdot hdots hlast =>
    rw [← Option.some.inj h]
    obtain ⟨ns, hns⟩ := List.getLast?_eq_some_iff.mp hlast
    have hmeant : isMeant last = true := by
      simp only [isMeant, Bool.and_eq_true, bne_iff_ne]
      exact ⟨hnil, hdot⟩
    refine ⟨fun he => hdots ?_, ?_⟩
    · rw [← String.toList_inj, String.toList_ofList] at he
      exact he
    · rw [names_eq, meant, hns, List.filter_append, List.filter_cons_of_pos hmeant,
        List.filter_nil, List.map_append, List.map_singleton, List.dropLast_concat]
  -- no file has an empty name or one that leads somewhere else
  all_goals cases h

end StoreModel.OutputPath
