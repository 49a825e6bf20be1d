import StoreModel.Text.Chars

/-!
# Paths and file trees

The files that output can be written to, and the paths that name them.

A path is a text of names with slashes between them. It is kept as it was given, because messages
show it; `OutputPath.names` is what it means. A tree has directories and files under their places.
The root is always a directory. Looking up a name in a file fails, and so does writing in place of a
directory; nothing else goes wrong, save that names have to be nameable and paths usable.
-/

set_option autoImplicit false

namespace StoreModel

/-! ## Paths

Empty names and the name `.` mean nothing, and the name `..` leads back to the directory before. A
text that is too long, or that holds a zero character, names nothing, whatever its names are. The
directory of a path is its text up to the last name, without what means nothing at its end. -/

/-- A path as it is given. -/
structure OutputPath where
  text : String
deriving DecidableEq, Repr, Inhabited

namespace OutputPath

/-- The names that lead to what the path names. -/
def names (p : OutputPath) : List String :=
  ((Text.splitAt '/' p.text.toList).filter fun n => n != [] && n != ['.']).map String.ofList

/-- The text can be looked up at all: it is shorter than 4096 bytes and has no zero character. -/
def isUsable (p : OutputPath) : Bool :=
  p.text.utf8ByteSize < 4096 && !p.text.toList.contains '\x00'

/-- The name of the file, if the path can name one: it does not end in a slash, nor in one of the
names that only directories have. -/
def fileName? (p : OutputPath) : Option String :=
  match (Text.splitAt '/' p.text.toList).getLast? with
  | none | some [] | some ['.'] | some ['.', '.'] => none
  | some n => some (String.ofList n)

/-- Drops what means nothing from the front of a reversed text: slashes, unless the text is one
slash, and the name `.`, unless the text is that name. -/
def dropIdle : List Char → List Char
  | '/' :: c :: r => dropIdle (c :: r)
  | '.' :: '/' :: r => dropIdle ('/' :: r)
  | r => r

/-- The directory that the last name of the path is looked up in. -/
def directory? (p : OutputPath) : Option OutputPath :=
  match dropIdle p.text.toList.reverse with
  | [] | ['/'] => none
  | r => some ⟨String.ofList (dropIdle (r.dropWhile (· != '/'))).reverse⟩

end OutputPath

/-! ## Trees

`FileTree.addDirectory` adds the directories that are missing on the way to a place. It may fail
halfway and then leaves the ones it has added. -/

/-- The names that lead from the root to a place. -/
abbrev Place := List String

/-- What stands at a place. -/
inductive Node where
  | directory
  | file (content : ByteArray)

/-- A directory stands there. -/
def Node.isDirectory : Node → Bool
  | directory => true
  | file _ => false

/-- What stands at each place, the root left out. -/
structure FileTree where
  entries : List (Place × Node) := []
deriving Inhabited

namespace FileTree

/-- What stands at a place. -/
def node? (t : FileTree) (l : Place) : Option Node :=
  if l = [] then some .directory else (t.entries.find? (·.1 == l)).map (·.2)

/-- The tree with a node put at a place. -/
def put (t : FileTree) (l : Place) (n : Node) : FileTree :=
  ⟨(l, n) :: t.entries.filter (·.1 != l)⟩

/-- A name that a file or a directory may get: neither empty nor longer than 255 bytes, and without
a zero character. -/
def isNameable (name : String) : Bool :=
  0 < name.utf8ByteSize && name.utf8ByteSize ≤ 255 && !name.toList.contains '\x00'

/-- A name can be given to something new in a directory. -/
def hasRoomFor (t : FileTree) (here : Place) (name : String) : Bool :=
  (t.node? here).any Node.isDirectory && isNameable name

/-- The tree with a file written in a directory, new or in place of an older one. -/
def write? (t : FileTree) (here : Place) (name : String) (content : ByteArray) : Option FileTree :=
  match t.node? (here ++ [name]) with
  | some .directory => none
  | some (.file _) => some (t.put (here ++ [name]) (.file content))
  | none => if t.hasRoomFor here name then some (t.put (here ++ [name]) (.file content)) else none

/-- The text of a file. -/
def readText? (t : FileTree) (l : Place) : Option String :=
  match t.node? l with
  | some (.file content) => String.fromUTF8? content
  | _ => none

/-- Adds the directories that are missing on the way along names, and gives the place where the way
ends unless it is blocked. -/
def createDirectories (t : FileTree) (here : Place) : List String → FileTree × Option Place
  | [] => (t, some here)
  | name :: r =>
    if name = ".." then t.createDirectories here.dropLast r
    else
      match t.node? (here ++ [name]) with
      | some .directory => t.createDirectories (here ++ [name]) r
      | some (.file _) => (t, none)
      | none =>
        if t.hasRoomFor here name then
          (t.put (here ++ [name]) .directory).createDirectories (here ++ [name]) r
        else (t, none)

/-- Adds the directories on the way to the directory that a path names, and gives its place unless
the way is blocked. -/
def addDirectory (t : FileTree) (p : OutputPath) : FileTree × Option Place :=
  if p.isUsable then t.createDirectories [] p.names else (t, none)

/-- The place where a way along directories ends. -/
def walk? (t : FileTree) (here : Place) : List String → Option Place
  | [] => some here
  | name :: r =>
    if name = ".." then t.walk? here.dropLast r
    else
      match t.node? (here ++ [name]) with
      | some .directory => t.walk? (here ++ [name]) r
      | _ => none

/-- The directory and the name of the file that a path names, if the directory is there. -/
def locate? (t : FileTree) (p : OutputPath) : Option (Place × String) :=
  if p.isUsable then do
    let here ← t.walk? [] p.names.dropLast
    let name ← p.fileName?
    some (here, name)
  else none

/-! ### The view -/

theorem node?_put (t : FileTree) (l k : Place) (n : Node) (h : l ≠ []) :
    (t.put l n).node? k = if k = l then some n else t.node? k := by
  unfold node? put
  by_cases hk : k = l
  · subst hk
    simp [h]
  · have hne : ((l == k) = false) := by simpa using fun e => hk e.symm
    simp only [hk, if_false]
    by_cases h0 : k = []
    · simp [h0]
    · simp only [h0, if_false, List.find?_cons, hne, List.find?_filter]
      congr 2
      funext e
      by_cases he : e.1 = k <;> simp [he, hk]

end FileTree

end StoreModel
