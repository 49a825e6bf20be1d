import StoreModel.Output.FileTree
import StoreModel.Output.Outcome

/-!
# Writing a module to a file

The module for a registry goes to a file only if it is not there already: a file that holds exactly
its text is left alone. Directories that are missing on the way are added. Nothing is touched when
no module is generated, and no file is touched when the writing fails.
-/

set_option autoImplicit false

namespace StoreModel

/-- Why no module is written. -/
inductive OutputError where
  | generation (cause : GenerationError)
  /-- The directory of the file cannot be had. -/
  | directory (path : OutputPath)
  | file (path : OutputPath)
deriving DecidableEq, Repr

/-- The text of an error. -/
def OutputError.message : OutputError → String
  | generation cause => cause.message
  | directory path => "Failed to create directory " ++ path.text
  | file path => "Failed to write " ++ path.text

/-- Writes a text to the file that a path names, in a directory that is there. The result is whether
the file had to be changed. -/
def FileTree.update (t : FileTree) (here : Place) (path : OutputPath) (text : String) :
    FileTree × Except OutputError Bool :=
  match if path.isUsable then path.fileName? else none with
  | none => (t, .error (.file path))
  | some name =>
    if t.readText? (here ++ [name]) = some text then (t, .ok false)
    else
      match t.write? here name text.toUTF8 with
      | some t => (t, .ok true)
      | none => (t, .error (.file path))

/-- Writes a text to the file that a path names, with the directories on the way. -/
def FileTree.save (t : FileTree) (path : OutputPath) (text : String) :
    FileTree × Except OutputError Bool :=
  match path.directory? with
  | none => t.update [] path text
  | some d =>
    match t.addDirectory d with
    | (t, some here) => t.update here path text
    | (t, none) => (t, .error (.directory d))

/-- The files after a module was to be written, the log, and whether its file had to be changed. -/
structure Writing where
  tree : FileTree
  log : List LogRecord
  result : Except OutputError Bool

/-- Writes the module for a registry, with types imported from a path. -/
def Registry.writeModule (r : Registry) (importPath : String) (t : FileTree) (path : OutputPath) :
    Writing :=
  let g := r.generate importPath
  match g.result with
  | .error e => { tree := t, log := g.log, result := .error (.generation e) }
  | .ok text =>
    match t.save path text with
    | (t, .error e) => { tree := t, log := g.log, result := .error e }
    | (t, .ok true) =>
      { tree := t, log := g.log ++ [.generated path.text r.size], result := .ok true }
    | (t, .ok false) =>
      { tree := t, log := g.log ++ [.upToDate path.text], result := .ok false }

end StoreModel
