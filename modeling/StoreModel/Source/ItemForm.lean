import StoreModel.Source.FunctionReader

/-!
# Reading the forms of items

Items stand between statements, in modules, and as members of traits, of implementations and of what
is declared elsewhere. Each form is read as its tokens. An item that a compiler would refuse, or
whose form is known to it alone, is kept as it was written: its reader gives nothing.

The readers for forms go on after the attributes and the visibility, which they are given.
-/

set_option autoImplicit false

namespace StoreModel.Source

variable (n : Nested)

/-- The tokens of an item, or nothing if it is kept as it was written. -/
abbrev FormReader := Reader (Option (List Tree))

/-- A form that is not kept as it was written. -/
def known (reads : List (Reader (List Tree))) : FormReader := do
  let ts ← inOrder reads
  pure (some ts)

/-- An item with its attributes, by the reader for its form, from its beginning on. -/
def readMember? (start attributes : List Tree) (form : FormReader) : Reader (List Tree) := do
  match ← form with
  | some ts => pure (attributes ++ ts)
  | none => writtenSince start

/-! ## Functions, values and names of types -/

/-- A function. Without a body it is kept as it was written. -/
def readFunction (front : List Tree) : FormReader := do
  let signature ← readSignature n false
  if opAhead ";" (← ahead) then
    let _ ← readOp ";"
    pure none
  else known [pure (front ++ signature), readBody n]

/-- A function of a trait, which need not have a body. -/
def readTraitFunction : FormReader := do
  let signature ← readSignature n false
  let ts ← ahead
  if groupAhead .brace ts then known [pure signature, readBody n]
  else if opAhead ";" ts then known [pure signature, readOp ";"]
  else refuseOneOf [.group .brace, .op ";"]

/-- A function that is declared elsewhere. Marked safe or with a body it is kept as it was
written. -/
def readForeignFunction (front : List Tree) : FormReader := do
  let safe := wordIsAhead "safe" (afterWord "async" (afterWord "const" (← ahead)))
  let signature ← readSignature n true
  if groupAhead .brace (← ahead) then
    let _ ← readBody n
    pure none
  else
    let mark ← readOp ";"
    pure (if safe then none else some (front ++ signature ++ mark))

/-- A variable of a module. Without a type or a value it is kept as it was written. -/
def readStatic (front : List Tree) : FormReader := do
  let head ← inOrder [readWord "static", optionalWord "mut", readName]
  if opAhead "=" (← ahead) then
    let _ ← inOrder [readOp "=", n.exprTrees, readOp ";"]
    pure none
  else
    let type ← inOrder [readOp ":", n.typeTrees]
    if opAhead ";" (← ahead) then
      let _ ← readOp ";"
      pure none
    else known [pure (front ++ head ++ type), readOp "=", n.exprTrees, readOp ";"]

/-- A variable that is declared elsewhere. Marked safe or not, or with a value, it is kept as it was
written. -/
def readForeignStatic (front : List Tree) : FormReader := do
  let marks ←
    if wordIsAhead "unsafe" (← ahead) then take 1 else optionalWord "safe"
  let head ← inOrder [
    readWord "static", optionalWord "mut", readName, readOp ":", n.typeTrees]
  let value ← readIf (opAhead "=") (inOrder [readOp "=", n.exprTrees])
  let mark ← readOp ";"
  pure (if marks.isEmpty && value.isEmpty then some (front ++ head ++ mark) else none)

/-- A constant, which has to have a value or not. With parameters or conditions, or without a value
where one is needed, it is kept as it was written. -/
def readConst (needsValue : Bool) (front : List Tree) : FormReader := do
  let word ← readWord "const"
  let ts ← ahead
  let name ←
    if identAhead ts || wordIsAhead "_" ts then take 1 else refuseOneOf [.ident, .word "_"]
  let generics ← readGenerics n
  let type ← inOrder [readOp ":", n.typeTrees]
  let value ← readIf (opAhead "=") (inOrder [readOp "=", n.exprTrees])
  let conditioned := wordIsAhead "where" (← ahead)
  let _ ← readWhere n
  let mark ← readOp ";"
  pure (if generics.declared || conditioned || (needsValue && value.isEmpty) then none
    else some (front ++ word ++ name ++ type ++ value ++ mark))

/-- A name for a type, in its parts. -/
structure TypeName where
  /-- The name and its generic parameters. -/
  head : List Tree
  /-- There is a colon for bounds. -/
  bounded : Bool
  bounds : List Tree
  /-- The equals sign and the type. -/
  definition : List Tree
  conditions : List Tree
  mark : List Tree

/-- A name for a type, with conditions before the equals sign, after the type, or at the first of
both places where they stand. -/
def readTypeName (before after : Bool) : Reader TypeName := do
  let head ← inOrder [readWord "type", readName, readGenericTrees n]
  let bounded := opAhead ":" (← ahead)
  let bounds ← afterColon (readSumTo stop (n.boundTrees true))
  let early := before && wordIsAhead "where" (← ahead)
  let conditions ← if before then readWhere n else pure []
  let definition ← readIf (opAhead "=") (inOrder [readOp "=", n.typeTrees])
  let conditions ← if after && !early then readWhere n else pure conditions
  let mark ← readOp ";"
  pure { head, bounded, bounds, definition, conditions, mark }
where
  /-- The end of the bounds. -/
  stop (ts : List Tree) : Bool := wordIsAhead "where" ts || opAhead "=" ts || opAhead ";" ts

/-- A name for a type as an item. -/
def readTypeItem (front : List Tree) : FormReader := do
  let t ← readTypeName n true false
  pure (if t.bounded || t.definition.isEmpty then none
    else some (front ++ t.head ++ t.conditions ++ t.definition ++ t.mark))

/-- A name for a type in an implementation. -/
def readImplType? (front : List Tree) : FormReader := do
  let t ← readTypeName n false true
  pure (if t.bounded || t.definition.isEmpty then none
    else some (front ++ t.head ++ t.definition ++ t.conditions ++ t.mark))

/-- A name for a type in a trait. -/
def readTraitType : FormReader := do
  let visibility ← readVisibility
  let t ← readTypeName n false true
  pure (if visibility.trees.isEmpty then
      some (t.head ++ t.bounds ++ t.definition ++ t.conditions ++ t.mark)
    else none)

/-- A name for a type that is declared elsewhere. -/
def readForeignType (front : List Tree) : FormReader := do
  let t ← readTypeName n true true
  pure (if t.bounded || !t.definition.isEmpty then none
    else some (front ++ t.head ++ t.conditions ++ t.mark))

/-! ## Calls of code generators -/

/-- The tokens of a call of a code generator, from the path on; a name may stand before the group.
A semicolon ends it unless braces do. -/
def readCall (name : Reader (List Tree)) : FormReader := do
  let front ← inOrder [readModPathTrees, readOp "!", name]
  let tokens ← readTokens
  if groupAhead .brace tokens then known [pure (front ++ tokens)]
  else known [pure (front ++ tokens), readOp ";"]

/-- The ways a call of a code generator can begin. -/
def callStarts : List Start :=
  [.ident, .word "self", .word "super", .word "crate", .op "::"]

/-- A definition of a code generator, which only a compiler knows. -/
def readDefinition : FormReader := do
  let _ ← inOrder [take 1, readName]
  let parens := groupAhead .paren (← ahead)
  let _ ← readIf (groupAhead .paren) (take 1)
  if groupAhead .brace (← ahead) then
    let _ ← take 1
    pure none
  else refuseOneOf (if parens then [.group .brace] else [.group .paren, .group .brace])

/-! ## Modules and imports -/

/-- An import of another program. -/
def readExternCrate (front : List Tree) : FormReader :=
  known [
    pure front, readWord "extern", readWord "crate", readNameOr ["self"],
    readIf (wordIsAhead "as") (inOrder [take 1, readNameOr ["_"]]), readOp ";"]

/-- The ways the tree of an import can begin. -/
def importStarts : List Start :=
  [.ident, .word "self", .word "super", .word "crate", .word "try", .op "*", .group .brace]

/-- The tree of an import, and whether some name in braces begins at the root of a program where the
first flag allows it. The first argument bounds the depth of the tree. -/
def readImport : Nat → Bool → Reader (Bool × List Tree)
  | 0, _ => refuseOneOf importStarts
  | m + 1, root => do
    let ts ← ahead
    if identAhead ts || someWordAhead ["self", "super", "crate", "try"] ts then
      let name ← take 1
      let ts ← ahead
      if opAhead "::" ts then
        let colons ← readOp "::"
        let (_, tree) ← readImport m false
        pure (false, name ++ colons ++ tree)
      else if wordIsAhead "as" ts then
        let word ← take 1
        let ts ← ahead
        if identAhead ts || wordIsAhead "_" ts then
          let newName ← take 1
          pure (false, name ++ word ++ newName)
        else refuse (.expected ["identifier", "underscore"])
      else pure (false, name)
    else if opAhead "*" ts then
      let star ← readOp "*"
      pure (false, star)
    else if groupAhead .brace ts then
      let (trees, comma) ← readInside .brace (readListed List.isEmpty do
        let colons ← if root then optionalOp "::" else pure []
        let (rooted, tree) ← readImport m (root && colons.isEmpty)
        pure (rooted || !colons.isEmpty, colons ++ tree))
      pure (trees.any (·.1), [.group .brace (withCommas (trees.map (·.2)) comma)])
    else refuseOneOf importStarts

/-- An import. With a name in braces that begins at the root of a program it is kept as it was
written. -/
def readUse (front : List Tree) : FormReader := do
  let word ← readWord "use"
  let colons ← optionalOp "::"
  let (rooted, tree) ← readImport (Tree.sizeAll (← ahead) + 1) colons.isEmpty
  let mark ← readOp ";"
  pure (if rooted then none else some (front ++ word ++ colons ++ tree ++ mark))

/-- A module. -/
def readModule (front : List Tree) : FormReader := do
  let head ← inOrder [optionalWord "unsafe", readWord "mod", readNameOr ["try"]]
  let ts ← ahead
  if opAhead ";" ts then known [pure (front ++ head), readOp ";"]
  else if groupAhead .brace ts then
    known [
      pure (front ++ head),
      readGroup .brace (inOrder [readInnerAttributes n, readAllOf (!·.isEmpty) n.item])]
  else refuseOneOf [.op ";", .group .brace]

/-! ## What is declared elsewhere -/

/-- A member of what is declared elsewhere. -/
def readForeignItem : Reader (List Tree) := do
  let start ← ahead
  let attributes ← readAttributeTrees n
  let visibility ← readVisibility
  let front := visibility.trees
  let ts ← ahead
  readMember? start attributes <|
    if signatureAhead true ts then readForeignFunction n front
    else if wordIsAhead "static" ts
        || (someWordAhead ["unsafe", "safe"] ts && wordIsAhead "static" (past 1 ts)) then
      readForeignStatic n front
    else if wordIsAhead "type" ts then readForeignType n front
    else if front.isEmpty && callStarts.any (·.isAhead ts) then readCall (pure [])
    else
      refuseOneOf ([.word "fn", .word "static", .word "type"]
        ++ if front.isEmpty then callStarts else [])

/-- What is declared elsewhere. -/
def readForeignModule (front : List Tree) : FormReader := do
  if front.isEmpty then
    known [
      optionalWord "unsafe", readWord "extern", readIf stringAhead (take 1),
      readGroup .brace
        (inOrder [readInnerAttributes n, readAllOf (!·.isEmpty) (readForeignItem n)])]
  else fail (.expected [token "extern"])

/-! ## Types -/

/-- A declared type, by the word that it begins with and the reader for its body. -/
def readTypeDeclaration (w : String) (body : Reader (Body × List Tree)) (front : List Tree) :
    FormReader :=
  known [
    pure front, readWord w, readName, readGenericTrees n,
    do
      let (_, ts) ← body
      pure ts]

/-! ## Traits -/

/-- A member of a trait. With a visibility or a mark for a default it is kept as it was written. -/
def readTraitItem : Reader (List Tree) := do
  let start ← ahead
  let attributes ← readAttributeTrees n
  let visibility ← readVisibility
  let default ← optionalWord "default"
  let plain := visibility.trees.isEmpty && default.isEmpty
  let ts ← ahead
  let form : FormReader :=
    if signatureAhead false ts then readTraitFunction n
    else if wordIsAhead "const" ts then do
      let second := past 1 ts
      if identAhead second || wordIsAhead "_" second then readConst n false []
      else if someWordAhead ["async", "unsafe", "extern", "fn"] second then readTraitFunction n
      else
        let _ ← take 1
        refuseOneOf [.ident, .word "_", .word "async", .word "unsafe", .word "extern", .word "fn"]
    else if wordIsAhead "type" ts then readTraitType n
    else if plain && callStarts.any (·.isAhead ts) then readCall (pure [])
    else
      refuseOneOf ([.word "fn", .word "const", .word "type"] ++ if plain then callStarts else [])
  readMember? start attributes do
    let ts ← form
    pure (if plain then ts else none)

/-- What follows the name and the parameters of a trait. -/
def readTraitBody : Reader (List Tree) :=
  inOrder [
    afterColon (readSumTo stop (n.boundTrees true)), readWhere n,
    readGroup .brace (inOrder [readInnerAttributes n, readAllOf (!·.isEmpty) (readTraitItem n)])]
where
  /-- The end of the bounds. -/
  stop (ts : List Tree) : Bool := wordIsAhead "where" ts || groupAhead .brace ts

/-- A trait with marks before it. -/
def readMarkedTrait (front : List Tree) : FormReader :=
  known [
    pure front, optionalWord "unsafe", optionalWord "auto", readWord "trait", readName,
    readGenericTrees n, readTraitBody n]

/-- A trait, or another name for bounds. -/
def readTraitItemForm (front : List Tree) : FormReader := do
  let head ← inOrder [readWord "trait", readName, readGenericTrees n]
  let ts ← ahead
  if groupAhead .brace ts || opAhead ":" ts || wordIsAhead "where" ts then
    known [pure (front ++ head), readTraitBody n]
  else if opAhead "=" ts then
    let stop (ts : List Tree) : Bool := wordIsAhead "where" ts || opAhead ";" ts
    known [
      pure (front ++ head), readOp "=", readSumTo stop (n.boundTrees false), readWhere n,
      readOp ";"]
  else refuseOneOf [.group .brace, .op ":", .word "where", .op "="]

/-! ## Implementations -/

/-- A member of an implementation. -/
def readImplItem : Reader (List Tree) := do
  let start ← ahead
  let attributes ← readAttributeTrees n
  let visibility ← readVisibility
  let default ←
    readIf (fun ts => wordIsAhead "default" ts && !opAhead "!" (past 1 ts)) (take 1)
  let front := visibility.trees ++ default
  let ts ← ahead
  readMember? start attributes <|
    if signatureAhead false ts then readFunction n front
    else if wordIsAhead "const" ts then readConst n true front
    else if wordIsAhead "type" ts then readImplType? n front
    else if front.isEmpty && callStarts.any (·.isAhead ts) then readCall (pure [])
    else
      refuseOneOf
        ((if default.isEmpty then [.word "default"] else [])
          ++ [.word "fn", .word "const", .word "type"]
          ++ if front.isEmpty then callStarts else [])

/-- An implementation, of a trait or not. With a visibility, for a constant trait, or of what is no
trait it is kept as it was written. -/
def readImplementation (visible : Bool) : FormReader := do
  let head ← inOrder [optionalWord "default", optionalWord "unsafe", readWord "impl"]
  let generics ← readIf parametersAhead (readGenericTrees n)
  let ts ← ahead
  let isConst := wordIsAhead "const" ts || (opAhead "?" ts && wordIsAhead "const" (past 1 ts))
  let _ ← if isConst then inOrder [optionalOp "?", take 1] else pure []
  let negative ← readIf (fun ts => opAhead "!" ts && !groupAhead .brace (past 1 ts)) (readOp "!")
  let first ← n.type true
  let ofTrait := wordIsAhead "for" (← ahead)
  if !ofTrait && !negative.isEmpty then fail .negativeInherent
  else
    let type ← readIf (wordIsAhead "for") (inOrder [take 1, n.typeTrees])
    let rest ← inOrder [
      readWhere n,
      readGroup .brace (inOrder [readInnerAttributes n, readAllOf (!·.isEmpty) (readImplItem n)])]
    pure (if visible || isConst || (ofTrait && !first.isPath) then none
      else some (head ++ generics ++ negative ++ first.trees ++ type ++ rest))

/-! ## All forms -/

/-- The ways an item can begin. -/
def itemStarts : List Start :=
  ["fn", "extern", "use", "static", "const", "unsafe", "mod", "type", "struct", "enum", "union",
    "trait", "auto", "impl", "default", "macro"].map .word

/-- What follows the visibility of an item. -/
def readItemForm (front : List Tree) : FormReader := do
  let ts ← ahead
  let second := past 1 ts
  if signatureAhead false ts then readFunction n front
  else if wordIsAhead "extern" ts then
    if wordIsAhead "crate" second then readExternCrate front
    else if groupAhead .brace second then readForeignModule n front
    else if stringAhead second then
      if groupAhead .brace (past 2 ts) then readForeignModule n front
      else
        let _ ← take 2
        refuseOneOf [.group .brace]
    else
      let _ ← take 1
      refuseOneOf [.word "crate", .group .brace, .stringLiteral]
  else if wordIsAhead "use" ts then readUse front
  else if wordIsAhead "static" ts then readStatic n front
  else if wordIsAhead "const" ts then readConst n true front
  else if wordIsAhead "unsafe" ts then
    if wordIsAhead "trait" second
        || (wordIsAhead "auto" second && wordIsAhead "trait" (past 2 ts)) then
      readMarkedTrait n front
    else if wordIsAhead "impl" second then readImplementation n (!front.isEmpty)
    else if wordIsAhead "extern" second then readForeignModule n front
    else if wordIsAhead "mod" second then readModule n front
    else
      let _ ← take 1
      refuseOneOf [.word "trait", .word "auto", .word "impl", .word "extern", .word "mod"]
  else if wordIsAhead "mod" ts then readModule n front
  else if wordIsAhead "type" ts then readTypeItem n front
  else if wordIsAhead "struct" ts then readTypeDeclaration n "struct" (readStructBody n) front
  else if wordIsAhead "enum" ts then readTypeDeclaration n "enum" (readEnumBody n) front
  else if wordIsAhead "union" ts && identAhead second then
    readTypeDeclaration n "union" (readUnionBody n) front
  else if wordIsAhead "trait" ts then readTraitItemForm n front
  else if wordIsAhead "auto" ts && wordIsAhead "trait" second then readMarkedTrait n front
  else if wordIsAhead "impl" ts || (wordIsAhead "default" ts && !opAhead "!" second) then
    readImplementation n (!front.isEmpty)
  else if wordIsAhead "macro" ts then readDefinition
  else if front.isEmpty && callStarts.any (·.isAhead ts) then
    readCall (readIf (fun ts => wordIsAhead "try" ts || identAhead ts) (take 1))
  else refuseOneOf (itemStarts ++ if front.isEmpty then callStarts else [])

/-- An item whose attributes have been read, from its beginning on. -/
def readItemAfter (start attributes : List Tree) : Reader (List Tree) := do
  let visibility ← readVisibility
  readMember? start attributes (readItemForm n visibility.trees)

/-- An item among others. -/
def readAnyItem : Reader (List Tree) := do
  let start ← ahead
  let attributes ← readAttributeTrees n
  readItemAfter n start attributes

end StoreModel.Source
