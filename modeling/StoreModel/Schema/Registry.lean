import StoreModel.Schema.Basic

/-!
# Registries

A registry collects entities under keys. It remembers what was put in, in order and with
repetitions; `sortedEntries` is what it means: for each key the one entity registered under it, in
the order of the keys. One entity may be registered under one key any number of times; two different
entities under one key are a fault.

`deriveEach` derives the schemas of a list of entries and stops at the first fault. The schemas
before it are kept, because progress is reported for each of them.
-/

set_option autoImplicit false

namespace StoreModel

/-- Entities under keys, in the order they were registered. -/
structure Registry where
  entries : List (String × Entity) := []
deriving Repr, Inhabited

namespace Registry

/-- The registry with one more entity. -/
def insert (r : Registry) (key : String) (e : Entity) : Registry :=
  ⟨r.entries ++ [(key, e)]⟩

/-- The registry with all entries of another one. -/
def extend (r s : Registry) : Registry := ⟨r.entries ++ s.entries⟩

/-- The number of registrations, repetitions counted. -/
def size (r : Registry) : Nat := r.entries.length

def isEmpty (r : Registry) : Bool := r.entries.isEmpty

/-- The order of entries: by key, and under one key by type name. -/
def entryLE (a b : String × Entity) : Bool :=
  decide (a.1 < b.1) || (a.1 == b.1 && decide (a.2.typeName ≤ b.2.typeName))

/-- Of neighbours that are equal one; neighbours that share no more than their key are a fault. -/
def collapse : List (String × Entity) → Except SchemaError (List (String × Entity))
  | [] => .ok []
  | [e] => .ok [e]
  | e :: f :: r =>
    if e.1 = f.1 then
      if e.2 = f.2 then collapse (f :: r)
      else .error (.duplicateKey f.1 e.2.typeName f.2.typeName)
    else (collapse (f :: r)).map (e :: ·)

/-- The entity under each key, in the order of the keys. -/
def sortedEntries (r : Registry) : Except SchemaError (List (String × Entity)) :=
  collapse (r.entries.mergeSort entryLE)

end Registry

/-- The schemas that were derived, and the fault that stopped the derivation. -/
structure Derivation where
  schemas : List Schema
  fault : Option SchemaError := none
deriving DecidableEq, Repr

/-- Derives the schemas of entries in order, up to the first fault. -/
def deriveEach : List (String × Entity) → Derivation
  | [] => { schemas := [] }
  | (key, e) :: r =>
    match Schema.derive key e with
    | .error err => { schemas := [], fault := some err }
    | .ok s =>
      let d := deriveEach r
      { d with schemas := s :: d.schemas }

/-- The schemas of a registry in the order of their keys, or its first fault. -/
def Registry.schemas (r : Registry) : Except SchemaError (List Schema) := do
  let d := deriveEach (← r.sortedEntries)
  match d.fault with
  | some err => .error err
  | none => .ok d.schemas

end StoreModel
