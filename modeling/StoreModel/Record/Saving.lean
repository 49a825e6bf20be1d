import StoreModel.Entity.Basic
import StoreModel.Module.Basic

/-!
# Records and saving them

A record of an entity has a slot for each field, exported or not. What a slot holds follows from the
shape of the field: one value, the elements of a sequence, or something of a type that the store
knows nothing about; of this only its text is kept. The view of a record is `Record.get?`. A record
belongs to an entity (`Record.fits`) if it has exactly the entity's fields and every slot holds what
the shape of its field asks for.

Saving runs the code of an implementation on a record and gives its properties: one for a field with
a single value, one for each element of a sequence. The code fits only records whose slots hold
values of the right kinds; for other records there are no properties at all.
-/

set_option autoImplicit false

namespace StoreModel

/-! ## Records -/

/-- What a field of a record holds. -/
inductive Slot where
  | one (v : Value)
  | many (vs : List Value)
  /-- Something of a type that is never stored, by its text if there is one. -/
  | other (text : Option String)
deriving DecidableEq

namespace Slot

instance : Inhabited Slot := ⟨.other none⟩

/-- The slot that a new record has for a field of a shape. -/
def initial (s : Shape) : Slot :=
  match s.mapping with
  | .ok m => if m.multiple then many [] else one (Value.initial m.kind)
  | .error _ => other none

/-- A slot holds what a shape asks for. -/
def fits (s : Shape) (slot : Slot) : Bool :=
  match s.mapping, slot with
  | .ok m, one v => !m.multiple && v.kind == m.kind
  | .ok m, many vs => m.multiple && vs.all (·.kind == m.kind)
  | .ok _, other _ => false
  | .error _, other _ => true
  | .error _, _ => false

end Slot

/-- The slots of a record under the names of the fields. -/
structure Record where
  slots : List (String × Slot)
deriving DecidableEq, Inhabited

namespace Record

/-- The slot of a field. -/
def get? (r : Record) (field : String) : Option Slot :=
  (r.slots.find? (·.1 == field)).map (·.2)

/-- The new record of an entity. -/
def initial (e : Entity) : Record := ⟨e.fields.map fun f => (f.name, Slot.initial f.shape)⟩

/-- A record belongs to an entity. -/
def fits (e : Entity) (r : Record) : Bool :=
  r.slots.map (·.1) == e.fields.map (·.name) &&
    (r.slots.zip e.fields).all fun p => p.1.2.fits p.2.shape

end Record

/-! ## Saving -/

namespace Saving

/-- The property that holds a value of the field. -/
def property (s : Saving) (v : Value) : Property :=
  { name := s.name, value := v, multiple := s.loop, noIndex := s.noIndex }

/-- The properties of a slot. -/
def properties? (s : Saving) : Slot → Option (List Property)
  | .one v => if !s.loop && v.kind == s.kind then some [s.property v] else none
  | .many vs =>
    if s.loop && vs.all (·.kind == s.kind) then some (vs.map s.property) else none
  | .other _ => none

end Saving

/-- The properties of fields of a record in order. -/
def saveFields? (r : Record) : List Saving → Option (List Property)
  | [] => some []
  | s :: ss => do
    let slot ← r.get? s.field.text
    let ps ← s.properties? slot
    let qs ← saveFields? r ss
    some (ps ++ qs)

/-- Saves a record as properties. -/
def Implementation.save? (i : Implementation) (r : Record) : Option (List Property) :=
  saveFields? r i.savings

end StoreModel
