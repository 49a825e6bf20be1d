import StoreModel.Record.Saving

/-!
# Loading records

Loading runs the code of an implementation on a record. It empties the sequences of the record and
then takes the properties one by one: the first arm with the name of the property says which field
its value goes to. Properties that no arm asks for are passed over, and no arm looks at the marks.

The first value of a wrong kind ends the loading with the mismatch of its arm. What was loaded
before it stays in the record, so the result has a record in either case.
-/

set_option autoImplicit false

namespace StoreModel

/-! ## Changes to records

`Record.set` and `Record.modify` change the slot of one field and leave the others alone. -/

namespace Slot

/-- The slot with one more element at its end, if it holds a sequence. -/
def push (v : Value) : Slot → Slot
  | many vs => many (vs ++ [v])
  | s => s

@[simp] theorem push_many (v : Value) (vs : List Value) : push v (many vs) = many (vs ++ [v]) := rfl

end Slot

namespace Record

/-- The record with the slot of a field changed. -/
def modify (r : Record) (field : String) (f : Slot → Slot) : Record :=
  ⟨r.slots.map fun e => if e.1 = field then (e.1, f e.2) else e⟩

/-- The record with the slot of a field replaced. -/
def set (r : Record) (field : String) (s : Slot) : Record := r.modify field fun _ => s

theorem get?_modify (r : Record) (field name : String) (f : Slot → Slot) :
    (r.modify field f).get? name = if name = field then (r.get? name).map f else r.get? name := by
  have keep : ((·.1 == name) ∘ fun e : String × Slot => if e.1 = field then (e.1, f e.2) else e) =
      (·.1 == name) := by
    funext e
    by_cases h : e.1 = field <;> simp [h]
  simp only [get?, modify, List.find?_map, keep, Option.map_map]
  cases h : r.slots.find? (·.1 == name) with
  | none => simp
  | some e =>
    have he : e.1 = name := by simpa using List.find?_some h
    by_cases hf : name = field <;> simp [he, hf]

theorem get?_set (r : Record) (field name : String) (s : Slot) :
    (r.set field s).get? name =
      if name = field then (r.get? name).map fun _ => s else r.get? name :=
  get?_modify r field name fun _ => s

end Record

/-! ## Loading -/

/-- The record after loading, and the mismatch that ended it. -/
structure Loaded where
  record : Record
  fault : Option Mismatch := none
deriving DecidableEq

/-- The record with a value taken by an arm. -/
def Arm.take (a : Arm) (r : Record) (v : Value) : Record :=
  if a.push then r.modify a.field.text (Slot.push v) else r.set a.field.text (.one v)

namespace Implementation

/-- The arm for the properties of a name. -/
def arm? (i : Implementation) (name : String) : Option Arm := i.arms.find? (·.name == name)

/-- The record with its sequences emptied. -/
def reset (i : Implementation) (r : Record) : Record :=
  i.resets.foldl (fun r f => r.set f.text (.many [])) r

/-- The record with one property taken. -/
def takeProperty (i : Implementation) (r : Record) (p : Property) : Except Mismatch Record :=
  match i.arm? p.name with
  | none => .ok r
  | some a => if p.value.kind = a.kind then .ok (a.take r p.value) else .error a.mismatch

/-- The record with properties taken in order, up to the first mismatch. -/
def takeProperties (i : Implementation) : Record → List Property → Loaded
  | r, [] => { record := r }
  | r, p :: ps =>
    match i.takeProperty r p with
    | .ok r => i.takeProperties r ps
    | .error m => { record := r, fault := some m }

/-- Loads properties into a record. -/
def load (i : Implementation) (r : Record) (ps : List Property) : Loaded :=
  i.takeProperties (i.reset r) ps

/-- Properties after others are taken only if those left no mismatch. -/
theorem takeProperties_append (i : Implementation) (r : Record) (ps qs : List Property) :
    i.takeProperties r (ps ++ qs) =
      match (i.takeProperties r ps).fault with
      | none => i.takeProperties (i.takeProperties r ps).record qs
      | some _ => i.takeProperties r ps := by
  induction ps generalizing r with
  | nil => rfl
  | cons p ps ih =>
    simp only [List.cons_append, takeProperties]
    cases i.takeProperty r p with
    | error m => rfl
    | ok r => exact ih r

end Implementation

end StoreModel
