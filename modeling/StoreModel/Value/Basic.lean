import StoreModel.Value.Binary64
import StoreModel.Value.Timestamp

/-!
# Values and properties

A record is stored as a list of properties: named values, each with two marks. One mark says that
the value is one of several stored under its name, the other that the store shall not index it. The
marks describe how a value was stored; reading a record back looks at names and values only.

Values are of seven kinds. A kind has two names: the one that selects it among the values
(`Kind.variant`), and the name of the type whose fields hold it (`Kind.typeName`), which is what
messages show. The order of the kinds is the order of their declaration.
-/

set_option autoImplicit false

namespace StoreModel

/-! ## Kinds -/

/-- The closed set of kinds a stored value can have. -/
inductive Kind where
  | bool
  | int64
  | float64
  | string
  /-- A raw byte sequence. The store never indexes it. -/
  | bytes
  /-- A short byte string that can be indexed. -/
  | byteString
  | timestamp
deriving DecidableEq, Repr, Inhabited

namespace Kind

/-- Every kind, in order. -/
def all : List Kind := [bool, int64, float64, string, bytes, byteString, timestamp]

/-- The name that selects the kind among the values. -/
def variant : Kind → String
  | bool => "Bool"
  | int64 => "Int64"
  | float64 => "Float64"
  | string => "String"
  | bytes => "Bytes"
  | byteString => "ByteString"
  | timestamp => "Timestamp"

/-- The name of the type whose fields hold values of the kind. -/
def typeName : Kind → String
  | bool => "bool"
  | int64 => "i64"
  | float64 => "f64"
  | string => "String"
  | bytes => "Vec<u8>"
  | byteString => "ByteString"
  | timestamp => "DateTime<Utc>"

/-- The position of the kind in `all`. -/
def rank : Kind → Nat
  | bool => 0
  | int64 => 1
  | float64 => 2
  | string => 3
  | bytes => 4
  | byteString => 5
  | timestamp => 6

/-- The kind that a variant name selects. -/
def ofVariant? (s : String) : Option Kind := all.find? fun k => k.variant == s

/-- The kinds that come before a kind. -/
def below (k : Kind) : List Kind := all.filter fun j => j.rank < k.rank

/-- Values of these kinds are copied by reading them; the others have to be cloned. -/
def isCopy : Kind → Bool
  | bool | int64 | float64 | timestamp => true
  | string | bytes | byteString => false

theorem variant_injective {j k : Kind} (h : j.variant = k.variant) : j = k := by
  revert h; cases j <;> cases k <;> decide

/-- A variant name selects its own kind. -/
theorem ofVariant?_variant (k : Kind) : ofVariant? k.variant = some k := by cases k <;> decide

end Kind

/-! ## Values -/

/-- A short byte string that the store can index. -/
structure ByteString where
  bytes : List UInt8
deriving DecidableEq, Repr, Inhabited

namespace ByteString

/-- The bytes of a text in UTF-8. -/
def ofString (s : String) : ByteString := ⟨s.toUTF8.toList⟩

/-- Byte strings are ordered by their first different byte; a beginning of a byte string comes
before it. -/
def compareBytes : List UInt8 → List UInt8 → Ordering
  | [], [] => .eq
  | [], _ :: _ => .lt
  | _ :: _, [] => .gt
  | a :: as, b :: bs => if a < b then .lt else if b < a then .gt else compareBytes as bs

instance : Ord ByteString where
  compare a b := compareBytes a.bytes b.bytes

end ByteString

/-- A stored value. -/
inductive Value where
  | bool (b : Bool)
  | int64 (n : Int64)
  | float64 (x : Binary64)
  | string (s : String)
  | bytes (bs : List UInt8)
  | byteString (s : ByteString)
  | timestamp (t : Timestamp)
deriving DecidableEq

namespace Value

instance : Inhabited Value := ⟨.bool false⟩

/-- The kind of a value. -/
def kind : Value → Kind
  | bool _ => .bool
  | int64 _ => .int64
  | float64 _ => .float64
  | string _ => .string
  | bytes _ => .bytes
  | byteString _ => .byteString
  | timestamp _ => .timestamp

/-- Equality of values, numbers compared as numbers. -/
def same : Value → Value → Bool
  | float64 x, float64 y => x.sameNumber y
  | v, w => v == w

/-- The value that a new field of a kind holds. -/
def initial : Kind → Value
  | .bool => bool false
  | .int64 => int64 0
  | .float64 => float64 ⟨0⟩
  | .string => string ""
  | .bytes => bytes []
  | .byteString => byteString ⟨[]⟩
  | .timestamp => timestamp .epoch

end Value

/-- A named value with its two marks. -/
structure Property where
  name : String
  value : Value
  multiple : Bool := false
  noIndex : Bool := false
deriving DecidableEq

namespace Property

/-- Marks the value as one of several under its name. -/
def markMultiple (p : Property) : Property := { p with multiple := true }

/-- Excludes the value from the indexes of the store. -/
def markNoIndex (p : Property) : Property := { p with noIndex := true }

/-- Equality of properties, numbers compared as numbers. -/
def same (p q : Property) : Bool :=
  p.name == q.name && p.value.same q.value && p.multiple == q.multiple && p.noIndex == q.noIndex

end Property

end StoreModel
