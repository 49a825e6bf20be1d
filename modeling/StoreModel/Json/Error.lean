import StoreModel.Text.Quoted
import StoreModel.Json.Number

/-!
# Why a JSON text is not read

Reading is guided by what is expected, so there are three ways to fail: the text ends too early, it
is not JSON at the place where the reader stands, or it is JSON that does not fit what is expected
there. The first fault in the order of the text decides. Only the third way has something to say
about the data, and `DataError` says it.
-/

set_option autoImplicit false

namespace StoreModel.Json

/-- What stands where something else was expected. -/
inductive Found where
  | null
  | boolean (b : Bool)
  | integer (n : Int)
  | floating (x : Binary64)
  | string (s : String)
  | sequence
  | map
  /-- The name of a kind of value without its content. -/
  | bareVariant
deriving DecidableEq

/-- What was expected. -/
inductive Expected where
  | boolean
  | int64
  | float64
  | byte
  | string
  | sequence
  | timestamp
  | property
  | variantName
  /-- The name of a kind of value with its content. -/
  | fullVariant
deriving DecidableEq

/-- JSON that is not the data that was expected. -/
inductive DataError where
  | missingField (name : String)
  | duplicateField (name : String)
  | unknownVariant (name : String)
  | wrongType (found : Found) (expected : Expected)
  | outOfRange (n : Int) (expected : Expected)
  | tooShort (count : Nat)
  | badTimestamp (cause : Timestamp.ReadError)
deriving DecidableEq

/-- Why a text is not read. -/
inductive ReadError where
  | endOfText
  | malformed
  | data (cause : DataError)
deriving DecidableEq

/-- A text between back quotes. -/
def marked (s : String) : String := "\x60" ++ s ++ "\x60"

def Found.text : Found → String
  | null => "null"
  | boolean b => "boolean " ++ marked (if b then "true" else "false")
  | integer n => "integer " ++ marked (intText n)
  | floating x => "floating point " ++ marked (floatText x)
  | string s => "string " ++ Text.quoteMessage s
  | sequence => "sequence"
  | map => "map"
  | bareVariant => "unit variant"

def Expected.text : Expected → String
  | boolean => "a boolean"
  | int64 => "i64"
  | float64 => "f64"
  | byte => "u8"
  | string => "a string"
  | sequence => "a sequence"
  | timestamp => "an RFC 3339 formatted date and time string"
  | property => "struct Property"
  | variantName => "variant identifier"
  | fullVariant => "newtype variant"

/-- The text of a data error. -/
def DataError.message : DataError → String
  | missingField n => "missing field " ++ marked n
  | duplicateField n => "duplicate field " ++ marked n
  | unknownVariant n =>
    "unknown variant " ++ marked n ++ ", expected one of " ++
      ", ".intercalate (Kind.all.map fun k => marked k.variant)
  | wrongType f e => "invalid type: " ++ f.text ++ ", expected " ++ e.text
  | outOfRange n e => "invalid value: integer " ++ marked (intText n) ++ ", expected " ++ e.text
  | tooShort n =>
    "invalid length " ++ intText n ++ ", expected struct Property with 4 elements"
  | badTimestamp e => e.message

end StoreModel.Json
