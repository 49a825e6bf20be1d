import StoreModel.Value.Basic

/-!
# Numbers in JSON text

Integers are written in decimal digits. A floating-point number is written with the fewest digits
that read back: in positional notation, always with a point, if the exponent of its first digit is
between −5 and 15, and with an exponent otherwise.

The reader keeps whole numbers of up to 64 bits exact and takes everything else as floating point:
numbers with a fraction or an exponent, whole numbers beyond 64 bits, and the negative zero. It
collects the digits that fit into 64 bits as one whole number and multiplies or divides that once by
a power of ten; digits beyond are dropped. This is fast, and exact for short numbers.
-/

set_option autoImplicit false

namespace StoreModel.Json

open StoreModel.Text

/-! ## Writing -/

/-- An integer in decimal digits. -/
def intText (n : Int) : String :=
  let ds := Nat.toDigits 10 n.natAbs
  String.ofList (if n < 0 then '-' :: ds else ds)

/-- Digits with a point after the first `point` of them, zeros filled in where digits lack. -/
def positional (ds : List Char) (point : Int) : List Char :=
  if point ≤ 0 then '0' :: '.' :: (List.replicate (-point).toNat '0' ++ ds)
  else
    let p := point.toNat
    let whole := ds.take p ++ List.replicate (p - ds.length) '0'
    let fraction := ds.drop p
    whole ++ '.' :: (if fraction.isEmpty then ['0'] else fraction)

/-- Digits with a point after the first, and an exponent with its sign. -/
def scientific (ds : List Char) (e : Int) : List Char :=
  let mantissa := match ds with
    | [] => []
    | [d] => [d]
    | d :: r => d :: '.' :: r
  mantissa ++ 'e' :: (if e < 0 then '-' else '+') :: Nat.toDigits 10 e.natAbs

/-- A floating-point number; one that is infinite or not a number is written `null`. -/
def floatChars (x : Binary64) : List Char :=
  if x.isFinite then
    let magnitude :=
      if x.isZero then ['0', '.', '0']
      else
        let (c, scale) := x.shortestDecimal
        let ds := Nat.toDigits 10 c
        let e := scale + ds.length - 1
        if -5 ≤ e ∧ e ≤ 15 then positional ds (e + 1) else scientific ds e
    if x.isNegative then '-' :: magnitude else magnitude
  else ['n', 'u', 'l', 'l']

/-- A floating-point number. -/
def floatText (x : Binary64) : String := String.ofList (floatChars x)

/-! ## Reading -/

/-- A number as it was read. -/
inductive Number where
  | whole (n : Int)
  | floating (x : Binary64)
deriving DecidableEq

/-- Why no number is read. -/
inductive NumberError where
  | endOfText
  | malformed
deriving DecidableEq

/-- The largest whole number of 64 bits. -/
def maxWhole : Nat := 0xFFFFFFFFFFFFFFFF

/-- A power of ten within the range of floating-point numbers. -/
def powerOfTen (n : Nat) : Float := Float.ofScientific 1 false n

/-- Divides until the exponent is small or nothing is left. Three steps always suffice: they take
the largest significand below the least number. -/
def shrink : Nat → Float → Int → Float
  | 0, f, _ => f
  | n + 1, f, e =>
    if -308 ≤ e then f / powerOfTen (-e).toNat
    else if f == 0 then f
    else shrink n (f / powerOfTen 308) (e + 308)

/-- A significand times a power of ten; a number beyond the range is malformed. -/
def scaled (positive : Bool) (significand : Nat) (e : Int) : Except NumberError Number :=
  let f := (UInt64.ofNat significand).toFloat
  let signed (g : Float) : Number :=
    .floating (if positive then .ofFloat g else (Binary64.ofFloat g).negate)
  if e < 0 then .ok (signed (shrink 4 f e))
  else if e ≤ 308 then
    let g := f * powerOfTen e.toNat
    if g.isInf then .error .malformed else .ok (signed g)
  else if f == 0 then .ok (signed f)
  else .error .malformed

/-- The rest of a number after the letter that begins its exponent. -/
def readExponent (positive : Bool) (significand : Nat) (e : Int) (cs : List Char) :
    Except NumberError (Number × List Char) :=
  let (negative, cs) := match cs with
    | '+' :: r => (false, r)
    | '-' :: r => (true, r)
    | cs => (false, cs)
  match cs with
  | [] => .error .endOfText
  | c :: _ =>
    if c.isDigit then
      let ds := cs.takeWhile Char.isDigit
      let x : Int := digitsValue ds
      match scaled positive significand (if negative then e - x else e + x) with
      | .ok n => .ok (n, cs.dropWhile Char.isDigit)
      | .error err => .error err
    else .error .malformed

/-- The rest of a number after all its digits. -/
def readAfterDigits (positive : Bool) (significand : Nat) (e : Int) (cs : List Char) :
    Except NumberError (Number × List Char) :=
  match cs with
  | 'e' :: r | 'E' :: r => readExponent positive significand e r
  | cs =>
    match scaled positive significand e with
    | .ok n => .ok (n, cs)
    | .error err => .error err

/-- Collects the digits of a fraction while they fit. -/
def collectFraction : Nat → Int → List Char → Nat × Int × List Char
  | n, e, [] => (n, e, [])
  | n, e, c :: r =>
    if c.isDigit then
      let m := n * 10 + digitValue c
      if m ≤ maxWhole then collectFraction m (e - 1) r else (n, e, r.dropWhile Char.isDigit)
    else (n, e, c :: r)

/-- The rest of a number after its point. -/
def readFraction (positive : Bool) (significand : Nat) (e : Int) (cs : List Char) :
    Except NumberError (Number × List Char) :=
  match cs with
  | [] => .error .endOfText
  | c :: _ =>
    if c.isDigit then
      let (n, e, r) := collectFraction significand e cs
      readAfterDigits positive n e r
    else .error .malformed

/-- The digits of a whole number: the value of those that fit, and how many do not. -/
def collectWhole : Nat → List Char → Nat × Nat × List Char
  | n, [] => (n, 0, [])
  | n, c :: r =>
    if c.isDigit then
      let m := n * 10 + digitValue c
      if m ≤ maxWhole then collectWhole m r
      else (n, ((c :: r).takeWhile Char.isDigit).length, (c :: r).dropWhile Char.isDigit)
    else (n, 0, c :: r)

/-- A number after its sign. -/
def readNumber (positive : Bool) (cs : List Char) : Except NumberError (Number × List Char) :=
  match cs with
  | [] => .error .endOfText
  | c :: r =>
    if c.isDigit then
      let (n, dropped, rest) := if c = '0' then (0, 0, r) else collectWhole 0 cs
      match rest with
      | '.' :: r => readFraction positive n dropped r
      | 'e' :: r | 'E' :: r => readExponent positive n dropped r
      | rest =>
        if c = '0' ∧ digitAhead rest then .error .malformed
        else if dropped ≠ 0 then
          match scaled positive n dropped with
          | .ok x => .ok (x, rest)
          | .error err => .error err
        else if positive then .ok (.whole n, rest)
        else if n = 0 ∨ 0x8000000000000000 < n then
          .ok (.floating (Binary64.ofFloat (UInt64.ofNat n).toFloat).negate, rest)
        else .ok (.whole (-(n : Int)), rest)
    else .error .malformed

end StoreModel.Json
