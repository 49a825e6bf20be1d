/-!
# Floating-point numbers

A number of 64 bits in binary floating point, held by its bits: two values are the same value only
if every bit agrees, so a stored number comes back unchanged, signs of zero and payloads included.
Comparing them as numbers is a different matter (`Binary64.sameNumber`): zeros of either sign are
one number, and a value that is not a number equals nothing. A number is printed as the shortest
decimal that reads back (`Binary64.shortestDecimal`).
-/

set_option autoImplicit false

/-! ## The shortest decimal that reads back

A binary fraction `m · 2^q` stands for every real number that rounds to it: those within half a step
of it on either side, the two ends included if `m` is even. `Decimal.shortest` finds the decimal
with the fewest digits in that interval and, of those with equally few, the one nearest to the value
itself.

A decimal with `n` digits lies on the grid of multiples of a power of ten that the value's magnitude
and `n` determine. If any point of that grid lies in the interval, then so does one of the two
neighbours of the value on it, so two candidates are tried for each of 1, 2, … 17 digits. All
arithmetic is exact, on natural numbers with a common denominator. -/

namespace StoreModel.Decimal

/-- The interval of numbers that round to a binary fraction, as numerators over one denominator:
the value, the lower and the upper end, and whether the ends belong to it. -/
structure Interval where
  value : Nat
  low : Nat
  high : Nat
  den : Nat
  closed : Bool

/-- The interval of `m · 2^q`. Below the least number of a binade the steps are half as wide. -/
def intervalOf (m : Nat) (q : Int) (narrowBelow : Bool) : Interval :=
  let up := Nat.pow 2 q.toNat
  { value := 4 * m * up
    low := (4 * m - (if narrowBelow then 1 else 2)) * up
    high := (4 * m + 2) * up
    den := 4 * Nat.pow 2 (-q).toNat
    closed := m % 2 == 0 }

/-- The exponent of the leading decimal digit of a positive fraction. -/
def leadingExponent (num den : Nat) : Int :=
  if den ≤ num then ((Nat.toDigits 10 (num / den)).length : Int) - 1
  else -((Nat.toDigits 10 ((den + num - 1) / num - 1)).length : Int)

/-- A power of ten. -/
def tenTo (n : Nat) : Nat := Nat.pow 10 n

/-- The decimal `c · 10^x` lies in the interval. -/
def Interval.holds (i : Interval) (c : Nat) (x : Int) : Bool :=
  let num := c * tenTo x.toNat * i.den
  let scale := tenTo (-x).toNat
  if i.closed then i.low * scale ≤ num && num ≤ i.high * scale
  else i.low * scale < num && num < i.high * scale

/-- The best decimal of the interval on the grid of multiples of `10^x`, if there is one. -/
def Interval.onGrid (i : Interval) (x : Int) : Option Nat :=
  let num := i.value * tenTo (-x).toNat
  let den := i.den * tenTo x.toNat
  let c := num / den
  let below := num % den
  match i.holds c x && c != 0, i.holds (c + 1) x with
  | true, true =>
    if 2 * below < den then some c
    else if den < 2 * below then some (c + 1)
    else if c % 2 == 0 then some c else some (c + 1)
  | true, false => some c
  | false, true => some (c + 1)
  | false, false => none

/-- Tries grids of `n` more digits, finer by one digit each. -/
def Interval.search (i : Interval) : Nat → Int → Nat × Int
  | 0, x => (i.value * tenTo (-x).toNat / (i.den * tenTo x.toNat), x)
  | n + 1, x =>
    match i.onGrid x with
    | some c => (c, x)
    | none => i.search n (x - 1)

/-- Takes zeros off the end of the digits, at most as many as the first argument says. -/
def stripZeros : Nat → Nat → Int → Nat × Int
  | 0, c, x => (c, x)
  | n + 1, c, x => if c % 10 = 0 ∧ c ≠ 0 then stripZeros n (c / 10) (x + 1) else (c, x)

/-- The shortest decimal `c · 10^x` that reads back as the positive number `m · 2^q`. -/
def shortest (m : Nat) (q : Int) (narrowBelow : Bool) : Nat × Int :=
  let i := intervalOf m q narrowBelow
  let (c, x) := i.search 17 (leadingExponent i.value i.den)
  stripZeros 20 c x

end StoreModel.Decimal

/-! ## Numbers by their bits -/

namespace StoreModel

/-- The bits of a floating-point number. -/
structure Binary64 where
  bits : UInt64
deriving DecidableEq, Repr, Inhabited

namespace Binary64

/-- The number of values of the fraction field, which has 52 bits. -/
def fractionSize : Nat := 0x10000000000000

/-- The fraction field. -/
def fraction (b : Binary64) : Nat := b.bits.toNat % fractionSize

/-- The exponent field, which has 11 bits. -/
def exponent (b : Binary64) : Nat := b.bits.toNat / fractionSize % 2048

def isNegative (b : Binary64) : Bool := b.bits.toNat / (2048 * fractionSize) == 1

def isFinite (b : Binary64) : Bool := b.exponent != 2047

def isNaN (b : Binary64) : Bool := b.exponent == 2047 && b.fraction != 0

def isZero (b : Binary64) : Bool := b.exponent == 0 && b.fraction == 0

/-- Equal as numbers. -/
def sameNumber (a b : Binary64) : Bool :=
  !a.isNaN && !b.isNaN && (a == b || (a.isZero && b.isZero))

/-- The number with the other sign. -/
def negate (b : Binary64) : Binary64 := ⟨b.bits ^^^ 0x8000000000000000⟩

def ofFloat (f : Float) : Binary64 := ⟨f.toBits⟩

def toFloat (b : Binary64) : Float := Float.ofBits b.bits

/-- The shortest decimal that reads back as the magnitude of a finite number other than zero. -/
def shortestDecimal (b : Binary64) : Nat × Int :=
  if b.exponent = 0 then Decimal.shortest b.fraction (-1074) false
  else Decimal.shortest (b.fraction + fractionSize) ((b.exponent : Int) - 1075)
    (b.fraction == 0 && decide (1 < b.exponent))

end Binary64

end StoreModel
