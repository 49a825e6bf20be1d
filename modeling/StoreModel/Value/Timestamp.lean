import StoreModel.Text.Chars

/-!
# Dates and timestamps

A date is a day of the Gregorian calendar extended to all years, year 0 and negative years included,
between fixed bounds. It carries the proofs that its day exists, so a date that was built can be
printed and compared without further checks.

A timestamp is an instant in UTC to the nanosecond: a date, the second of its day, and the
nanoseconds since that second began. During a leap second the clock stays at second 59 and the
nanoseconds go on from one thousand million.

The written form is `2024-03-01T09:30:00Z` with as many groups of three digits of a fraction as the
nanoseconds need, and a sign before a year that does not have four digits. The reader accepts more:
blanks before each number, a blank or a small `t` between date and time, any number of digits in the
fraction (the first nine count), and an offset from UTC instead of the `Z`.
-/

set_option autoImplicit false

namespace StoreModel

/-! ## Dates

`Date.previous?` and `Date.next?` step over month and year ends and stop at the bounds; nothing else
of a calendar is needed to move a time between offsets, which are less than a day. -/

/-- A leap year: divisible by four, but by a hundred only if by four hundred. -/
def isLeapYear (y : Int) : Bool := y % 4 == 0 && (y % 100 != 0 || y % 400 == 0)

/-- The number of days of a month. -/
def daysInMonth (y : Int) (m : Nat) : Nat :=
  if m = 2 then (if isLeapYear y then 29 else 28)
  else if m = 4 ∨ m = 6 ∨ m = 9 ∨ m = 11 then 30
  else 31

/-- The first year that a date can have. -/
def minYear : Int := -262143

/-- The last year that a date can have. -/
def maxYear : Int := 262142

/-- A day of the calendar. -/
structure Date where
  year : Int
  month : Nat
  day : Nat
  year_mem : minYear ≤ year ∧ year ≤ maxYear
  month_mem : 1 ≤ month ∧ month ≤ 12
  day_mem : 1 ≤ day ∧ day ≤ daysInMonth year month
deriving DecidableEq

namespace Date

/-- The date with the given parts, if there is such a day. -/
def of? (y : Int) (m d : Nat) : Option Date :=
  if hy : minYear ≤ y ∧ y ≤ maxYear then
    if hm : 1 ≤ m ∧ m ≤ 12 then
      if hd : 1 ≤ d ∧ d ≤ daysInMonth y m then some ⟨y, m, d, hy, hm, hd⟩ else none
    else none
  else none

theorem of?_parts (d : Date) : of? d.year d.month d.day = some d := by
  simp [of?, d.year_mem, d.month_mem, d.day_mem]

/-- The day before, if it is within the bounds. -/
def previous? (d : Date) : Option Date :=
  if d.day > 1 then of? d.year d.month (d.day - 1)
  else if d.month > 1 then of? d.year (d.month - 1) (daysInMonth d.year (d.month - 1))
  else of? (d.year - 1) 12 31

/-- The day after, if it is within the bounds. -/
def next? (d : Date) : Option Date :=
  if d.day < daysInMonth d.year d.month then of? d.year d.month (d.day + 1)
  else if d.month < 12 then of? d.year (d.month + 1) 1
  else of? (d.year + 1) 1 1

/-- The first of January 1970. -/
def epoch : Date := ⟨1970, 1, 1, by decide, by decide, by decide⟩

end Date

/-! ## Timestamps -/

open StoreModel.Text

/-- An instant in UTC. -/
structure Timestamp where
  date : Date
  second : Nat
  nano : Nat
  second_lt : second < 86400
  nano_lt : nano < 2000000000
  /-- Only the last second of a minute is long. -/
  leap : 1000000000 ≤ nano → second % 60 = 59
deriving DecidableEq

namespace Timestamp

/-- Midnight of the first of January 1970. -/
def epoch : Timestamp := ⟨Date.epoch, 0, 0, by decide, by decide, by decide⟩

instance : Inhabited Timestamp := ⟨epoch⟩

/-! ### Writing -/

/-- A number in decimal digits, with zeros in front up to a width. -/
def padded (width n : Nat) : List Char :=
  let ds := Nat.toDigits 10 n
  List.replicate (width - ds.length) '0' ++ ds

/-- A year: four digits for the years 0 to 9999, otherwise a sign and at least four digits. -/
def yearChars (y : Int) : List Char :=
  if 0 ≤ y ∧ y ≤ 9999 then padded 4 y.toNat
  else (if y < 0 then '-' else '+') :: padded 4 y.natAbs

/-- The fraction of a second: nothing, or three, six or nine digits, as few as are exact. -/
def fractionChars (nano : Nat) : List Char :=
  if nano = 0 then []
  else if nano % 1000000 = 0 then '.' :: padded 3 (nano / 1000000)
  else if nano % 1000 = 0 then '.' :: padded 6 (nano / 1000)
  else '.' :: padded 9 nano

/-- The written form. A leap second is second 60. -/
def chars (t : Timestamp) : List Char :=
  let isLong := decide (1000000000 ≤ t.nano)
  let sec := t.second % 60 + (if isLong then 1 else 0)
  let nano := if isLong then t.nano - 1000000000 else t.nano
  yearChars t.date.year ++ '-' :: (padded 2 t.date.month ++ '-' :: (padded 2 t.date.day ++
    'T' :: (padded 2 (t.second / 3600) ++ ':' :: (padded 2 (t.second / 60 % 60) ++
      ':' :: (padded 2 sec ++ (fractionChars nano ++ ['Z']))))))

/-- The written form. -/
def text (t : Timestamp) : String := String.ofList t.chars

/-! ### Reading -/

/-- Why a text is no timestamp. -/
inductive ReadError where
  /-- A number that is too large, a day that does not exist, or an offset of a day or more. -/
  | outOfRange
  /-- The offset moves the time out of the range of dates. -/
  | impossible
  /-- A character that cannot stand where it stands. -/
  | invalid
  /-- The text stops too early. -/
  | tooShort
  /-- Something follows the offset. -/
  | tooLong
deriving DecidableEq, Repr

/-- The text of a reading error. -/
def ReadError.message : ReadError → String
  | .outOfRange => "input is out of range"
  | .impossible => "no possible date and time matching input"
  | .invalid => "input contains invalid characters"
  | .tooShort => "premature end of input"
  | .tooLong => "trailing input"

/-! Every step of the reader gives what it read and the rest of the text. -/

/-- Without the blanks in front. -/
def skipBlanks (cs : List Char) : List Char := cs.dropWhile isBlank

/-- A number of one to `width` digits, or of any number of digits, below two to the 63rd. -/
def readNumber (width : Option Nat) (cs : List Char) : Except ReadError (Nat × List Char) :=
  match cs with
  | [] => .error .tooShort
  | c :: _ =>
    if c.isDigit then
      let all := cs.takeWhile Char.isDigit
      let ds := match width with
        | some w => all.take w
        | none => all
      if digitsValue ds < 0x8000000000000000 then .ok (digitsValue ds, cs.drop ds.length)
      else .error .outOfRange
    else .error .invalid

/-- Blanks, then a number of one or two digits between two bounds. -/
def readPart (lo hi : Nat) (cs : List Char) : Except ReadError (Nat × List Char) := do
  let (n, r) ← readNumber (some 2) (skipBlanks cs)
  if lo ≤ n ∧ n ≤ hi then .ok (n, r) else .error .outOfRange

/-- Blanks, then a year: four digits at most, or any number of digits after a sign. -/
def readYear (cs : List Char) : Except ReadError (Int × List Char) := do
  let (y, r) ← match skipBlanks cs with
    | '-' :: r => do
      let (n, r) ← readNumber none r
      .ok (-(n : Int), r)
    | '+' :: r => do
      let (n, r) ← readNumber none r
      .ok ((n : Int), r)
    | cs => do
      let (n, r) ← readNumber (some 4) cs
      .ok ((n : Int), r)
  if -0x80000000 ≤ y ∧ y < 0x80000000 then .ok (y, r) else .error .outOfRange

/-- Blanks, then one given character. -/
def readMark (mark : Char) (cs : List Char) : Except ReadError (List Char) :=
  match skipBlanks cs with
  | [] => .error .tooShort
  | c :: r => if c = mark then .ok r else .error .invalid

/-- The separator between date and time. -/
def readSeparator : List Char → Except ReadError (List Char)
  | [] => .error .tooShort
  | c :: r => if c = 'T' ∨ c = 't' ∨ c = ' ' then .ok r else .error .invalid

/-- A fraction of a second in nanoseconds, if a point follows. Digits after the ninth are
skipped. -/
def readFraction (cs : List Char) : Except ReadError (Nat × List Char) :=
  match cs with
  | '.' :: r => do
    let (n, rest) ← readNumber (some 9) r
    .ok (n * Nat.pow 10 (9 - (r.length - rest.length)), rest.dropWhile Char.isDigit)
  | cs => .ok (0, cs)

/-- Two digits, the first of them at most a bound. The text is too short if fewer than two bytes are
left. -/
def readPair (firstMax : Char) (cs : List Char) : Except ReadError (Nat × List Char) :=
  match cs with
  | a :: b :: r =>
    if a.isDigit ∧ b.isDigit then
      if a ≤ firstMax then .ok (digitsValue [a, b], r) else .error .outOfRange
    else .error .invalid
  | cs => if (String.ofList cs).utf8ByteSize < 2 then .error .tooShort else .error .invalid

/-- An offset from UTC in seconds: `Z`, `UTC`, or a sign, hours and minutes with colons and blanks
between them or nothing. -/
def readOffset (cs : List Char) : Except ReadError (Int × List Char) :=
  let signed (sign : Int) (cs : List Char) : Except ReadError (Int × List Char) := do
    let (h, r) ← readPair '9' cs
    let (m, r) ← readPair '5' (r.dropWhile fun c => c == ':' || isBlank c)
    .ok (sign * ((h * 3600 + m * 60 : Nat) : Int), r)
  match cs with
  | 'Z' :: r | 'z' :: r => .ok (0, r)
  | '+' :: r => signed 1 r
  | '-' :: r => signed (-1) r
  | '−' :: r => signed (-1) r
  | [] => .error .tooShort
  | u :: t :: c :: r =>
    if u.toUpper = 'U' ∧ t.toUpper = 'T' ∧ c.toUpper = 'C' then .ok (0, r) else .error .invalid
  | _ => .error .invalid

/-- The instant at which clocks at an offset from UTC show a date and a time. -/
def ofLocal (d : Date) (second nano : Nat) (offset : Int) : Except ReadError Timestamp :=
  let total := (second : Int) - offset
  let s := (total % 86400).toNat
  let date := if total < 0 then d.previous? else if 86400 ≤ total then d.next? else some d
  match date with
  | none => .error .impossible
  | some date =>
    if h : s < 86400 ∧ nano < 2000000000 ∧ (1000000000 ≤ nano → s % 60 = 59) then
      .ok ⟨date, s, nano, h.1, h.2.1, h.2.2⟩
    else .error .outOfRange

/-- Reads a date, a time and an offset. Whether the day exists is asked last. -/
def readChars (cs : List Char) : Except ReadError Timestamp := do
  let (year, cs) ← readYear cs
  let cs ← readMark '-' cs
  let (month, cs) ← readPart 1 12 cs
  let cs ← readMark '-' cs
  let (day, cs) ← readPart 1 31 cs
  let cs ← readSeparator cs
  let (hour, cs) ← readPart 0 23 cs
  let cs ← readMark ':' cs
  let (minute, cs) ← readPart 0 59 cs
  let cs ← readMark ':' cs
  let (sec, cs) ← readPart 0 60 cs
  let (nano, cs) ← readFraction cs
  let (offset, cs) ← readOffset (skipBlanks cs)
  if (skipBlanks cs).isEmpty then
    match Date.of? year month day with
    | none => .error .outOfRange
    | some date =>
      if -86400 < offset ∧ offset < 86400 then
        let isLong := sec == 60
        ofLocal date (hour * 3600 + minute * 60 + (if isLong then 59 else sec))
          (if isLong then nano + 1000000000 else nano) offset
      else .error .outOfRange
  else .error .tooLong

/-- Reads a date, a time and an offset. -/
def read (s : String) : Except ReadError Timestamp := readChars s.toList

end Timestamp

end StoreModel
