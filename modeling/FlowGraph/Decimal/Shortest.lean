/-!
# Shortest decimal digits of a binary number

A positive binary number owns the interval of reals that round to it.  Its
shortest decimal is the one with the fewest digits inside that interval, and
among those of equal length the nearest.  All comparisons are made on natural
numbers, so the digits are exact.
-/

namespace FlowGraph.Decimal

def powerOfTwo (exponent : Nat) : Nat :=
  Nat.pow 2 exponent

def powerOfTen (exponent : Nat) : Nat :=
  Nat.pow 10 exponent

/-- A positive number `mantissa * 2 ^ exponent` of a binary format.  It is
`narrow` when its lower neighbour is only half as far away as its upper one. -/
structure Binary where
  mantissa : Nat
  exponent : Int
  narrow : Bool

/-- Decimal digits `d₁ d₂ … dₙ`, read as `d₁.d₂…dₙ * 10 ^ exponent`. -/
structure Digits where
  digits : List Nat
  exponent : Int
deriving DecidableEq, Repr

/-- A number and the ends of its rounding interval over one denominator. -/
structure Interval where
  lower : Nat
  value : Nat
  upper : Nat
  denominator : Nat
  /-- The ends themselves round to the value. -/
  closed : Bool

namespace Binary

/-- The rounding interval, in units of a quarter of the last place. -/
def interval (number : Binary) : Interval :=
  let scale := powerOfTwo (number.exponent - 2).toNat
  { lower := (4 * number.mantissa - (if number.narrow then 1 else 2)) * scale
    value := 4 * number.mantissa * scale
    upper := (4 * number.mantissa + 2) * scale
    denominator := powerOfTwo (2 - number.exponent).toNat
    closed := number.mantissa % 2 == 0 }

/-- The number in units of its last whole or fractional place. -/
def scaled (number : Binary) : Nat :=
  number.mantissa * powerOfTwo number.exponent.toNat

/-- The units that make one. -/
def unit (number : Binary) : Nat :=
  powerOfTwo (-number.exponent).toNat

/-- The part in front of the point. -/
def wholePart (number : Binary) : Nat :=
  number.scaled / number.unit

/-- Whether nothing stands behind the point. -/
def isWhole (number : Binary) : Bool :=
  number.scaled % number.unit == 0

end Binary

namespace Interval

/-- Multiply the interval by `10 ^ power`. -/
def shift (interval : Interval) (power : Int) : Interval :=
  let raise := powerOfTen power.toNat
  { interval with
    lower := interval.lower * raise
    value := interval.value * raise
    upper := interval.upper * raise
    denominator := interval.denominator * powerOfTen (-power).toNat }

/-- Whether the whole number `candidate` lies in the interval. -/
def holds (interval : Interval) (candidate : Nat) : Bool :=
  let scaled := candidate * interval.denominator
  if interval.closed then
    interval.lower ≤ scaled && scaled ≤ interval.upper
  else
    interval.lower < scaled && scaled < interval.upper

/-- The whole number below the value and the one above it: the nearer of the
two, and of two equally near ones the even. -/
def nearest (interval : Interval) : Nat :=
  let below := interval.value / interval.denominator
  let twice := 2 * (interval.value % interval.denominator)
  if twice < interval.denominator then below
  else if interval.denominator < twice then below + 1
  else if below % 2 == 0 then below
  else below + 1

/-- The neighbour of the value among the whole numbers that lies in the
interval; the nearer one when both do. -/
def wholeNumber? (interval : Interval) : Option Nat :=
  let below := interval.value / interval.denominator
  match interval.holds below, interval.holds (below + 1) with
  | true, true => some interval.nearest
  | true, false => some below
  | false, true => some (below + 1)
  | false, false => none

/-- The number of steps of ten by which a value below one falls short of one. -/
def shortfall (value denominator : Nat) : Nat → Nat
  | 0 => 0
  | fuel + 1 =>
      if denominator ≤ value then 0
      else shortfall (value * 10) denominator fuel + 1

/-- The number of digits of a natural number, with `0` having none. -/
def digitCount (number : Nat) : Nat :=
  if number = 0 then 0 else (Nat.toDigits 10 number).length

/-- The exponent of the leading decimal digit of the value. -/
def leadingExponent (interval : Interval) : Int :=
  let whole := interval.value / interval.denominator
  if whole = 0 then
    -(shortfall interval.value interval.denominator interval.denominator.log2 : Int)
  else
    (digitCount whole : Int) - 1

end Interval

/-- The decimal digits of a natural number. -/
def digitsOf (number : Nat) : List Nat :=
  (Nat.toDigits 10 number).map fun character => character.toNat - '0'.toNat

/-- Drop the zeros at the end. -/
def trimZeros (digits : List Nat) : List Nat :=
  (digits.reverse.dropWhile (· == 0)).reverse

/-- The number `whole * 10 ^ power` in scientific form. -/
def Digits.ofWhole (whole : Nat) (power : Int) : Digits :=
  let digits := digitsOf whole
  { digits := trimZeros digits
    exponent := power + (digits.length : Int) - 1 }

/-- Try grids of `count`, `count + 1`, … digits until one has a point in the
interval. -/
def searchDigits (interval : Interval) (leading : Int) (count : Int) : Nat → Digits
  | 0 =>
      let power := leading - count + 1
      Digits.ofWhole (interval.shift (-power)).nearest power
  | fuel + 1 =>
      let power := leading - count + 1
      match (interval.shift (-power)).wholeNumber? with
      | some whole => Digits.ofWhole whole power
      | none => searchDigits interval leading (count + 1) fuel

/-- The shortest digits that read back as the number.  Seventeen digits are
enough for every format of at most 53 bits. -/
def Binary.shortest (number : Binary) : Digits :=
  let interval := number.interval
  searchDigits interval interval.leadingExponent 1 17

/-- The exponent of the leading decimal digit of the number itself. -/
def Binary.leadingExponent (number : Binary) : Int :=
  number.interval.leadingExponent

/-- The number rounded to `places` digits after the point, as a whole multiple
of `10 ^ (-places)`. -/
def Binary.roundedTo (number : Binary) (places : Nat) : Nat :=
  (number.interval.shift places).nearest

/-- The number rounded to `places` digits after the leading one, all of which are
kept. -/
def Binary.significant (number : Binary) (places : Nat) : Digits :=
  let leading := number.leadingExponent
  let whole := (number.interval.shift (places - leading)).nearest
  if whole < powerOfTen (places + 1) then ⟨digitsOf whole, leading⟩
  else ⟨1 :: List.replicate places 0, leading + 1⟩

end FlowGraph.Decimal
