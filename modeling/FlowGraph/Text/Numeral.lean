import FlowGraph.Text.CharClass

/-!
# Numerals

Reading of whole numbers and of floating-point numbers.  Blanks around a numeral
do not count, and single underscores may stand between digits.
-/

namespace FlowGraph.Text

/-- The code points of the zeros of all scripts; the other nine digits follow
each of them. -/
def decimalZeros : List Nat :=
  [0x30, 0x660, 0x6f0, 0x7c0, 0x966, 0x9e6, 0xa66, 0xae6, 0xb66, 0xbe6, 0xc66, 0xce6, 0xd66,
    0xde6, 0xe50, 0xed0, 0xf20, 0x1040, 0x1090, 0x17e0, 0x1810, 0x1946, 0x19d0, 0x1a80, 0x1a90,
    0x1b50, 0x1bb0, 0x1c40, 0x1c50, 0xa620, 0xa8d0, 0xa900, 0xa9d0, 0xa9f0, 0xaa50, 0xabf0,
    0xff10, 0x104a0, 0x10d30, 0x11066, 0x110f0, 0x11136, 0x111d0, 0x112f0, 0x11450, 0x114d0,
    0x11650, 0x116c0, 0x11730, 0x118e0, 0x11950, 0x11c50, 0x11d50, 0x11da0, 0x16a60, 0x16ac0,
    0x16b50, 0x1d7ce, 0x1d7d8, 0x1d7e2, 0x1d7ec, 0x1d7f6, 0x1e140, 0x1e2f0, 0x1e950, 0x1fbf0]

/-- The value of a decimal digit. -/
def digitValue? (character : Char) : Option Nat :=
  let code := character.toNat
  (decimalZeros.find? fun first => first ≤ code && code ≤ first + 9).map (code - ·)

/-- Read digits in which single underscores may stand between two of them.
`pending` says that an underscore waits for its digit. -/
def digitRun (pending : Bool) : List Char → List Nat × List Char
  | [] => ([], [])
  | character :: rest =>
      match digitValue? character with
      | some digit =>
          let (digits, remaining) := digitRun false rest
          (digit :: digits, remaining)
      | none =>
          if character = '_' && !pending then
            match digitRun true rest with
            | ([], _) => ([], character :: rest)
            | found => found
          else
            ([], character :: rest)

/-- A run of digits that starts with one. -/
def digits? (characters : List Char) : Option (List Nat × List Char) :=
  match digitRun true characters with
  | ([], _) => none
  | found => some found

/-- The number that a list of digits stands for. -/
def ofDigits (digits : List Nat) : Nat :=
  digits.foldl (fun number digit => number * 10 + digit) 0

/-- Split a sign off; `true` stands for minus. -/
def splitSign : List Char → Bool × List Char
  | '-' :: rest => (true, rest)
  | '+' :: rest => (false, rest)
  | characters => (false, characters)

/-- Whole numbers are read and written with at most so many digits. -/
def digitLimit : Nat := 4300

/-- Read a whole number with an optional sign. -/
def readInt? (text : String) : Option Int :=
  let (negative, unsigned) := splitSign (stripBlanks text.toList)
  match digits? unsigned with
  | some (digits, []) =>
      if digitLimit < digits.length then none
      else
        let number : Int := ofDigits digits
        some (if negative then -number else number)
  | _ => none

/-- Write a whole number. -/
def writeInt? (number : Int) : Option String :=
  let written := toString number
  let digitCount := if number < 0 then written.length - 1 else written.length
  if digitLimit < digitCount then none else some written

/-- The digits in front of the point, those behind it, and the exponent. -/
structure Scientific where
  whole : List Nat
  fraction : List Nat
  exponent : Int

/-- The digits after a point, when a point comes next. -/
def fractionPart : List Char → List Nat × List Char
  | '.' :: rest =>
      match digits? rest with
      | some found => found
      | none => ([], rest)
  | characters => ([], characters)

/-- The exponent, when one comes next. -/
def exponentPart? (characters : List Char) : Option (Int × List Char) :=
  match characters with
  | mark :: rest =>
      if mark = 'e' ∨ mark = 'E' then
        let (negative, unsigned) := splitSign rest
        (digits? unsigned).map fun (digits, remaining) =>
          let number : Int := ofDigits digits
          (if negative then -number else number, remaining)
      else
        some (0, characters)
  | [] => some (0, [])

/-- Read unsigned decimal notation to its end. -/
def readScientific? (characters : List Char) : Option Scientific := do
  let (whole, afterWhole) := (digits? characters).getD ([], characters)
  let (fraction, afterFraction) := fractionPart afterWhole
  if whole.isEmpty && fraction.isEmpty then
    none
  else
    let (exponent, rest) ← exponentPart? afterFraction
    if rest.isEmpty then some ⟨whole, fraction, exponent⟩ else none

/-- The double-precision number nearest to a decimal.  Exponents far outside
the range of the format are cut first. -/
def Scientific.toFloat (number : Scientific) : Float :=
  let digits := number.whole ++ number.fraction
  let mantissa := ofDigits digits
  let power := number.exponent - (number.fraction.length : Int)
  let leading := power + (digits.length : Int)
  if mantissa = 0 || leading < -400 then 0.0
  else if 100000 < power then 1.0 / 0.0
  else if power < 0 then Float.ofScientific mantissa true power.natAbs
  else Float.ofScientific mantissa false power.natAbs

/-- Read a double-precision number, the names of the special values included. -/
def readFloat? (text : String) : Option Float :=
  let (negative, unsigned) := splitSign (stripBlanks text.toList)
  let name := String.ofList (unsigned.map Char.toLower)
  let magnitude :=
    if name = "inf" ∨ name = "infinity" then some (1.0 / 0.0)
    else if name = "nan" then some (0.0 / 0.0)
    else (readScientific? unsigned).map Scientific.toFloat
  magnitude.map fun number => if negative then -number else number

end FlowGraph.Text
