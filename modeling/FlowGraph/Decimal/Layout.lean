import FlowGraph.Decimal.Shortest

/-!
# Layout of floating-point numbers

A floating-point number is written with its shortest digits: positionally while
the leading digit stands between the fourth place after the point and the
sixteenth before it, and with an exponent otherwise.
-/

namespace FlowGraph.Decimal

/-- A floating-point number taken apart. -/
inductive Parts where
  | notANumber
  | infinite (negative : Bool)
  | zero (negative : Bool)
  | finite (negative : Bool) (magnitude : Binary)

/-- The sizes of a binary interchange format. -/
structure Format where
  fractionBits : Nat
  exponentBits : Nat

def Format.double : Format := ⟨52, 11⟩

def Format.single : Format := ⟨23, 8⟩

/-- Take a bit pattern apart. -/
def Format.parts (format : Format) (bits : Nat) : Parts :=
  let fraction := bits % powerOfTwo format.fractionBits
  let rest := bits / powerOfTwo format.fractionBits
  let biased := rest % powerOfTwo format.exponentBits
  let negative := rest / powerOfTwo format.exponentBits % 2 == 1
  let lowest : Int := 2 - powerOfTwo (format.exponentBits - 1) - format.fractionBits
  if biased = powerOfTwo format.exponentBits - 1 then
    if fraction = 0 then .infinite negative else .notANumber
  else if biased = 0 then
    if fraction = 0 then .zero negative
    else .finite negative ⟨fraction, lowest, false⟩
  else
    .finite negative
      ⟨fraction + powerOfTwo format.fractionBits, lowest + (biased - 1),
        fraction = 0 && 1 < biased⟩

/-- The characters of a list of digits. -/
def digitText (digits : List Nat) : String :=
  String.ofList (digits.map fun digit => Char.ofNat ('0'.toNat + digit))

/-- A text of at least `width` characters, filled with zeros on the left. -/
def zeroFilled (width : Nat) (text : String) : String :=
  String.ofList (List.replicate (width - text.length) '0') ++ text

/-- How the digits of a number are laid out. -/
structure Layout where
  /-- The least exponent that is written positionally. -/
  positionalFrom : Int
  /-- The least exponent above it that is not. -/
  positionalBelow : Int
  /-- The least number of digits of a written exponent. -/
  exponentWidth : Nat

/-- Positional notation: a point always stands between two digits. -/
def Digits.positional (digits : Digits) : String :=
  if digits.exponent < 0 then
    let gap := List.replicate (-digits.exponent - 1).toNat 0
    "0." ++ digitText (gap ++ digits.digits)
  else
    let split := digits.exponent.toNat + 1
    let whole := digits.digits.take split
    let filled := whole ++ List.replicate (split - whole.length) 0
    let fraction := digits.digits.drop split
    digitText filled ++ "." ++ digitText (if fraction.isEmpty then [0] else fraction)

/-- The exponent with its sign. -/
def exponentText (width : Nat) (exponent : Int) : String :=
  let sign := if exponent < 0 then "-" else "+"
  "e" ++ sign ++ zeroFilled width (toString exponent.natAbs)

/-- Scientific notation: a point only when digits follow it. -/
def Digits.scientific (width : Nat) (digits : Digits) : String :=
  let fraction := digits.digits.drop 1
  let point := if fraction.isEmpty then "" else "."
  digitText (digits.digits.take 1) ++ point ++ digitText fraction ++
    exponentText width digits.exponent

/-- Write digits in the notation that the layout chooses. -/
def Layout.write (layout : Layout) (digits : Digits) : String :=
  if layout.positionalFrom ≤ digits.exponent ∧ digits.exponent < layout.positionalBelow then
    digits.positional
  else
    digits.scientific layout.exponentWidth

/-- Numbers are positional from the fourth place after the point to the
sixteenth before it; an exponent has two digits or more. -/
def Layout.standard : Layout := ⟨-4, 16, 2⟩

/-- Put the sign in front of a text. -/
def signed (negative : Bool) (text : String) : String :=
  if negative then "-" ++ text else text

/-- Write a number that was taken apart. -/
def Parts.text : Parts → String
  | .notANumber => "nan"
  | .infinite negative => signed negative "inf"
  | .zero negative => signed negative "0.0"
  | .finite negative magnitude => signed negative (Layout.standard.write magnitude.shortest)

/-- The parts of a double-precision number. -/
def doubleParts (number : Float) : Parts :=
  Format.double.parts number.toBits.toNat

/-- The parts of a single-precision number. -/
def singleParts (number : Float32) : Parts :=
  Format.single.parts number.toBits.toNat

/-- The shortest text that reads back as the double-precision number. -/
def doubleText (number : Float) : String :=
  (doubleParts number).text

/-- The shortest text that reads back as the single-precision number.  It is
positional when the number itself has at most six digits before the point and
begins at the fourth place after it or earlier. -/
def singleText (number : Float32) : String :=
  match singleParts number with
  | .finite negative magnitude =>
      let leading := magnitude.leadingExponent
      signed negative
        (if -4 ≤ leading ∧ leading < 6 then magnitude.shortest.positional
        else magnitude.shortest.scientific 2)
  | parts => parts.text

end FlowGraph.Decimal
