import FlowGraph.Decimal.Layout
import FlowGraph.Tensor.Basic

/-!
# Tensors as text

The elements of a tensor are brought to a common width and written in nested
brackets, in lines of at most 75 columns.  Floating-point numbers share one
notation: an exponent is used when the numbers are too large, too small or too
far apart.  Of a large tensor only the ends of long axes are written.
-/

namespace FlowGraph.Tensor.Display

def blanks (count : Nat) : String :=
  String.ofList (List.replicate count ' ')

/-- Fill a text with blanks on the left. -/
def padLeft (width : Nat) (text : String) : String :=
  blanks (width - text.length) ++ text

/-- Fill a text with blanks on the right. -/
def padRight (width : Nat) (text : String) : String :=
  text ++ blanks (width - text.length)

/-- The length of the longest text. -/
def widest (texts : List String) : Nat :=
  texts.foldl (fun width text => max width text.length) 0

def boolWord (value : Bool) : String :=
  if value then "True" else "False"

/-- At most this many places are written after the point. -/
def places : Nat := 8

/-- A finite number cut at the point. -/
structure Word where
  whole : String
  behind : String

/-- The fraction of a number that is a multiple of the last written place. -/
def fractionWord (number : Nat) : String :=
  let text := Decimal.zeroFilled places (toString number)
  String.ofList (text.toList.reverse.dropWhile (· == '0')).reverse

/-- Positional notation with at most eight places. -/
def positionalMagnitude (magnitude : Decimal.Binary) : String × String :=
  let shortest := magnitude.shortest
  let written := (shortest.digits.length : Int) - 1 - shortest.exponent
  if (places : Int) < written then
    let rounded := magnitude.roundedTo places
    (toString (rounded / Decimal.powerOfTen places),
      fractionWord (rounded % Decimal.powerOfTen places))
  else if shortest.exponent < 0 then
    let gap := List.replicate (-shortest.exponent - 1).toNat 0
    ("0", Decimal.digitText (gap ++ shortest.digits))
  else
    let split := shortest.exponent.toNat + 1
    let whole := shortest.digits.take split
    (Decimal.digitText (whole ++ List.replicate (split - whole.length) 0),
      Decimal.digitText (shortest.digits.drop split))

/-- A number in positional notation; zeros at the end are left out. -/
def positionalWord (negative : Bool) : Option Decimal.Binary → Word
  | none => ⟨Decimal.signed negative "0", ""⟩
  | some magnitude =>
      let (whole, fraction) := positionalMagnitude magnitude
      ⟨Decimal.signed negative whole, fraction⟩

/-- A number with an exponent and a fraction of the given length. -/
def scientificWord (length : Nat) (negative : Bool) : Option Decimal.Binary → Word
  | none =>
      ⟨Decimal.signed negative "0",
        Decimal.digitText (List.replicate length 0) ++ Decimal.exponentText 2 0⟩
  | some magnitude =>
      let rounded := magnitude.significant length
      ⟨Decimal.signed negative (Decimal.digitText (rounded.digits.take 1)),
        Decimal.digitText (rounded.digits.drop 1) ++ Decimal.exponentText 2 rounded.exponent⟩

/-- Whether numbers are written with an exponent: one is too large, one too
small, or two are too far apart. -/
def needsExponent (numbers : List Float32) : Bool :=
  let magnitudes := (numbers.map Float32.abs).filter fun number => number.isFinite && number != 0
  match magnitudes with
  | [] => false
  | first :: rest =>
      let largest := rest.foldl (fun best item => if best < item then item else best) first
      let smallest := rest.foldl (fun best item => if item < best then item else best) first
      largest >= 1000000 || smallest < 0.0001 || largest / smallest > 1000

/-- The longest fraction that a number needs in scientific notation. -/
def longestFraction (numbers : List Float32) : Nat :=
  numbers.foldl (fun length number =>
    match Decimal.singleParts number with
    | .finite _ magnitude => max length (magnitude.shortest.digits.length - 1)
    | _ => length) 0

/-- A number as a word, or the name of a special value. -/
def wordOf (write : Bool → Option Decimal.Binary → Word) (number : Float32) :
    Except String Word :=
  match Decimal.singleParts number with
  | .notANumber => .error "nan"
  | .infinite negative => .error (Decimal.signed negative "inf")
  | .zero negative => .ok (write negative none)
  | .finite negative magnitude => .ok (write negative (some magnitude))

/-- The widths that all numbers of one tensor share. -/
structure Widths where
  left : Nat
  right : Nat

/-- A word brought to the common widths. -/
def Widths.place (widths : Widths) : Except String Word → String
  | .error name => padLeft (widths.left + widths.right + 1) name
  | .ok word => padLeft widths.left word.whole ++ "." ++ padRight widths.right word.behind

/-- Room for the names of special values among finite numbers. -/
def specialRoom (numbers : List Float32) (right : Nat) : Nat :=
  if numbers.all Float32.isFinite then 0
  else
    let negative := numbers.any fun number => number.isInf && number < 0
    (if negative then 4 else 3) - (right + 1)

/-- Floating-point numbers in a common notation and width. -/
def floatWords (numbers : List Float32) : List String :=
  let write :=
    if needsExponent numbers then scientificWord (longestFraction numbers) else positionalWord
  let words := numbers.map (wordOf write)
  let finite := words.filterMap Except.toOption
  let right := widest (finite.map Word.behind)
  let left := max (widest (finite.map Word.whole)) (specialRoom numbers right)
  words.map (Widths.place ⟨left, right⟩)

/-- The elements as texts of one width; a lone truth value is not filled up. -/
def words (tensor : Tensor) : List String :=
  match tensor.elements with
  | .bool items =>
      if tensor.isScalar then items.map boolWord
      else items.map fun item => if item then " True" else "False"
  | .int32 items =>
      let texts := items.map fun item => toString item.toInt
      texts.map (padLeft (widest texts))
  | .float32 items => floatWords items

/-- Blanks at the end of a text are dropped. -/
def trimRight (text : String) : String :=
  String.ofList (text.toList.reverse.dropWhile (· == ' ')).reverse

/-- Finished lines and the line that is being filled. -/
structure Page where
  done : String
  line : String

/-- Put a word on the line, or on a new one when it does not fit and the line
holds something already. -/
def Page.extend (page : Page) (word : String) (width : Nat) (indent : String) : Page :=
  if width < page.line.length + word.length ∧ indent.length < page.line.length then
    ⟨page.done ++ trimRight page.line ++ "\n", indent ++ word⟩
  else
    ⟨page.done, page.line ++ word⟩

/-- Fill lines with words that are separated from each other. -/
def fillLines (separator : String) (width : Nat) (indent : String) (page : Page) :
    List String → Page
  | [] => page
  | [word] => page.extend word width indent
  | word :: rest =>
      let extended := page.extend word width indent
      fillLines separator width indent { extended with line := extended.line ++ separator } rest

/-- Rows of a block under each other. -/
def stackRows (indent separator : String) : List String → String
  | [] => ""
  | [row] => indent ++ row
  | row :: rest => indent ++ row ++ separator ++ stackRows indent separator rest

def dropChars (count : Nat) (text : String) : String :=
  String.ofList (text.toList.drop count)

/-- An axis as it is written: of one that is cut only both ends are left. -/
structure Axis where
  extent : Nat
  isCut : Bool

/-- The items at each end of an axis that is cut. -/
def edge : Nat := 3

/-- What stands for the items that were cut. -/
def ellipsis : String := "..."

/-- The ends of a list with an ellipsis between them. -/
def Axis.fill (axis : Axis) (texts : List String) : List String :=
  if axis.isCut then texts.take edge ++ ellipsis :: texts.drop edge else texts

/-- Nested brackets around the words of a block. -/
def brackets (separator : String) (indent : String) (width : Nat) :
    List Axis → List String → String
  | [], words => words.headD ""
  | [axis], words =>
      let room := width - max (trimRight separator).length 1
      let page := fillLines separator room indent ⟨"", indent⟩ (axis.fill words)
      "[" ++ dropChars indent.length (page.done ++ page.line) ++ "]"
  | axis :: axes, words =>
      let parts := pieces (positionCount (axes.map Axis.extent)) axis.extent words
      let rows := parts.map (brackets separator (indent ++ " ") (width - 1) axes)
      let lineEnd := trimRight separator ++ String.ofList (List.replicate axes.length '\n')
      "[" ++ dropChars indent.length (stackRows indent lineEnd (axis.fill rows)) ++ "]"

/-- Axes that are written in full. -/
def fullAxes (shape : List Nat) : List Axis :=
  shape.map fun extent => ⟨extent, false⟩

/-- Axes of which the long ones are cut. -/
def cutAxes (shape : List Nat) : List Axis :=
  shape.map fun extent => if 2 * edge < extent then ⟨2 * edge, true⟩ else ⟨extent, false⟩

/-- The items that are left when the long axes are cut. -/
def edges {α : Type} : List Nat → List α → List α
  | [], items => items
  | extent :: shape, items =>
      let parts := pieces (positionCount shape) extent items
      let kept :=
        if 2 * edge < extent then parts.take edge ++ parts.drop (extent - edge) else parts
      kept.flatMap (edges shape)

/-- A tensor with more elements than this is cut. -/
def threshold : Nat := 1000

/-- Lines have at most this many columns. -/
def lineWidth : Nat := 75

/-- The block of a tensor.  `lead` is the width of what stands before it and
`tail` of what follows on its last line. -/
def block (tensor : Tensor) (separator : String) (lead tail : Nat) : String :=
  let write := brackets separator (blanks (lead + 1)) (lineWidth - tail)
  if tensor.size = 0 then "[]"
  else if threshold < tensor.size then
    write (cutAxes tensor.shape)
      (words { tensor with elements := tensor.elements.rearrange (edges tensor.shape) })
  else write (fullAxes tensor.shape) (words tensor)

/-- A tuple of extents. -/
def shapeText : List Nat → String
  | [extent] => s!"({extent},)"
  | shape => "(" ++ String.intercalate ", " (shape.map toString) ++ ")"

end Display

/-- The plain text of a tensor; a single number is written in full. -/
def plainText (tensor : Tensor) : String :=
  match tensor.shape, tensor.elements with
  | [], .float32 [number] => Decimal.singleText number
  | _, _ => Display.block tensor " " 0 0

/-- The text of a tensor inside a formatted text: a single floating-point number
is widened to double precision first. -/
def formattedText (tensor : Tensor) : String :=
  match tensor.shape, tensor.elements with
  | [], .float32 [number] => Decimal.doubleText number.toFloat
  | _, _ => tensor.plainText

/-- The column at which the last line of a text ends. -/
def lastLineLength (text : String) : Nat :=
  (text.toList.reverse.takeWhile (· != '\n')).length

/-- The text of a tensor with its element type and weakness. -/
def describedText (tensor : Tensor) : String :=
  let type := s!"dtype={tensor.type.name}" ++ (if tensor.weak then ", weak_type=True)" else ")")
  let content :=
    if tensor.size = 0 then "[], shape=" ++ Display.shapeText tensor.shape
    else Display.block tensor ", " 6 1
  let separator :=
    if Display.lineWidth < lastLineLength content + 2 + type.length + 1 then Display.blanks 6
    else " "
  "Array(" ++ content ++ "," ++ separator ++ type

end FlowGraph.Tensor
