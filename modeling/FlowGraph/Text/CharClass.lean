import FlowGraph.Text.HiddenTable
import FlowGraph.Text.NameTable

/-!
# Character classes

The blanks that are stripped around numbers and names, the characters that have
no visible form and are written by their code, and the characters of names.
-/

namespace FlowGraph.Text

/-- Whether a code point lies in one of the ranges, both ends included. -/
def inRanges (ranges : List (Nat × Nat)) (character : Char) : Bool :=
  ranges.any fun (first, last) => first ≤ character.toNat && character.toNat ≤ last

/-- Blanks: the separators, and the control characters that act as one. -/
def blankRanges : List (Nat × Nat) :=
  [(0x09, 0x0d), (0x1c, 0x20), (0x85, 0x85), (0xa0, 0xa0), (0x1680, 0x1680),
    (0x2000, 0x200a), (0x2028, 0x2029), (0x202f, 0x202f), (0x205f, 0x205f),
    (0x3000, 0x3000)]

/-- Whether a character is a blank. -/
def isBlank (character : Char) : Bool :=
  inRanges blankRanges character

/-- Whether a character has no visible form. -/
def isHidden (character : Char) : Bool :=
  inRanges hiddenRanges character

/-- Drop the blanks at both ends. -/
def stripBlanks (characters : List Char) : List Char :=
  ((characters.dropWhile isBlank).reverse.dropWhile isBlank).reverse

/-- The parts of a text between separators; there is always at least one. -/
def splitAt (separator : Char) : List Char → List (List Char)
  | [] => [[]]
  | character :: rest =>
      if character = separator then
        [] :: splitAt separator rest
      else
        match splitAt separator rest with
        | [] => [[character]]
        | part :: parts => (character :: part) :: parts

/-- Whether a character may start a name. -/
def startsName (character : Char) : Bool :=
  inRanges nameStartRanges character

/-- Whether a character may follow in a name. -/
def continuesName (character : Char) : Bool :=
  startsName character || inRanges namePartRanges character

/-- Whether a text is a name. -/
def isIdentifier (text : String) : Bool :=
  match text.toList with
  | [] => false
  | first :: rest => startsName first && rest.all continuesName

end FlowGraph.Text
