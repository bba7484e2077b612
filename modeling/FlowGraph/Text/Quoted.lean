import FlowGraph.Text.CharClass

/-!
# Quoted texts

A text is quoted with apostrophes, or with quotation marks when it holds an
apostrophe and no quotation mark.  The quote and the backslash are escaped, and
characters without a visible form are written by their code.
-/

namespace FlowGraph.Text

/-- The character `'`. -/
def apostrophe : Char := '\x27'

/-- The character `"`. -/
def quotationMark : Char := '\x22'

/-- The character `\`. -/
def backslash : Char := '\x5c'

/-- The last `width` hexadecimal digits of a number. -/
def hexDigits (number : Nat) : Nat → List Char
  | 0 => []
  | width + 1 => hexDigits (number / 16) width ++ [Nat.digitChar (number % 16)]

/-- A character by its code, in the shortest of the three escapes. -/
def codeEscape (character : Char) : List Char :=
  let code := character.toNat
  if code < 0x100 then backslash :: 'x' :: hexDigits code 2
  else if code < 0x10000 then backslash :: 'u' :: hexDigits code 4
  else backslash :: 'U' :: hexDigits code 8

/-- One character inside the given quotes. -/
def escapeWithin (quote character : Char) : List Char :=
  if character = quote ∨ character = backslash then [backslash, character]
  else if character = '\n' then [backslash, 'n']
  else if character = '\r' then [backslash, 'r']
  else if character = '\t' then [backslash, 't']
  else if isHidden character then codeEscape character
  else [character]

/-- The quote that needs fewer escapes, apostrophes being preferred. -/
def quoteFor (characters : List Char) : Char :=
  if characters.contains apostrophe && !characters.contains quotationMark then
    quotationMark
  else
    apostrophe

/-- A text as it is quoted in messages. -/
def quoted (text : String) : String :=
  let quote := quoteFor text.toList
  String.ofList (quote :: text.toList.flatMap (escapeWithin quote) ++ [quote])

end FlowGraph.Text
