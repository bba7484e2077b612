import FlowGraph.Text.Label

/-!
# Labels are read back

A reader goes through a label from left to right and takes a backslash for the escape of the
next character.  `unescape` reads what lies between the quotation marks, and `readLabel` reads
a label at the start of a longer text.  Each label is read back as the text that it was made
of, and reading stops at the closing mark, whatever the text holds and whatever comes after.
-/

namespace FlowGraph.Text

/-- Put a backslash in front of one character wherever it stands. -/
def escapeEach (mark : Char) (characters : List Char) : List Char :=
  characters.flatMap fun character =>
    if character = mark then [backslash, character] else [character]

/-- Drop the escaping backslashes; `escaped` says that one was read just before.  There must
be no quotation mark that is not escaped, and no backslash without a character to escape. -/
def unescape (escaped : Bool) : List Char → Option (List Char)
  | [] => if escaped then none else some []
  | character :: rest =>
      if escaped then (unescape false rest).map (character :: ·)
      else if character = backslash then unescape true rest
      else if character = quotationMark then none
      else (unescape false rest).map (character :: ·)

/-- Read up to the first quotation mark that is not escaped.  What comes after it is left. -/
def readToMark (escaped : Bool) : List Char → Option (List Char × List Char)
  | [] => none
  | character :: rest =>
      if escaped then (readToMark false rest).map fun read => (character :: read.1, read.2)
      else if character = backslash then readToMark true rest
      else if character = quotationMark then some ([], rest)
      else (readToMark false rest).map fun read => (character :: read.1, read.2)

/-- Read a label at the start of a text, from its opening mark to the mark that closes it. -/
def readLabel : List Char → Option (List Char × List Char)
  | [] => none
  | character :: rest => if character = quotationMark then readToMark false rest else none

theorem quotationMark_ne_backslash : quotationMark ≠ backslash := by decide

/-- An escaped character is read as the character. -/
theorem unescape_escapeLabel (character : Char) (rest : List Char) :
    unescape false (escapeLabel character ++ rest) =
      (unescape false rest).map (character :: ·) := by
  by_cases special : character = backslash ∨ character = quotationMark
  · simp [escapeLabel, special, unescape]
  · obtain ⟨notBackslash, notMark⟩ := not_or.mp special
    simp [escapeLabel, unescape, notBackslash, notMark]

theorem unescape_flatMap_escapeLabel (characters : List Char) :
    unescape false (characters.flatMap escapeLabel) = some characters := by
  induction characters with
  | nil => rfl
  | cons character rest induction =>
      rw [List.flatMap_cons, unescape_escapeLabel, induction, Option.map_some]

/-- Labels are escaped in two rounds, backslashes first: what the second round adds stands in
front of quotation marks and does not touch the pairs of the first. -/
theorem flatMap_escapeLabel (characters : List Char) :
    characters.flatMap escapeLabel =
      escapeEach quotationMark (escapeEach backslash characters) := by
  induction characters with
  | nil => rfl
  | cons character rest induction =>
      simp only [escapeEach, List.flatMap_cons, List.flatMap_append] at induction ⊢
      rw [induction]
      congr 1
      by_cases isBackslash : character = backslash
      · simp [escapeLabel, isBackslash, quotationMark_ne_backslash.symm]
      · by_cases isMark : character = quotationMark
        · simp [escapeLabel, isMark, quotationMark_ne_backslash]
        · simp [escapeLabel, isBackslash, isMark]

/-- Where no mark is met on the way, the next mark ends the reading. -/
theorem readToMark_of_unescape {escaped : Bool} {inside text : List Char}
    (read : unescape escaped inside = some text) (rest : List Char) :
    readToMark escaped (inside ++ quotationMark :: rest) = some (text, rest) := by
  induction inside generalizing escaped text with
  | nil =>
      cases escaped with
      | true => cases read
      | false =>
          cases read
          simp [readToMark, quotationMark_ne_backslash]
  | cons character inside induction =>
      rw [unescape] at read
      rw [List.cons_append, readToMark]
      split at read
      next isEscaped =>
        obtain ⟨shorter, later, rfl⟩ := Option.map_eq_some_iff.mp read
        rw [if_pos isEscaped, induction later, Option.map_some]
      next isPlain =>
        rw [if_neg isPlain]
        split at read
        next isBackslash => rw [if_pos isBackslash, induction read]
        next notBackslash =>
          rw [if_neg notBackslash]
          split at read
          next => cases read
          next notMark =>
            obtain ⟨shorter, later, rfl⟩ := Option.map_eq_some_iff.mp read
            rw [if_neg notMark, induction later, Option.map_some]

theorem toList_label (text : String) :
    (label text).toList =
      quotationMark :: text.toList.flatMap escapeLabel ++ [quotationMark] := by
  rw [label, String.toList_ofList]

theorem readLabel_label (text : String) (rest : List Char) :
    readLabel ((label text).toList ++ rest) = some (text.toList, rest) := by
  rw [toList_label, List.append_assoc, List.cons_append, readLabel, if_pos rfl]
  exact readToMark_of_unescape (unescape_flatMap_escapeLabel text.toList) rest

theorem label_injective : Function.Injective label := by
  intro text other same
  have read := readLabel_label text []
  rw [same, readLabel_label other []] at read
  exact String.toList_injective (congrArg Prod.fst (Option.some.inj read)).symm

/-- A label is a text in quotation marks, with its backslashes and then its quotation marks
escaped.  What lies between the marks is read back as the text, with no unescaped mark and no
lone backslash on the way.  Reading the label in front of anything else ends at its closing
mark, and different texts have different labels. -/
theorem label_read_back (text other : String) (rest : List Char) :
    ∃ inside, (label text).toList = quotationMark :: inside ++ [quotationMark] ∧
      inside = escapeEach quotationMark (escapeEach backslash text.toList) ∧
      unescape false inside = some text.toList ∧
      readLabel ((label text).toList ++ rest) = some (text.toList, rest) ∧
      (label text = label other ↔ text = other) :=
  ⟨_, toList_label text, flatMap_escapeLabel text.toList,
    unescape_flatMap_escapeLabel text.toList, readLabel_label text rest, label_injective.eq_iff⟩

/-- The rounds cannot change places: the backslash that escapes a mark would be escaped. -/
example : unescape false (escapeEach backslash (escapeEach quotationMark [quotationMark])) =
    none := by
  decide

end FlowGraph.Text
