import BuildPipeline.Number.Total

/-!
# Searching and cutting text

Prefixes, first occurrences, replacement and lines, on lists of characters.  A line ends at a
newline, with a carriage return before it belonging to the line ending; what follows the last
newline is a line only if it is not empty.
-/

namespace BuildPipeline.Text

/-- What follows `start` in the text. -/
def stripStart? : List Char → List Char → Option (List Char)
  | [], text => some text
  | _ :: _, [] => none
  | expected :: start, c :: text => if expected = c then stripStart? start text else none

theorem stripStart?_length {start text rest : List Char}
    (hstrip : stripStart? start text = some rest) : rest.length + start.length = text.length := by
  induction start generalizing text with
  | nil =>
    cases hstrip
    rfl
  | cons expected start ih =>
    cases text with
    | nil => cases hstrip
    | cons c text =>
      rw [stripStart?] at hstrip
      split at hstrip
      · have := ih hstrip
        simp only [List.length_cons]
        omega
      · cases hstrip

def startsWith (start text : List Char) : Bool :=
  (stripStart? start text).isSome

def endsWith (finish text : List Char) : Bool :=
  startsWith finish.reverse text.reverse

/-- What precedes `finish` at the end of the text. -/
def stripEnd? (finish text : List Char) : Option (List Char) :=
  (stripStart? finish.reverse text.reverse).map List.reverse

/-- Whether the pattern occurs anywhere. -/
def occursIn (pattern : List Char) : List Char → Bool
  | [] => pattern.isEmpty
  | c :: text => startsWith pattern (c :: text) || occursIn pattern text

/-- The parts before and after the first occurrence. -/
def splitOnce? (pattern : List Char) : List Char → Option (List Char × List Char)
  | [] => if pattern.isEmpty then some ([], []) else none
  | c :: text =>
    match stripStart? pattern (c :: text) with
    | some rest => some ([], rest)
    | none => (splitOnce? pattern text).map fun (before, after) => (c :: before, after)

/-- Replace occurrences from left to right; `skipped` characters belong to the one just replaced. -/
def replaceFrom (pattern replacement : List Char) : Nat → List Char → List Char
  | _, [] => []
  | skipped + 1, _ :: text => replaceFrom pattern replacement skipped text
  | 0, c :: text =>
    if startsWith pattern (c :: text) then
      replacement ++ replaceFrom pattern replacement (pattern.length - 1) text
    else c :: replaceFrom pattern replacement 0 text

/-- Replace every occurrence of a pattern that is not empty. -/
def replaceAll (pattern replacement text : List Char) : List Char :=
  replaceFrom pattern replacement 0 text

/-- The pieces between separators, one more than there are separators. -/
def splitAt (separator : Char) : List Char → List (List Char)
  | [] => [[]]
  | c :: text =>
    if c = separator then [] :: splitAt separator text
    else
      match splitAt separator text with
      | [] => [[c]]
      | piece :: pieces => (c :: piece) :: pieces

/-! ## Lines -/

/-- The lines that a newline ends, and the text after the last newline. -/
def terminatedLines : List Char → List (List Char) × List Char
  | [] => ([], [])
  | c :: text =>
    let (lines, rest) := terminatedLines text
    if c = '\n' then ([] :: lines, rest)
    else
      match lines with
      | [] => ([], c :: rest)
      | line :: others => ((c :: line) :: others, rest)

/-- A line without the carriage return of its ending. -/
def dropCarriageReturn (line : List Char) : List Char :=
  (stripEnd? ['\r'] line).getD line

def lineChars (text : List Char) : List (List Char) :=
  let (lines, rest) := terminatedLines text
  lines.map dropCarriageReturn ++ (if rest = [] then [] else [rest])

def lines (text : String) : List String :=
  (lineChars text.toList).map String.ofList

/-! ## On strings -/

/-- Whether the pattern occurs anywhere. -/
def contains (text pattern : String) : Bool :=
  occursIn pattern.toList text.toList

/-- The number of bytes of a text in UTF-8. -/
def byteLength (text : List Char) : Nat :=
  total (text.map Char.utf8Size)

/-- Spaces in front, up to a width. -/
def padLeft (width : Nat) (text : String) : String :=
  String.ofList (List.replicate (width - text.length) ' ') ++ text

def joinWith (separator : String) (parts : List String) : String :=
  separator.intercalate parts

end BuildPipeline.Text
