import BuildPipeline.Yaml.Cursor
import BuildPipeline.Yaml.Scalar

/-!
# Styles of scalars

How a text is written as a scalar: as it is, in single quotes, in double quotes with escapes, or as
a literal block with its own line endings.  A text with a newline asks for a block and a text that
would be read as something else for single quotes; each gets the next style that can hold it.
-/

namespace BuildPipeline.Yaml

/-- Characters that are written without an escape. -/
def isPrintable (c : Char) : Bool :=
  let n := c.toNat
  n == 0x0a || (0x20 ≤ n && n ≤ 0x7e) || (0xa0 ≤ n && n ≤ 0xd7ff) ||
    (0xe000 ≤ n && n ≤ 0xfffd && n != 0xfeff) || 0x10000 ≤ n

/-- Characters that have a meaning at the beginning of a scalar. -/
def isIndicator (c : Char) : Bool :=
  "#,[]\x7b\x7d&*!|>'\"%@`".toList.contains c

/-! ## What a style can hold -/

/-- Whether one character directly before another satisfies a condition. -/
def anyNeighbours (condition : Char → Char → Bool) : List Char → Bool
  | a :: b :: rest => condition a b || anyNeighbours condition (b :: rest)
  | _ => false

/-- Whether a line begins with a blank. -/
def hasBreakBeforeSpace (text : List Char) : Bool :=
  anyNeighbours (fun a b => isBreak a && b == ' ') text

/-- Whether a line ends with a blank. -/
def hasSpaceBeforeBreak (text : List Char) : Bool :=
  anyNeighbours (fun a b => a == ' ' && isBreak b) text

def isBlankOrBreak (c : Char) : Bool :=
  isSpaceOrTab c || isBreak c

/-- Whether a text begins like a mark of the syntax. -/
def startsLikeMark : List Char → Bool
  | '-' :: '-' :: '-' :: _ | '.' :: '.' :: '.' :: _ => true
  | c :: rest => isIndicator c || ((c == '?' || c == ':' || c == '-') && startsBlank rest)
  | [] => false

/-- Whether a colon before a blank or a number sign behind one stands inside a text. -/
def holdsMark : List Char → Bool
  | a :: b :: rest =>
    (b == ':' && startsBlank rest) || (b == '#' && isBlankOrBreak a) || holdsMark (b :: rest)
  | _ => false

def isAtEdge (condition : Char → Bool) (text : List Char) : Bool :=
  text.head?.any condition || text.getLast?.any condition

/-- Whether a text can stand without quotes. -/
def canBePlain (text : List Char) : Bool :=
  text.all (fun c => isPrintable c && !isBreak c) && !isAtEdge (· == ' ') text &&
    !startsLikeMark text && !holdsMark text && !text.isEmpty

def canBeSingleQuoted (text : List Char) : Bool :=
  text.all isPrintable && !hasBreakBeforeSpace text && !hasSpaceBeforeBreak text

def canBeBlock (text : List Char) : Bool :=
  text.all isPrintable && !hasSpaceBeforeBreak text && text.getLast? ≠ some ' ' && !text.isEmpty

/-! ## The choice -/

inductive ScalarStyle where
  | plain
  | single
  | double
  | block
  deriving DecidableEq, Repr

/-- Whether a text without quotes is read as a text. -/
def readsAsText (text : String) : Bool :=
  resolve text = .text && !isPaddedNumber text.toList

/-- The style of a text; a key before its colon is no block. -/
def styleOf (isKey : Bool) (text : String) : ScalarStyle :=
  let chars := text.toList
  let quoted : ScalarStyle := if canBeSingleQuoted chars then .single else .double
  if chars.contains '\n' then if canBeBlock chars && !isKey then .block else .double
  else if readsAsText text && canBePlain chars then .plain
  else quoted

/-! ## The texts -/

def spaces (count : Nat) : List Char :=
  List.replicate count ' '

/-- Indent each line behind a line ending that holds anything. -/
def indentLines (indentation : Nat) (isAfterBreak : Bool) : List Char → List Char
  | [] => []
  | c :: rest =>
    if isBreak c then c :: indentLines indentation true rest
    else
      (if isAfterBreak then spaces indentation else []) ++
        c :: indentLines indentation false rest

/-- The text between single quotes. -/
def singleQuoted (indentation : Nat) (text : List Char) : List Char :=
  let doubled := text.flatMap fun c => if c = '\'' then [c, c] else [c]
  let finish := if text.getLast?.any isBreak then spaces indentation else []
  '\'' :: indentLines indentation false doubled ++ finish ++ ['\'']

/-- Hexadecimal digits up to a width. -/
def hexadecimal (width n : Nat) : List Char :=
  let digits := (Nat.toDigits 16 n).map Char.toUpper
  List.replicate (width - digits.length) '0' ++ digits

/-- The letter of an escape. -/
def escapeLetter? (c : Char) : Option Char :=
  [(0x00, '0'), (0x07, 'a'), (0x08, 'b'), (0x09, 't'), (0x0a, 'n'), (0x0b, 'v'), (0x0c, 'f'),
    (0x0d, 'r'), (0x1b, 'e'), (0x22, '"'), (0x5c, '\\'), (0x85, 'N'), (0xa0, '_'), (0x2028, 'L'),
    (0x2029, 'P')].lookup c.toNat

def escaped (c : Char) : List Char :=
  let n := c.toNat
  match escapeLetter? c with
  | some letter => ['\\', letter]
  | none =>
    if n ≤ 0xff then '\\' :: 'x' :: hexadecimal 2 n
    else if n ≤ 0xffff then '\\' :: 'u' :: hexadecimal 4 n
    else '\\' :: 'U' :: hexadecimal 8 n

/-- The text between double quotes. -/
def doubleQuoted (text : List Char) : List Char :=
  '"' :: text.flatMap
    (fun c => if !isPrintable c || isBreak c || c == '"' || c == '\\' then escaped c else [c]) ++
    ['"']

/-- What is said about the line endings at the end of a block: nothing for a single one, a minus
sign for none and a plus sign for more. -/
def chomping (text : List Char) : List Char :=
  match text.reverse with
  | [] => ['-']
  | last :: earlier =>
    if !isBreak last then ['-']
    else if earlier.head?.all isBreak then ['+']
    else []

/-- The text as a block with its header.  A block that begins with a blank or an empty line has to
say how far it is indented. -/
def blockText (indentation : Nat) (text : List Char) : List Char :=
  let hint := if text.head?.any fun c => c == ' ' || isBreak c then ['2'] else []
  '|' :: hint ++ chomping text ++ '\n' :: indentLines indentation true text

/-- A text as a scalar whose further lines are indented. -/
def scalarText (isKey : Bool) (indentation : Nat) (text : String) : String :=
  let chars := text.toList
  String.ofList <|
    match styleOf isKey text with
    | .plain => chars
    | .single => singleQuoted indentation chars
    | .double => doubleQuoted chars
    | .block => blockText indentation chars

end BuildPipeline.Yaml
