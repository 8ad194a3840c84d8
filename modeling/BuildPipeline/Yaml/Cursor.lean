import BuildPipeline.Yaml.Fault

/-!
# Cursors

What is left of a YAML text, and the place where that begins.  A line ends at a newline, a carriage
return, both together, or one of the three line separators beyond ASCII.
-/

namespace BuildPipeline.Yaml

def isBreak (c : Char) : Bool :=
  c == '\n' || c == '\r' || c.toNat == 0x85 || c.toNat == 0x2028 || c.toNat == 0x2029

def isSpaceOrTab (c : Char) : Bool :=
  c == ' ' || c == '\t'

/-- The characters of names of anchors, handles and directives. -/
def isNameChar (c : Char) : Bool :=
  c.isAlphanum || c == '_' || c == '-'

/-- The characters that a text may hold. -/
def isAllowed (c : Char) : Bool :=
  let n := c.toNat
  n == 0x09 || n == 0x0a || n == 0x0d || (0x20 ≤ n && n ≤ 0x7e) || n == 0x85 ||
    (0xa0 ≤ n && n ≤ 0xd7ff) || (0xe000 ≤ n && n ≤ 0xfffd && n != 0xfeff) || 0x10000 ≤ n

/-- Whether a text ends, or goes on with a blank or a line ending. -/
def startsBlank : List Char → Bool
  | [] => true
  | c :: _ => isSpaceOrTab c || isBreak c

/-- Whether a text ends or the line does. -/
def startsBreak : List Char → Bool
  | [] => true
  | c :: _ => isBreak c

structure Cursor where
  rest : List Char
  mark : Mark := {}

namespace Cursor

/-- Go on by some characters of the same line. -/
def skip (cursor : Cursor) (count : Nat) : Cursor :=
  ⟨cursor.rest.drop count, cursor.mark.forward count⟩

/-- The characters up to the first that is not of the kind asked for, which is none of a line
ending. -/
def takeWhile (cursor : Cursor) (kind : Char → Bool) : List Char × Cursor :=
  let run := cursor.rest.takeWhile kind
  (run, cursor.skip run.length)

def skipWhile (cursor : Cursor) (kind : Char → Bool) : Cursor :=
  (cursor.takeWhile kind).2

/-- The rest of the line. -/
def takeLine (cursor : Cursor) : List Char × Cursor :=
  cursor.takeWhile fun c => !isBreak c

/-- The line ending at the cursor, as the character that stands for it in a scalar. -/
def takeBreak? (cursor : Cursor) : Option (Char × Cursor) :=
  match cursor.rest with
  | '\r' :: '\n' :: rest => some ('\n', ⟨rest, cursor.mark.nextLine 2⟩)
  | c :: rest =>
    if isBreak c then
      let kept := if c.toNat == 0x2028 || c.toNat == 0x2029 then c else '\n'
      some (kept, ⟨rest, cursor.mark.nextLine 1⟩)
    else none
  | [] => none

/-- Whether a document marker, `---` or `...`, stands at the cursor. -/
def atDocumentMark (cursor : Cursor) : Bool :=
  cursor.mark.column == 0 &&
    match cursor.rest with
    | '-' :: '-' :: '-' :: rest => startsBlank rest
    | '.' :: '.' :: '.' :: rest => startsBlank rest
    | _ => false

/-- A fault at the cursor. -/
def fault (cursor : Cursor) (activity : Activity) (start : Mark) (problem : Problem) : Fault :=
  ⟨problem, cursor.mark, some (activity, start)⟩

end Cursor

end BuildPipeline.Yaml
