import BuildPipeline.Number.Decimal
import BuildPipeline.Text.Blank
import BuildPipeline.Text.Casing
import BuildPipeline.Text.Letters
import BuildPipeline.Text.Search

/-!
# Tokens of the condition language

Reading takes the longest token at each place and skips blanks between tokens.  A text in single
quotes holds any characters, a quote being written twice.  A number is an optional minus sign and a
run of digits and points that reads as one number; there is no exponent.  A word starts with an
ASCII letter or an underscore and may go on with letters and digits of any script.

A fault is located by the number of UTF-8 bytes before it.
-/

namespace BuildPipeline.Expression

inductive Token where
  | nullWord
  | trueWord
  | falseWord
  | number (value : Binary64)
  | string (text : String)
  | identifier (name : String)
  | equal
  | notEqual
  | less
  | lessEqual
  | greater
  | greaterEqual
  | and
  | or
  | not
  | dot
  | comma
  | leftParen
  | rightParen
  | leftBracket
  | rightBracket
  deriving DecidableEq

/-- A token as messages show it. -/
def Token.text : Token → String
  | nullWord => "null"
  | trueWord => "true"
  | falseWord => "false"
  | number value => value.write .plain
  | string text => "'" ++ text ++ "'"
  | identifier name => name
  | equal => "=="
  | notEqual => "!="
  | less => "<"
  | lessEqual => "<="
  | greater => ">"
  | greaterEqual => ">="
  | and => "&&"
  | or => "||"
  | not => "!"
  | dot => "."
  | comma => ","
  | leftParen => "("
  | rightParen => ")"
  | leftBracket => "["
  | rightBracket => "]"

/-! ## Faults -/

inductive LexicalFault where
  | unpairedOperator (operator : String)
  | unterminatedString
  | invalidNumber (text : String)
  | unexpectedCharacter (c : Char)
  deriving DecidableEq

def LexicalFault.message : LexicalFault → String
  | unpairedOperator operator => "expected '" ++ operator ++ "' operator"
  | unterminatedString => "unterminated string"
  | invalidNumber text => "invalid number: " ++ text
  | unexpectedCharacter c => "unexpected character: '" ++ String.singleton c ++ "'"

/-- A fault and the number of bytes before it. -/
structure LexicalError where
  fault : LexicalFault
  offset : Nat
  deriving DecidableEq

def LexicalError.message (e : LexicalError) : String :=
  "lex error at position " ++ toString e.offset ++ ": " ++ e.fault.message

/-! ## Reading one token -/

/-- The text up to a single quote that is not doubled, and what follows that quote. -/
def readQuoted? : List Char → Option (List Char × List Char)
  | [] => none
  | '\'' :: '\'' :: rest => (readQuoted? rest).map fun (text, after) => ('\'' :: text, after)
  | '\'' :: rest => some ([], rest)
  | c :: rest => (readQuoted? rest).map fun (text, after) => (c :: text, after)

def isNumberChar (c : Char) : Bool :=
  c.isDigit || c == '.'

def isWordChar (c : Char) : Bool :=
  Text.isAlphanumeric c || c == '_' || c == '-'

def isWordStart (c : Char) : Bool :=
  c.isAlpha || c == '_'

/-- The token that a word is: three words are literals in any letter case. -/
def wordToken (word : String) : Token :=
  let folded := Text.lower word
  if folded = "null" then .nullWord
  else if folded = "true" then .trueWord
  else if folded = "false" then .falseWord
  else .identifier word

/-- An operator of two characters, or of its first one alone. -/
def readOperator (second : Char) (joined : Token) (alone : Except LexicalFault Token) :
    List Char → Except LexicalFault (Token × List Char)
  | [] => alone.map (·, [])
  | c :: rest => if c = second then .ok (joined, rest) else alone.map (·, c :: rest)

/-- The number that starts with a digit or a minus sign and goes on over digits and points. -/
def readNumber (c : Char) (rest : List Char) : Except LexicalFault (Token × List Char) :=
  let digits := c :: rest.takeWhile isNumberChar
  match Binary64.readChars? digits with
  | some value => .ok (.number value, rest.dropWhile isNumberChar)
  | none => .error (.invalidNumber (String.ofList digits))

/-- The token at the start of a text whose first character is not blank, and what follows it. -/
def readToken (c : Char) (rest : List Char) : Except LexicalFault (Token × List Char) :=
  match c with
  | '.' => .ok (.dot, rest)
  | ',' => .ok (.comma, rest)
  | '(' => .ok (.leftParen, rest)
  | ')' => .ok (.rightParen, rest)
  | '[' => .ok (.leftBracket, rest)
  | ']' => .ok (.rightBracket, rest)
  | '=' => readOperator '=' .equal (.error (.unpairedOperator "==")) rest
  | '!' => readOperator '=' .notEqual (.ok .not) rest
  | '<' => readOperator '=' .lessEqual (.ok .less) rest
  | '>' => readOperator '=' .greaterEqual (.ok .greater) rest
  | '&' => readOperator '&' .and (.error (.unpairedOperator "&&")) rest
  | '|' => readOperator '|' .or (.error (.unpairedOperator "||")) rest
  | '\'' =>
    match readQuoted? rest with
    | some (text, after) => .ok (.string (String.ofList text), after)
    | none => .error .unterminatedString
  | c =>
    if c.isDigit || c == '-' then readNumber c rest
    else if isWordStart c then
      .ok (wordToken (String.ofList (c :: rest.takeWhile isWordChar)), rest.dropWhile isWordChar)
    else .error (.unexpectedCharacter c)

/-! ## Every token takes at least one character -/

theorem length_dropWhile_le (p : Char → Bool) (text : List Char) :
    (text.dropWhile p).length ≤ text.length := by
  induction text with
  | nil => simp
  | cons c rest ih =>
    rw [List.dropWhile_cons]
    split
    · exact Nat.le_succ_of_le ih
    · exact Nat.le_refl _

theorem readQuoted?_length {text quotedText after : List Char}
    (hread : readQuoted? text = some (quotedText, after)) : after.length ≤ text.length := by
  induction text using readQuoted?.induct generalizing quotedText with
  | case1 => simp [readQuoted?] at hread
  | case2 rest ih =>
    rw [readQuoted?] at hread
    obtain ⟨⟨inner, left⟩, hinner, heq⟩ := Option.map_eq_some_iff.1 hread
    obtain ⟨-, rfl⟩ := Prod.mk.inj heq
    have := ih hinner
    simp only [List.length_cons]
    omega
  | case3 rest hrest =>
    rw [readQuoted?] at hread
    · obtain ⟨-, rfl⟩ := Prod.mk.inj (Option.some.inj hread)
      simp
    · exact hrest
  | case4 c rest hdouble hsingle ih =>
    rw [readQuoted?] at hread
    · obtain ⟨⟨inner, left⟩, hinner, heq⟩ := Option.map_eq_some_iff.1 hread
      obtain ⟨-, rfl⟩ := Prod.mk.inj heq
      have := ih hinner
      simp only [List.length_cons]
      omega
    · exact hdouble
    · exact hsingle

theorem readOperator_length {second : Char} {joined token : Token}
    {alone : Except LexicalFault Token} {text after : List Char}
    (hread : readOperator second joined alone text = .ok (token, after)) :
    after.length ≤ text.length := by
  cases text with
  | nil =>
    cases alone <;> simp [readOperator, Except.map] at hread
    simp [hread]
  | cons c rest =>
    rw [readOperator] at hread
    split at hread
    · cases hread
      simp
    · cases alone <;> simp [Except.map] at hread
      simp [← hread.2]

theorem readNumber_length {c : Char} {rest after : List Char} {token : Token}
    (hread : readNumber c rest = .ok (token, after)) : after.length ≤ rest.length := by
  simp only [readNumber] at hread
  split at hread
  · cases hread
    exact length_dropWhile_le _ _
  · cases hread

theorem readToken_length {c : Char} {rest after : List Char} {token : Token}
    (hread : readToken c rest = .ok (token, after)) : after.length ≤ rest.length := by
  unfold readToken at hread
  split at hread
  all_goals first
    | (cases hread; exact Nat.le_refl _)
    | exact readOperator_length hread
    | skip
  · split at hread
    · rename_i hquoted
      cases hread
      exact readQuoted?_length hquoted
    · cases hread
  · split at hread
    · exact readNumber_length hread
    · split at hread
      · cases hread
        exact length_dropWhile_le _ _
      · cases hread

/-! ## Reading all tokens -/

/-- The tokens of the rest of a text that has `size` bytes in all. -/
def tokensFrom (size : Nat) (text : List Char) : Except LexicalError (List Token) :=
  match _hskip : text.dropWhile Text.isBlank with
  | [] => .ok []
  | c :: rest =>
    match _hread : readToken c rest with
    | .error fault => .error ⟨fault, size - Text.byteLength (c :: rest)⟩
    | .ok (token, after) =>
      match tokensFrom size after with
      | .error e => .error e
      | .ok tokens => .ok (token :: tokens)
termination_by text.length
decreasing_by
  have hafter := readToken_length _hread
  have hblank := length_dropWhile_le Text.isBlank text
  rw [_hskip] at hblank
  simp only [List.length_cons] at hblank
  omega

/-- The tokens of a text, blanks between them left out. -/
def tokenize (text : String) : Except LexicalError (List Token) :=
  tokensFrom (Text.byteLength text.toList) text.toList

end BuildPipeline.Expression
