import BuildPipeline.Text.Search

/-!
# Tokens of shell scripts

A script is cut into words and operators.  A word is a sequence of pieces: characters, with or
without quotes, and expansions, which get their text when the command is run.  Only the text of an
expansion without quotes is cut at blanks.
-/

namespace BuildPipeline.Shell

inductive Piece where
  | bare (c : Char)
  | quoted (c : Char)
  /-- A pair of quotes, which makes a word of nothing. -/
  | quotes
  /-- A variable, with what stands for it when it has no value. -/
  | parameter (name : String) (fallback : String) (isQuoted : Bool)
  /-- What another script writes. -/
  | output (body : String) (isQuoted : Bool)
  deriving DecidableEq, Repr

abbrev Word := List Piece

/-- Where a stream is led. -/
inductive Direction where
  | duplicate
  | overwrite
  | append
  | read
  deriving DecidableEq, Repr

inductive Token where
  | word (pieces : Word)
  | redirect (stream : Option Nat) (direction : Direction)
  | newline
  | semicolon
  | and
  | or
  | pipe
  deriving DecidableEq, Repr

/-- Why a text is no script. -/
inductive SyntaxFault where
  | openQuote
  | badSubstitution
  | unexpected (token : String)
  | unexpectedEnd
  deriving DecidableEq, Repr

def SyntaxFault.message : SyntaxFault → String
  | openQuote => "Syntax error: Unterminated quoted string"
  | badSubstitution => "Bad substitution"
  | unexpected token => "Syntax error: \"" ++ token ++ "\" unexpected"
  | unexpectedEnd => "Syntax error: end of file unexpected"

/-! ## Expansions -/

/-- Characters of names of variables. -/
def isNameChar (c : Char) : Bool :=
  c.isAlphanum || c == '_'

/-- Variables whose name is one character that is no letter. -/
def isSpecialName (c : Char) : Bool :=
  c.isDigit || "?$#!@*-".toList.contains c

/-- The length of the text before the parenthesis that closes `depth` open ones. -/
def enclosedLength? (depth : Nat) : List Char → Option Nat
  | [] => none
  | c :: rest =>
    if c = ')' then if depth = 0 then some 0 else (enclosedLength? (depth - 1) rest).map (· + 1)
    else if c = '(' then (enclosedLength? (depth + 1) rest).map (· + 1)
    else (enclosedLength? depth rest).map (· + 1)

/-- The name at the beginning of a text. -/
def leadingName (text : List Char) : List Char :=
  match text with
  | c :: _ => if isSpecialName c then [c] else text.takeWhile isNameChar
  | [] => []

/-- The expansion behind a dollar sign and the number of characters it takes. -/
def expansion (isQuoted : Bool) (text : List Char) : Except SyntaxFault (Piece × Nat) :=
  match text with
  | '(' :: rest =>
    match enclosedLength? 0 rest with
    | some length => .ok (.output (String.ofList (rest.take length)) isQuoted, length + 2)
    | none => .error .unexpectedEnd
  | '\x7b' :: rest =>
    let name := leadingName rest
    let parameter (fallback : List Char) : Piece :=
      .parameter (String.ofList name) (String.ofList fallback) isQuoted
    match name, rest.drop name.length with
    | [], _ => .error .badSubstitution
    | _, '\x7d' :: _ => .ok (parameter [], name.length + 2)
    | _, ':' :: '-' :: more =>
      let fallback := more.takeWhile (· ≠ '\x7d')
      if fallback.length < more.length then
        .ok (parameter fallback, name.length + fallback.length + 4)
      else .error .badSubstitution
    | _, _ => .error .badSubstitution
  | _ =>
    let name := leadingName text
    if name = [] then .ok (.quoted '$', 0)
    else .ok (.parameter (String.ofList name) "" isQuoted, name.length)

/-! ## Scanning -/

inductive Quoting where
  | bare
  | single
  | double
  deriving DecidableEq

/-- A word under construction, its last piece first. -/
abbrev OpenWord := Option Word

def OpenWord.add (word : OpenWord) (piece : Piece) : OpenWord :=
  some (piece :: word.getD [])

/-- Put a finished word in front of what follows. -/
def OpenWord.close (word : OpenWord) (tokens : List Token) : List Token :=
  match word with
  | none => tokens
  | some pieces => .word pieces.reverse :: tokens

/-- The number of a stream directly before a redirection, and the word without it. -/
def OpenWord.stream (word : OpenWord) : Option Nat × OpenWord :=
  match word with
  | some [.bare c] => if c.isDigit then (some (c.toNat - '0'.toNat), none) else (none, word)
  | _ => (none, word)

/-- A redirection that a word precedes. -/
def OpenWord.redirect (word : OpenWord) (direction : Direction) (tokens : List Token) :
    List Token :=
  let (stream, word) := word.stream
  word.close (.redirect stream direction :: tokens)

/-- Cut a text into tokens; `skipped` characters were taken before. -/
def scan (skipped : Nat) (quoting : Quoting) (word : OpenWord) :
    List Char → Except SyntaxFault (List Token)
  | [] => if quoting = .bare then .ok (word.close []) else .error .openQuote
  | c :: rest =>
    match skipped with
    | skipped + 1 => scan skipped quoting word rest
    | 0 =>
      let expand (isQuoted : Bool) : Except SyntaxFault (List Token) := do
        let (piece, length) ← expansion isQuoted rest
        scan length quoting (word.add piece) rest
      let substitute (isQuoted : Bool) : Except SyntaxFault (List Token) :=
        let body := rest.takeWhile (· ≠ '`')
        if body.length < rest.length then
          scan (body.length + 1) quoting (word.add (.output (String.ofList body) isQuoted)) rest
        else .error .unexpectedEnd
      match quoting with
      | .single =>
        if c = '\'' then scan 0 .bare word rest else scan 0 .single (word.add (.quoted c)) rest
      | .double =>
        if c = '"' then scan 0 .bare word rest
        else if c = '$' then expand true
        else if c = '`' then substitute true
        else if c = '\\' then
          match rest.head? with
          | some '\n' => scan 1 .double word rest
          | some next =>
            if "$`\"\\".toList.contains next then scan 1 .double (word.add (.quoted next)) rest
            else scan 0 .double (word.add (.quoted c)) rest
          | none => .error .openQuote
        else scan 0 .double (word.add (.quoted c)) rest
      | .bare =>
        if c = '\'' then scan 0 .single (word.add .quotes) rest
        else if c = '"' then scan 0 .double (word.add .quotes) rest
        else if c = '$' then expand false
        else if c = '`' then substitute false
        else if c = '\\' then
          match rest.head? with
          | some '\n' => scan 1 .bare word rest
          | some next => scan 1 .bare (word.add (.quoted next)) rest
          | none => scan 0 .bare (word.add (.quoted c)) rest
        else if c = ' ' ∨ c = '\t' then return word.close (← scan 0 .bare none rest)
        else if c = '\n' then return word.close (.newline :: (← scan 0 .bare none rest))
        else if c = ';' then return word.close (.semicolon :: (← scan 0 .bare none rest))
        else if c = '#' ∧ word = none then
          scan (rest.takeWhile (· ≠ '\n')).length .bare none rest
        else if c = '&' then
          if rest.head? = some '&' then return word.close (.and :: (← scan 1 .bare none rest))
          else .error (.unexpected "&")
        else if c = '|' then
          if rest.head? = some '|' then return word.close (.or :: (← scan 1 .bare none rest))
          else return word.close (.pipe :: (← scan 0 .bare none rest))
        else if c = '<' then return word.redirect .read (← scan 0 .bare none rest)
        else if c = '>' then
          match rest.head? with
          | some '&' => return word.redirect .duplicate (← scan 1 .bare none rest)
          | some '>' => return word.redirect .append (← scan 1 .bare none rest)
          | _ => return word.redirect .overwrite (← scan 0 .bare none rest)
        else if c = '(' ∨ c = ')' then .error (.unexpected (String.singleton c))
        else scan 0 .bare (word.add (.bare c)) rest

def tokenize (body : String) : Except SyntaxFault (List Token) :=
  scan 0 .bare none body.toList

end BuildPipeline.Shell
