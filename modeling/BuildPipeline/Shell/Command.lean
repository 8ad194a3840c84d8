import BuildPipeline.Shell.Token

/-!
# Commands of shell scripts

A script is a list of pipelines.  A pipeline runs always, or only after success or after failure of
what came before it; the commands in it each read what the one before wrote.  There are no compound
commands, functions or jobs in the background.
-/

namespace BuildPipeline.Shell

/-- What a stream is led to. -/
inductive Target where
  | stream (word : Word)
  | file (word : Word) (appends : Bool)
  | source (word : Word)
  deriving Repr

structure Redirection where
  /-- The stream that is led elsewhere; the one for reading has no number here. -/
  stream : Nat := 1
  target : Target
  deriving Repr

/-- A command with its words and redirections as written. -/
structure Command where
  /-- The number of its line. -/
  line : Nat := 1
  words : List Word := []
  redirections : List Redirection := []
  deriving Repr

def Command.isEmpty (command : Command) : Bool :=
  command.words.isEmpty && command.redirections.isEmpty

/-- When a pipeline is run. -/
inductive Link where
  | always
  | onSuccess
  | onFailure
  deriving DecidableEq, Repr

/-- Commands joined by pipes. -/
structure Line where
  link : Link := .always
  /-- Whether failure counts as success and the other way round. -/
  negated : Bool := false
  commands : List Command := []
  deriving Repr

namespace Line

/-- Whether nothing has been written yet. -/
def isFresh (line : Line) : Bool :=
  line.link == .always && !line.negated && line.commands.isEmpty

def add (line : Line) (command : Command) : Line :=
  { line with commands := line.commands ++ [command] }

end Line

def Redirection.ofTokens (stream : Option Nat) (direction : Direction) (word : Word) :
    Redirection :=
  match direction with
  | .duplicate => { stream := stream.getD 1, target := .stream word }
  | .overwrite => { stream := stream.getD 1, target := .file word false }
  | .append => { stream := stream.getD 1, target := .file word true }
  | .read => { stream := stream.getD 0, target := .source word }

/-- The text of a token in a complaint. -/
def Token.text : Token → String
  | .word _ => "word"
  | .redirect .. => "redirection"
  | .newline => "newline"
  | .semicolon => ";"
  | .and => "&&"
  | .or => "||"
  | .pipe => "|"

/-- Read the lines of a script from its tokens, behind an open line with an open command. -/
def parseLines (number : Nat) (line : Line) (command : Command) :
    List Token → Except SyntaxFault (List Line)
  | [] =>
    if command.isEmpty then if line.isFresh then .ok [] else .error .unexpectedEnd
    else .ok [line.add command]
  | .word word :: rest =>
    if word = [.bare '!'] ∧ command.isEmpty ∧ line.commands.isEmpty then
      parseLines number { line with negated := !line.negated } command rest
    else parseLines number line { command with words := command.words ++ [word] } rest
  | .redirect stream direction :: .word word :: rest =>
    let redirection := Redirection.ofTokens stream direction word
    parseLines number line
      { command with redirections := command.redirections ++ [redirection] } rest
  | .redirect .. :: token :: _ => .error (.unexpected token.text)
  | .redirect .. :: [] => .error .unexpectedEnd
  | .newline :: rest =>
    let fresh : Command := { line := number + 1 }
    if command.isEmpty then parseLines (number + 1) line fresh rest
    else do return line.add command :: (← parseLines (number + 1) {} fresh rest)
  | token :: rest =>
    if command.isEmpty then .error (.unexpected token.text)
    else
      let fresh : Command := { line := number }
      match token with
      | .pipe => parseLines number (line.add command) fresh rest
      | .and => do
        return line.add command :: (← parseLines number { link := .onSuccess } fresh rest)
      | .or => do
        return line.add command :: (← parseLines number { link := .onFailure } fresh rest)
      | _ => do return line.add command :: (← parseLines number {} fresh rest)

/-- The lines of a script. -/
def parse (body : String) : Except SyntaxFault (List Line) := do
  parseLines 1 {} {} (← tokenize body)

end BuildPipeline.Shell
