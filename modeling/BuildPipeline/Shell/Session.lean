import BuildPipeline.Run.Execution
import BuildPipeline.Shell.Command

/-!
# Sessions of a shell

What a running script sees and changes: the files, its variables and the two streams it writes.
Expanding a word gives any number of texts; only what stands for a variable or for output without
quotes is cut at blanks.
-/

namespace BuildPipeline.Shell

/-- How a shell ends before the end of its script. -/
inductive Ending where
  | exited (code : Nat)
  | killed
  deriving DecidableEq, Repr

structure Session where
  kind : Shell
  files : Files
  vars : Table String := []
  /-- The exit code of the last command. -/
  status : Nat := 0
  output : String := ""
  errors : String := ""
  /-- Milliseconds that the script has slept. -/
  slept : Nat := 0
  /-- Whether a failure ends the script. -/
  stopsOnFailure : Bool := false
  ending : Option Ending := none

namespace Session

/-- The number that the shell knows itself by. -/
def processId : String := "1"

/-- A complaint about a line. -/
def complaint (session : Session) (line : Nat) (text : String) : String :=
  let place := match session.kind with
    | .bash => "line " ++ toString line
    | _ => toString line
  session.kind.program ++ ": " ++ place ++ ": " ++ text ++ "\n"

/-! ## Expansion -/

/-- The value of a variable or of one of the special names. -/
def value (session : Session) (name : String) : String :=
  match name with
  | "?" => toString session.status
  | "$" => processId
  | "#" => "0"
  | "0" => session.kind.program
  | _ => (session.vars.get? name).getD ""

/-- A text without the newlines at its end. -/
def dropFinalNewlines (text : String) : String :=
  String.ofList (text.toList.reverse.dropWhile (· = '\n')).reverse

/-- The texts that are complete, the last one first, and the one that is being put together. -/
structure Expanding where
  complete : List String := []
  current : Option String := none

namespace Expanding

def finish (texts : Expanding) : List String :=
  (texts.current.toList ++ texts.complete).reverse

/-- Go on with a text as it is. -/
def solid (texts : Expanding) (text : String) : Expanding :=
  { texts with current := some (texts.current.getD "" ++ text) }

/-- Complete the current text, if there is one. -/
def cut (texts : Expanding) : Expanding :=
  { complete := texts.current.toList ++ texts.complete }

/-- Go on with a text that is cut at blanks. -/
def loose (texts : Expanding) (text : String) : Expanding :=
  text.toList.foldl
    (fun texts c =>
      if c = ' ' ∨ c = '\t' ∨ c = '\n' then texts.cut else texts.solid (String.singleton c))
    texts

end Expanding

/-- Go on with a piece; `capture` gives the output of a script. -/
def expandPiece (capture : String → String) (session : Session) (texts : Expanding) :
    Piece → Expanding
  | .bare c | .quoted c => texts.solid (String.singleton c)
  | .quotes => texts.solid ""
  | .parameter name fallback isQuoted =>
    let value := session.value name
    let text := if value = "" then fallback else value
    if isQuoted then texts.solid text else texts.loose text
  | .output body isQuoted =>
    let text := dropFinalNewlines (capture body)
    if isQuoted then texts.solid text else texts.loose text

/-- The texts that a word stands for. -/
def expandWord (capture : String → String) (session : Session) (word : Word) : List String :=
  (word.foldl (session.expandPiece capture) {}).finish

/-- The one text that a word stands for where words are not cut. -/
def expandText (capture : String → String) (session : Session) (word : Word) : String :=
  " ".intercalate (session.expandWord capture word)

/-! ## Assignments -/

/-- The name and the value of a word that assigns. -/
def assignment? (word : Word) : Option (String × Word) :=
  let isNamePiece : Piece → Bool
    | .bare c => isNameChar c
    | _ => false
  let name := word.takeWhile isNamePiece
  match name, word.drop name.length with
  | .bare c :: _, .bare '=' :: value =>
    if c.isDigit then none
    else
      some (String.ofList (name.filterMap fun
        | .bare c => some c
        | _ => none), value)
  | _, _ => none

def assign (session : Session) (name value : String) : Session :=
  { session with vars := session.vars.insert name value }

/-- The assignments in front of a command and the words of the command. -/
def splitAssignments : List Word → List (String × Word) × List Word
  | [] => ([], [])
  | word :: rest =>
    match assignment? word with
    | some found =>
      let (assignments, words) := splitAssignments rest
      (found :: assignments, words)
    | none => ([], word :: rest)

end Session

end BuildPipeline.Shell
