import BuildPipeline.Run.Event
import BuildPipeline.Run.Report
import BuildPipeline.Text.Search

/-!
# Progress on a terminal

The lines that tell of the progress of a command, with the escape sequences for colours.
-/

namespace BuildPipeline.CommandLine

/-- A text between escape sequences. -/
def styled (style text : String) : String :=
  "\x1b[" ++ style ++ "m" ++ text ++ "\x1b[0m"

/-- The colour of a status. -/
def colour : Status → String
  | .succeeded => "32"
  | .succeededWithIssues => "33"
  | .failed => "31"
  | .canceled => "35"
  | .skipped | .pending | .running => "2"

/-! ## Lines -/

def actionLine (action message : String) : String :=
  styled "1;36" (Text.padLeft 12 action) ++ " " ++ message ++ "\n"

def checkLine (message : String) : String :=
  styled "32" "  ✓" ++ " " ++ message ++ "\n"

def warningLine (message : String) : String :=
  styled "33" "  !" ++ " " ++ message ++ "\n"

def errorLine (message : String) : String :=
  styled "1;31" "error:" ++ " " ++ message ++ "\n"

def infoLine (message : String) : String :=
  styled "36" "  i" ++ " " ++ message ++ "\n"

def dimLine (message : String) : String :=
  styled "2" message ++ "\n"

def indent (depth : Nat) : String :=
  String.ofList (List.replicate (2 * depth) ' ')

/-- The line of a node that has ended, after some milliseconds. -/
def completedLine (depth : Nat) (label : String) (status : Status) (duration : Nat)
    (extra : String) : String :=
  indent depth ++ styled (colour status) (status.marker ++ " " ++ label ++ " " ++ status.name) ++
    " (" ++ secondsText duration ++ "s)" ++ extra ++ "\n"

/-- The closing line of a run. -/
def closingLine (name : String) (status : Status) (duration : Nat) : String :=
  styled ("1;" ++ colour status)
    (status.marker ++ " Pipeline '" ++ name ++ "' " ++ status.name) ++ " in " ++
    secondsText duration ++ "s\n"

/-! ## Events -/

def quotedName (kind name : String) : String :=
  kind ++ " '" ++ name ++ "'"

def counted (count : Nat) (things : String) : String :=
  " (" ++ toString count ++ " " ++ things ++ ")"

/-- The number of a step, counted from one. -/
def stepTitle (index : Nat) : String :=
  "Step " ++ toString (index + 1)

/-- The lines of an event of a job; no time passes while a run is told. -/
def jobEventText (name : String) : JobEvent → String
  | .started displayName steps =>
    indent 2 ++ quotedName "Job" (displayName.getD name) ++ counted steps "steps" ++ "\n"
  | .completed status => completedLine 2 (quotedName "Job" name) status 0 ""
  | .skipped reason => warningLine (indent 1 ++ quotedName "Job" name ++ " skipped: " ++ reason)
  | .stepStarted index label => indent 3 ++ "[" ++ stepTitle index ++ "] " ++ label ++ "\n"
  | .stepOutput _ line =>
    String.join ((Text.lines line).map fun line => indent 4 ++ "| " ++ line ++ "\n")
  | .stepCompleted index status exitCode =>
    let extra := match exitCode with
      | some code => if code = 0 then "" else " (exit code: " ++ toString code ++ ")"
      | none => ""
    completedLine 3 (stepTitle index) status 0 extra
  | .stepSkipped index reason =>
    dimLine (indent 3 ++ "[" ++ stepTitle index ++ "] skipped: " ++ reason)
  | .variableSet name value isOutput =>
    dimLine (indent 4 ++ "[" ++ (if isOutput then "output" else "var") ++ "] " ++ name ++ " = " ++
      value)
  | .artifactPublished artifact => dimLine (indent 4 ++ "[artifact] " ++ artifact)
  | .called .. => ""

def eventText : Event → String
  | .started name stages =>
    "\n" ++ styled "1" ("==> " ++ quotedName "Pipeline" name ++ counted stages "stages") ++ "\n"
  | .completed name status => "\n" ++ closingLine name status 0
  | .stage name (.started displayName jobs) =>
    styled "1;34" (indent 1 ++ "Stage") ++ " '" ++ displayName.getD name ++ "'" ++
      counted jobs "jobs" ++ "\n"
  | .stage name (.completed status) => completedLine 1 (quotedName "Stage" name) status 0 ""
  | .stage name (.skipped reason) =>
    warningLine (quotedName "Stage" name ++ " skipped: " ++ reason)
  | .stage _ (.job name event) => jobEventText name event

end BuildPipeline.CommandLine
