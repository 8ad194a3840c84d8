import BuildPipeline.Table
import BuildPipeline.Text.Search

/-!
# Arguments of the program

The commands of the program with their options.  Arguments are read from left to right and the first
one that does not fit counts, unless the version or help was asked for before it.  An option with a
value stands before it, or is joined to it by an equals sign; letters can share one hyphen, and what
follows a letter that takes a value is its value.
-/

namespace BuildPipeline.CommandLine

/-! ## Requests -/

inductive Format where
  | text
  | json
  deriving DecidableEq, Repr

/-- Which pipeline is meant. -/
structure Subject where
  file : String
  /-- Assignments to parameters, as given. -/
  parameters : List String := []
  repository : Option String := none
  deriving Repr

structure RunOptions where
  /-- Assignments to variables, as given. -/
  vars : List String := []
  workingDirectory : Option String := none
  agents : Nat := 4
  artifactDirectory : Option String := none
  /-- Minutes. -/
  stepTimeout : Option Nat := none
  format : Format := .text
  isDry : Bool := false
  deriving Repr

inductive Request where
  | version (program : String)
  | help
  | run (subject : Subject) (options : RunOptions)
  | validate (subject : Subject)
  | expand (subject : Subject)
  deriving Repr

/-- The commands that work on a pipeline. -/
inductive Command where
  | run
  | validate
  | expand
  deriving DecidableEq, Repr

def Command.name : Command → String
  | run => "run"
  | validate => "validate"
  | expand => "expand"

def Command.all : List Command := [run, validate, expand]

/-! ## Options -/

inductive Switch where
  | verbose
  | version
  | help
  | parameter
  | repository
  | variable
  | workingDirectory
  | agents
  | artifactDirectory
  | stepTimeout
  | format
  | dryRun
  deriving DecidableEq, Repr

namespace Switch

def long : Switch → String
  | verbose => "verbose"
  | version => "version"
  | help => "help"
  | parameter => "param"
  | repository => "repo-root"
  | .variable => "var"
  | workingDirectory => "working-dir"
  | agents => "max-agents"
  | artifactDirectory => "artifact-dir"
  | stepTimeout => "step-timeout"
  | format => "format"
  | dryRun => "dry-run"

def letter? : Switch → Option Char
  | verbose => some 'v'
  | version => some 'V'
  | help => some 'h'
  | parameter => some 'p'
  | workingDirectory => some 'w'
  | _ => none

def takesValue : Switch → Bool
  | verbose | version | help | dryRun => false
  | _ => true

/-- Whether it may be given more than once. -/
def isRepeatable : Switch → Bool
  | verbose | parameter | .variable => true
  | _ => false

/-- Switches without a command. -/
def forProgram : List Switch := [verbose, version, help]

def forCommand : Command → List Switch
  | .run => forProgram ++ [parameter, repository, .variable, workingDirectory, agents,
      artifactDirectory, stepTimeout, format, dryRun]
  | _ => forProgram ++ [parameter, repository]

end Switch

/-! ## Reading -/

/-- Why reading stops before the end of the arguments. -/
inductive Stop where
  | misuse
  | version
  | help
  deriving DecidableEq, Repr

/-- What has been read of the arguments. -/
structure Draft where
  file : Option String := none
  /-- The switches with their values, in order. -/
  given : List (Switch × String) := []

namespace Draft

def values (draft : Draft) (switch : Switch) : List String :=
  (draft.given.filter (·.1 = switch)).map Prod.snd

def value? (draft : Draft) (switch : Switch) : Option String :=
  (draft.values switch).head?

end Draft

/-- A number of at most 64 bits, perhaps behind a plus sign. -/
def natural? (text : String) : Option Nat :=
  let digits := match text.toList with
    | '+' :: digits => digits
    | digits => digits
  if digits ≠ [] && digits.all Char.isDigit then
    (String.ofList digits).toNat?.filter (· < Nat.pow 2 64)
  else none

def format? (text : String) : Option Format :=
  if text = "text" then some .text else if text = "json" then some .json else none

/-- Whether a switch can have a value. -/
def admits (switch : Switch) (value : String) : Bool :=
  match switch with
  | .repository | .workingDirectory | .artifactDirectory => value ≠ ""
  | .agents | .stepTimeout => (natural? value).isSome
  | .format => (format? value).isSome
  | _ => true

def Draft.give (draft : Draft) (switch : Switch) (value : String) : Except Stop Draft :=
  match switch with
  | .version => .error .version
  | .help => .error .help
  | _ =>
    if !switch.isRepeatable && (draft.value? switch).isSome then .error .misuse
    else if !admits switch value then .error .misuse
    else .ok { draft with given := draft.given ++ [(switch, value)] }

def Draft.addFile (draft : Draft) (file : String) : Except Stop Draft :=
  if draft.file.isSome || file = "" then .error .misuse
  else .ok { draft with file := some file }

/-- Whether an argument is a switch and no value. -/
def looksLikeSwitch (argument : String) : Bool :=
  argument.startsWith "-" && argument ≠ "-"

/-- Read letters behind a hyphen; the switch among them that still needs a value comes back too. -/
def readLetters (switches : List Switch) (draft : Draft) :
    List Char → Except Stop (Draft × Option Switch)
  | [] => .ok (draft, none)
  | c :: rest =>
    match switches.find? (·.letter? = some c) with
    | none => .error .misuse
    | some switch =>
      if switch.takesValue then
        match rest with
        | [] => .ok (draft, some switch)
        | '=' :: value => (draft.give switch (String.ofList value)).map (·, none)
        | value => (draft.give switch (String.ofList value)).map (·, none)
      else do readLetters switches (← draft.give switch "") rest

/-- Read an argument that begins with a hyphen. -/
def readSwitch (switches : List Switch) (draft : Draft) (argument : String) :
    Except Stop (Draft × Option Switch) :=
  match Text.stripStart? ['-', '-'] argument.toList with
  | none => readLetters switches draft (argument.toList.drop 1)
  | some body =>
    let (name, attached) := match Text.splitOnce? ['='] body with
      | some (name, value) => (name, some (String.ofList value))
      | none => (body, none)
    match switches.find? (·.long = String.ofList name), attached with
    | none, _ => .error .misuse
    | some switch, some value =>
      if switch.takesValue then (draft.give switch value).map (·, none) else .error .misuse
    | some switch, none =>
      if switch.takesValue then .ok (draft, some switch) else (draft.give switch "").map (·, none)

/-- Read the arguments of a command. -/
def readArguments (switches : List Switch) (draft : Draft) : List String → Except Stop Draft
  | [] => .ok draft
  | argument :: rest =>
    if argument = "--" then rest.foldlM Draft.addFile draft
    else if looksLikeSwitch argument then do
      match ← readSwitch switches draft argument with
      | (draft, none) => readArguments switches draft rest
      | (draft, some switch) =>
        match rest with
        | value :: rest =>
          if looksLikeSwitch value then throw .misuse
          else readArguments switches (← draft.give switch value) rest
        | [] => throw .misuse
    else do readArguments switches (← draft.addFile argument) rest

/-! ## From arguments to requests -/

/-- Take values from the environment where the arguments give none. -/
def Draft.withEnvironment (draft : Draft) (environment : Table String) : Except Stop Draft :=
  [(Switch.agents, "PIPELINE_MAX_AGENTS"), (.artifactDirectory, "PIPELINE_ARTIFACT_DIR")].foldlM
    (fun draft (switch, name) =>
      match draft.value? switch, environment.get? name with
      | none, some value => draft.give switch value
      | _, _ => .ok draft)
    draft

def Draft.runOptions (draft : Draft) : RunOptions where
  vars := draft.values .variable
  workingDirectory := draft.value? .workingDirectory
  agents := ((draft.value? .agents).bind natural?).getD 4
  artifactDirectory := draft.value? .artifactDirectory
  stepTimeout := (draft.value? .stepTimeout).bind natural?
  format := ((draft.value? .format).bind format?).getD .text
  isDry := (draft.value? .dryRun).isSome

def Draft.request (draft : Draft) (command : Command) (environment : Table String) :
    Except Stop Request := do
  match draft.file with
  | none => throw .misuse
  | some file =>
    let subject : Subject :=
      { file, parameters := draft.values .parameter, repository := draft.value? .repository }
    match command with
    | .validate => return .validate subject
    | .expand => return .expand subject
    | .run => return .run subject (← draft.withEnvironment environment).runOptions

def programName : String := "pipeline"

/-- Ask for the version or for help instead of stopping. -/
def answerStop (program : String) : Except Stop Request → Option Request
  | .ok request => some request
  | .error .version => some (.version program)
  | .error .help => some .help
  | .error .misuse => none

/-- The request that arguments make; nothing if they make none. -/
def parse (environment : Table String) : List String → Option Request
  | [] => none
  | argument :: rest =>
    match Command.all.find? (·.name = argument) with
    | some command =>
      answerStop (programName ++ "-" ++ command.name) do
        let draft ← readArguments (Switch.forCommand command) {} rest
        draft.request command environment
    | none =>
      if argument = "help" then some .help
      else if argument = "--" || !looksLikeSwitch argument then none
      else
        match readSwitch Switch.forProgram {} argument with
        | .ok _ => parse environment rest
        | .error stop => answerStop programName (.error stop)

end BuildPipeline.CommandLine
