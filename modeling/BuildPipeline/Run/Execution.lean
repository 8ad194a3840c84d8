import BuildPipeline.Artifact.Store
import BuildPipeline.Run.Clock
import BuildPipeline.Text.Casing

/-!
# Executing steps as processes

Script steps run as processes of the shell they name, and task steps run the script registered for
the task, with each input in a variable `INPUT_NAME`.  What a process does is left open: `Processes`
says for each one that is started how it ends, what it writes and what becomes of the files.  The
outcome of a step is made of that: it holds what was written, line by line, and the variables set by
commands in it.
-/

namespace BuildPipeline

/-! ## Processes -/

/-- What a process is started with. -/
structure Launch where
  program : String
  arguments : List String
  environment : Table String
  directory : String

inductive ProcessEnd where
  | exited (code : Int)
  | killed
  /-- How it ended is not known. -/
  | lost (message : String)

/-- A process that is over. -/
structure EndedProcess where
  ending : ProcessEnd
  output : String := ""
  errors : String := ""
  files : Files
  /-- Milliseconds that it took. -/
  duration : Nat := 0

/-- The programs that processes run, and the system that runs them. -/
structure Processes where
  /-- Start a process with the files as they are, or say why none came about. -/
  run : Launch → Files → Except String EndedProcess

namespace Shell

/-- The program that runs the scripts of a shell. -/
def program : Shell → String
  | script => "sh"
  | bash => "bash"
  | pwsh => "pwsh"

/-- What stands before the script in the arguments. -/
def switches : Shell → List String
  | script | bash => ["-c"]
  | pwsh => ["-NoLogo", "-NoProfile", "-Command"]

end Shell

/-! ## Outcomes -/

/-- The lines of a text, with a newline between two of them.  Empty lines in front are left out. -/
def capturedText (text : String) : String :=
  (Text.lines text).foldl
    (fun captured line => if captured = "" then line else captured ++ "\n" ++ line) ""

namespace EndedProcess

def exitCode? (process : EndedProcess) : Option Int :=
  match process.ending with
  | .exited code => some code
  | _ => none

/-- The outcome of a step whose process is over. -/
def outcome (program : String) (process : EndedProcess) : Outcome :=
  match process.ending with
  | .lost message => .failed ("failed to wait for '" ++ program ++ "': " ++ message)
  | _ =>
    let output := capturedText process.output
    let errors := capturedText process.errors
    let code := process.exitCode?
    { success := code = some 0
      output
      error :=
        if code = some 0 then none
        else if errors ≠ "" then some errors
        else match code with
          | some code => some ("process exited with code " ++ toString code)
          | none => some "process terminated by signal"
      exitCode := code
      vars := commandedUpdates output }

end EndedProcess

/-! ## Steps -/

/-- The end of an attempt at a step. -/
structure Executed where
  outcome : Outcome
  files : Files
  duration : Nat := 0

/-- Run a script in a directory. -/
def Shell.execute (shell : Shell) (processes : Processes) (script : String)
    (environment : Table String) (directory : String) (files : Files) : Executed :=
  let launch : Launch :=
    { program := shell.program, arguments := shell.switches ++ [script], environment, directory }
  match processes.run launch files with
  | .error message =>
    { outcome := .failed ("failed to spawn '" ++ shell.program ++ "': " ++ message), files }
  | .ok process =>
    { outcome := process.outcome shell.program
      files := process.files
      duration := process.duration }

/-- The script of a task: the one for its full name, or else the one for the part before an `@`. -/
def taskScript? (tasks : Table String) (name : String) : Option String :=
  (tasks.get? name).or (tasks.get? (String.ofList (name.toList.takeWhile (· ≠ '@'))))

/-- The environment of a task: each input under its name. -/
def taskEnvironment (inputs environment : Table String) : Table String :=
  inputs.foldl
    (fun environment (name, value) => environment.insert ("INPUT_" ++ Text.upper name) value)
    environment

/-- Execute one attempt at a step. -/
def Invocation.execute (invocation : Invocation) (processes : Processes) (tasks : Table String)
    (files : Files) : Executed :=
  let environment := invocation.environment
  match invocation.step.action with
  | .shell shell script directory =>
    let directory := match directory with
      | some directory => Path.join invocation.workingDirectory directory
      | none => invocation.workingDirectory
    shell.execute processes script environment directory files
  | .task name inputs =>
    match taskScript? tasks name with
    | some script =>
      Shell.execute .script processes script (taskEnvironment inputs environment)
        invocation.workingDirectory files
    | none => { outcome := .failed ("no command registered for task '" ++ name ++ "'"), files }
  | _ =>
    { outcome := .failed ("shell executor cannot run '" ++ invocation.step.label ++ "'"), files }

/-! ## Runs -/

/-- Registered tasks, a store and the files. -/
structure Workshop where
  tasks : Table String := []
  store : ArtifactStore
  files : Files

/-- The world in which steps are executed as processes.  How long an attempt takes is found out by
running it on the files as they are when it begins. -/
def Workshop.world (processes : Processes) : World Workshop where
  begin workshop invocation :=
    let executed := invocation.execute processes workshop.tasks workshop.files
    ({ duration := executed.duration }, workshop)
  finish workshop invocation :=
    let executed := invocation.execute processes workshop.tasks workshop.files
    (some executed.outcome, { workshop with files := executed.files })
  publish workshop name source :=
    let (result, store, files) := workshop.store.publish name source workshop.files
    (result, { workshop with store, files })
  download workshop name target :=
    let (result, files) := workshop.store.download name target workshop.files
    (result, { workshop with files })
  storeYields := true

end BuildPipeline
