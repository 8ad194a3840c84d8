import BuildPipeline.Run.Execution
import BuildPipeline.Shell.Interpreter

/-!
# Processes of a small shell

One choice of `Processes`: the scripts of steps are run by the interpreter in this directory, which
knows the plain commands of build scripts.  It stands in for the programs of a machine where runs
are rehearsed without one, and nothing else in the library depends on what it does.
-/

namespace BuildPipeline.Shell

/-- Why no process came about. -/
inductive SpawnError where
  | nulCharacter
  | file (error : FileError)
  deriving DecidableEq, Repr

def SpawnError.message : SpawnError → String
  | nulCharacter => "nul byte found in provided data"
  | file error => error.message

/-- The directories of the programs. -/
def programDirectories : List String := ["/bin", "/usr/bin"]

/-- The shell that a program is, if it is installed. -/
def ofProgram? : String → Option Shell
  | "sh" => some .script
  | "bash" => some .bash
  | _ => none

/-- Whether programs are found from an environment. -/
def findsPrograms (environment : Table String) : Bool :=
  match environment.get? "PATH" with
  | none => true
  | some path =>
    (Text.splitAt ':' path.toList).any fun directory =>
      programDirectories.contains (String.ofList directory)

def hasNul (text : String) : Bool :=
  text.toList.contains '\x00'

/-- The session in which a process starts. -/
def start (launch : Launch) (files : Files) : Except SpawnError Session := do
  if launch.arguments.any hasNul ||
      launch.environment.any fun entry => hasNul entry.1 || hasNul entry.2 then
    throw .nulCharacter
  let location ← (files.locate launch.directory).mapError SpawnError.file
  if !files.isDirectoryAt location then throw (.file .notDirectory)
  match ofProgram? launch.program with
  | some kind =>
    if !findsPrograms launch.environment then throw (.file .notFound)
    return {
      kind
      files := { files with workingDirectory := location }
      vars := launch.environment.insert "PWD" location.path }
  | none => throw (.file .notFound)

/-- The processes of the interpreter. -/
def processes : Processes where
  run launch files := do
    let session ← (start launch files).mapError SpawnError.message
    let session := session.run (launch.arguments.getLastD "")
    return {
      ending := match session.exitCode? with
        | some code => .exited code
        | none => .killed
      output := session.output
      errors := session.errors
      files := { session.files with workingDirectory := files.workingDirectory }
      duration := session.slept + 1 }

end BuildPipeline.Shell
