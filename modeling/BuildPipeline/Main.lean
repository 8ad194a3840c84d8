import BuildPipeline.CommandLine.Program
import BuildPipeline.Shell.Processes

/-!
# Entry point

Takes in the text files below the working directory and below what the arguments name, answers to
the arguments, and puts the files that have changed in place.
-/

namespace BuildPipeline.Main

/-- The location of an absolute path without detours. -/
def locationOf (path : String) : Location :=
  (Path.pieces path).filter (· ≠ "")

/-- Add what is at an absolute path: a directory with all it holds, or a text file.  Links to
directories are not followed, and what cannot be read is left out. -/
partial def gather (path : String) (files : Files) : IO Files := do
  try
    let text ← IO.FS.readFile path
    return files.write (locationOf path) text
  catch _ =>
    try
      let mut files := files.addDirectory (locationOf path)
      for entry in ← (← IO.FS.realPath path).readDir do
        let child := entry.path.toString
        if (← IO.FS.realPath child).toString = child then files ← gather child files
      return files
    catch _ => return files

/-- Note which directories above one are repositories. -/
partial def gatherRepositories (directory : String) (files : Files) : IO Files := do
  let isRepository ← ((← IO.FS.realPath directory) / ".git").pathExists
  let files :=
    if isRepository then files.addDirectory (locationOf (Path.join directory ".git")) else files
  match Path.parent? directory with
  | some parent => gatherRepositories parent files
  | none => return files

/-- Add what a text names, if that is a path to something. -/
def gatherNamed (text : String) (files : Files) : IO Files := do
  try
    let path := (← IO.FS.realPath text).toString
    let directory := (Path.parent? path).getD "/"
    if (files.item? (locationOf path)).isSome || directory = "/" then return files
    else gather path (← gatherRepositories directory (← gather directory files))
  catch _ => return files

/-- The paths that an argument may hold. -/
def namesIn (argument : String) : List String :=
  match Text.splitOnce? ['='] argument.toList with
  | some (_, value) => [String.ofList value]
  | none => if CommandLine.looksLikeSwitch argument then [] else [argument]

def readEnvironment : IO (Table String) := do
  try
    let text ← IO.FS.readFile "/proc/self/environ"
    return Table.ofList ((Text.splitAt '\x00' text.toList).filterMap fun entry =>
      (Text.splitOnce? ['='] entry).map fun (name, value) =>
        (String.ofList name, String.ofList value))
  catch _ => return []

/-- Put what differs between two states of the files in place. -/
def store (before after : Files) : IO Unit := do
  for (location, entry) in after.entries do
    if before.item? location ≠ some entry then
      match entry with
      | .directory => IO.FS.createDirAll location.path
      | .file text => IO.FS.writeFile location.path text
  for (location, entry) in before.entries do
    if (after.item? location).isNone then
      match entry with
      | .directory => pure ()
      | .file _ => IO.FS.removeFile location.path

end BuildPipeline.Main

def main (arguments : List String) : IO UInt32 := do
  let directory := (← IO.FS.realPath ".").toString
  let start : BuildPipeline.Files :=
    { workingDirectory := BuildPipeline.Main.locationOf directory }
  let start ← BuildPipeline.Main.gather directory
    (← BuildPipeline.Main.gatherRepositories directory start)
  let files ← (arguments.flatMap BuildPipeline.Main.namesIn).foldlM
    (fun files text => BuildPipeline.Main.gatherNamed text files) start
  let environment ← BuildPipeline.Main.readEnvironment
  let reply := BuildPipeline.CommandLine.answer arguments
    { environment, files, processes := BuildPipeline.Shell.processes }
  BuildPipeline.Main.store files reply.files
  IO.eprint reply.errors
  if let some fault := reply.fault then IO.eprint (BuildPipeline.CommandLine.errorLine fault)
  IO.print reply.output
  return reply.exitCode.toNat.toUInt32
