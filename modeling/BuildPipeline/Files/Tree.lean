import BuildPipeline.Files.Path
import BuildPipeline.Table

/-!
# File trees

A finite tree of directories and text files, and a working directory from which relative paths are
followed.  A location is the list of names from the root; following a path visits every directory on
the way, so `missing/../file` leads nowhere.

A tree has no links, and no owners or modes.  What the system refuses for such a reason, or for want
of space, is told by `Faults`: making a directory, listing one, reading or writing a file and
removing something can fail at any location.  Only looking up what is at a location never fails so.
-/

namespace BuildPipeline

abbrev Location := List String

def Location.path (location : Location) : String :=
  "/" ++ "/".intercalate location

/-- The longest path, in bytes. -/
def Path.longest : Nat := 4095

/-- The longest name in a directory, in bytes. -/
def Path.longestName : Nat := 255

inductive FileError where
  | notFound
  | notDirectory
  | isDirectory
  | alreadyThere
  | nameTooLong
  /-- Any other error, in the words of the system. -/
  | system (text : String)
  deriving DecidableEq, Repr

def FileError.message : FileError → String
  | notFound => "No such file or directory (os error 2)"
  | alreadyThere => "File exists (os error 17)"
  | notDirectory => "Not a directory (os error 20)"
  | isDirectory => "Is a directory (os error 21)"
  | nameTooLong => "File name too long (os error 36)"
  | system text => text

/-- What a location holds. -/
inductive FileEntry where
  | file (text : String)
  | directory
  deriving DecidableEq, Repr

/-- What the system refuses beyond what the entries of a tree tell. -/
structure Faults where
  /-- A directory cannot be made. -/
  make : Location → Option FileError := fun _ => none
  /-- A directory cannot be listed beyond its first names. -/
  list : Location → Option (Nat × FileError) := fun _ => none
  /-- A file cannot be opened to be read. -/
  read : Location → Option FileError := fun _ => none
  /-- A file cannot be opened to be written, or not be written beyond its first characters. -/
  write : Location → Option (Option Nat × FileError) := fun _ => none
  /-- A removal breaks off, and some of what is there has not been removed by then. -/
  remove : Location → Option ((Location → Bool) × FileError) := fun _ => none

structure Files where
  entries : List (Location × FileEntry) := []
  workingDirectory : Location := []
  faults : Faults := {}

namespace Files

def item? (files : Files) (location : Location) : Option FileEntry :=
  if location = [] then some .directory else files.entries.lookup location

def isDirectoryAt (files : Files) (location : Location) : Bool :=
  files.item? location == some .directory

/-! ## Following paths -/

/-- Follow the pieces of a path from a location. -/
def walk (files : Files) (location : Location) : List String → Except FileError Location
  | [] => .ok location
  | piece :: rest =>
    if !files.isDirectoryAt location then .error .notDirectory
    else if Path.isNoStep piece then files.walk location rest
    else if piece = ".." then files.walk location.dropLast rest
    else if Path.longestName < piece.utf8ByteSize then .error .nameTooLong
    else
      let next := location ++ [piece]
      if (files.item? next).isSome then files.walk next rest else .error .notFound

/-- Where a path leads. -/
def locate (files : Files) (path : String) : Except FileError Location :=
  if path = "" then .error .notFound
  else if Path.longest < path.utf8ByteSize then .error .nameTooLong
  else files.walk (if Path.isAbsolute path then [] else files.workingDirectory) (Path.pieces path)

/-- The path without detours, where it leads anywhere. -/
def canonical? (files : Files) (path : String) : Option String :=
  (files.locate path).toOption.map Location.path

/-- The path without detours, or as it is. -/
def canonical (files : Files) (path : String) : String :=
  (files.canonical? path).getD path

def isPresent (files : Files) (path : String) : Bool :=
  (files.locate path).toOption.isSome

def isDirectory (files : Files) (path : String) : Bool :=
  match files.locate path with
  | .ok location => files.isDirectoryAt location
  | .error _ => false

def read (files : Files) (path : String) : Except FileError String := do
  let location ← files.locate path
  match files.item? location with
  | some (.file text) =>
    match files.faults.read location with
    | some error => throw error
    | none => return text
  | some .directory => throw .isDirectory
  | none => throw .notFound

/-- The paths of all files, without detours. -/
def paths (files : Files) : List String :=
  files.entries.filterMap fun (location, entry) =>
    match entry with
    | .file _ => some location.path
    | .directory => none

/-- The path without detours and the text of a file. -/
def file? (files : Files) (path : String) : Option (String × String) :=
  match files.locate path with
  | .error _ => none
  | .ok location =>
    match files.item? location with
    | some (.file text) => some (location.path, text)
    | _ => none

theorem mem_paths_of_file? {files : Files} {path found text : String}
    (hfile : files.file? path = some (found, text)) : found ∈ files.paths := by
  unfold file? at hfile
  split at hfile
  · cases hfile
  · rename_i location _
    split at hfile
    · rename_i hentry
      cases hfile
      unfold item? at hentry
      split at hentry
      · cases hentry
      · rw [paths, List.mem_filterMap]
        exact ⟨_, Table.mem_of_lookup_eq_some hentry, rfl⟩
    · cases hfile

/-! ## Changes -/

def set (files : Files) (location : Location) (entry : FileEntry) : Files :=
  { files with
    entries := files.entries.filter (·.1 ≠ location) ++ [(location, entry)] }

/-- Make the directories of a location that are missing. -/
def makeDirectories (files : Files) : List Location → Files
  | [] => files
  | location :: rest =>
    let files := if (files.item? location).isSome then files else files.set location .directory
    makeDirectories files rest

/-- The locations on the way to a location, itself included. -/
def ancestry (location : Location) : List Location :=
  (List.range location.length).map fun n => location.take (n + 1)

/-- Put a file in place, with the directories that lead to it. -/
def write (files : Files) (location : Location) (text : String) : Files :=
  (files.makeDirectories (ancestry location.dropLast)).set location (.file text)

def addDirectory (files : Files) (location : Location) : Files :=
  files.makeDirectories (ancestry location)

/-- The names in a directory. -/
def childNames (files : Files) (location : Location) : List String :=
  files.entries.filterMap fun (place, _) =>
    if place.dropLast = location then place.getLast? else none

/-- The files at or below a location, with their paths from there. -/
def below (files : Files) (location : Location) : List (String × String) :=
  files.entries.filterMap fun (place, entry) =>
    match entry with
    | .directory => none
    | .file text =>
      if location.isPrefixOf place then
        some ("/".intercalate (place.drop location.length), text)
      else none

/-! ## Repositories -/

/-- The innermost location at or above one that holds a `.git` entry. -/
def repositoryAbove? (files : Files) (reversed : List String) : Option Location :=
  let here := (files.item? (reversed.reverse ++ [".git"])).isSome
  match reversed with
  | [] => if here then some [] else none
  | _ :: outer => if here then some reversed.reverse else files.repositoryAbove? outer

/-- The repository that a path lies in. -/
def repositoryOf? (files : Files) (path : String) : Option String :=
  match files.locate path with
  | .ok location => (files.repositoryAbove? location.reverse).map Location.path
  | .error _ => none

/-- The repository of a pipeline file, or the directory of the file. -/
def defaultRepository (files : Files) (pipelineFile : String) : String :=
  let directory :=
    match Path.parent? pipelineFile with
    | none | some "" => "."
    | some parent => parent
  (files.repositoryOf? directory).getD directory

end Files

end BuildPipeline
