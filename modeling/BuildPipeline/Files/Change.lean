import BuildPipeline.Files.Tree

/-!
# Changing a file tree

Making directories, copying and removing.  A change that fails keeps what it has done so far: the
directories that it has made, the files that it has copied, a part of the one that it was writing,
and what it did not get to remove.  A copy into a part of its own source goes on until a path grows
too long: every directory is read when the copy comes to it.
-/

namespace BuildPipeline

/-- A change of a file tree that can fail on its way. -/
abbrev FileChange (α : Type) := ExceptT FileError (StateM Files) α

/-- A fault, if there is one, ends a change. -/
def FileChange.raise : Option FileError → FileChange Unit
  | some error => throw error
  | none => return

/-- The error of a change that goes on to fail, if it has not failed before. -/
def FileChange.failure (error : FileError) : Except FileError Unit → FileError
  | .ok () => error
  | .error earlier => earlier

/-- The length of the path of a location, in bytes. -/
def Location.byteLength (location : Location) : Nat :=
  total (location.map fun name => name.utf8ByteSize + 1)

theorem Location.byteLength_lt_append (location : Location) (name : String) :
    Location.byteLength location < Location.byteLength (location ++ [name]) := by
  simp [Location.byteLength]

namespace Files

/-! ## Directories -/

/-- Follow pieces from a location and make the directories that are missing. -/
def makeFrom (location : Location) : List String → FileChange Location
  | [] => return location
  | piece :: rest => do
    if Path.isNoStep piece then makeFrom location rest
    else if piece = ".." then makeFrom location.dropLast rest
    else if Path.longestName < piece.utf8ByteSize then throw .nameTooLong
    else
      let next := location ++ [piece]
      let files ← get
      match files.item? next with
      | some .directory => makeFrom next rest
      | some (.file _) =>
        throw (if rest.all Path.isNoStep then .alreadyThere else .notDirectory)
      | none =>
        FileChange.raise (files.faults.make next)
        modify fun files => files.set next .directory
        makeFrom next rest

/-- Make a directory and those on the way to it. -/
def makeAll (path : String) : FileChange Location := do
  if Path.longest < path.utf8ByteSize then throw .nameTooLong
  let files ← get
  makeFrom (if Path.isAbsolute path then [] else files.workingDirectory) (Path.pieces path)

/-! ## Files -/

/-- Where a file at a path would be written. -/
def writable (files : Files) (path : String) : Except FileError Location := do
  let pieces := Path.pieces path
  let name := pieces.getLastD ""
  let start := if Path.isAbsolute path then [] else files.workingDirectory
  if Path.longest < path.utf8ByteSize then throw .nameTooLong
  let parent ← files.walk start pieces.dropLast
  if !files.isDirectoryAt parent then throw .notDirectory
  if Path.isNoStep name || name == ".." then throw .isDirectory
  if Path.longestName < name.utf8ByteSize then throw .nameTooLong
  let location := parent ++ [name]
  if files.isDirectoryAt location then throw .isDirectory
  return location

/-- The first characters of a text. -/
def cutText (count : Nat) (text : String) : String :=
  String.ofList (text.toList.take count)

/-- Put a text in place of a file; a file that is copied onto itself is emptied. -/
def overwrite (source target : Location) (text : String) : FileChange Unit := do
  let text := if source = target then "" else text
  match (← get).faults.write target with
  | none => modify fun files => files.set target (.file text)
  | some (none, error) => throw error
  | some (some count, error) =>
    modify fun files => files.set target (.file (cutText count text))
    throw error

/-- Whether a place is not at or below a location, or has something at or below it that is kept. -/
def outlasts (files : Files) (location : Location) (kept : Location → Bool) (place : Location) :
    Bool :=
  !location.isPrefixOf place ||
    files.entries.any fun entry => kept entry.1 && place.isPrefixOf entry.1

/-- Take away what is at or below a location, except for what is kept and the directories above. -/
def strip (files : Files) (location : Location) (kept : Location → Bool) : Files :=
  { files with entries := files.entries.filter fun entry => files.outlasts location kept entry.1 }

/-- Remove a file, or a directory with everything in it.  The directory itself goes last. -/
def remove (location : Location) : FileChange Unit := do
  match (← get).faults.remove location with
  | none => modify fun files => files.strip location fun _ => false
  | some (kept, error) =>
    modify fun files => files.strip location fun place => place == location || kept place
    throw error

/-! ## Copies -/

mutual

/-- Copy a file or a directory, at two locations. -/
def copyTree (source target : Location) : FileChange Unit :=
  if hroom : Path.longest < Location.byteLength target then throw .nameTooLong
  else do
    match (← get).item? source with
    | none => throw .notFound
    | some (.file text) =>
      let _ ← makeFrom [] target.dropLast
      let files ← get
      FileChange.raise (files.faults.read source)
      if files.isDirectoryAt target then throw .isDirectory
      overwrite source target text
    | some .directory =>
      let _ ← makeFrom [] target
      let files ← get
      let names := files.childNames source
      match files.faults.list source with
      | none => copyChildren source target hroom names
      | some (count, error) =>
        copyChildren source target hroom (names.take count)
        throw error
termination_by (Path.longest + 1 - Location.byteLength target, 1, 0)
decreasing_by
  all_goals exact Prod.Lex.right _ (Prod.Lex.left _ _ Nat.zero_lt_one)

/-- Copy some of what a directory holds. -/
def copyChildren (source target : Location) (hroom : ¬Path.longest < Location.byteLength target) :
    List String → FileChange Unit
  | [] => return
  | name :: rest => do
    copyTree (source ++ [name]) (target ++ [name])
    copyChildren source target hroom rest
termination_by names => (Path.longest + 1 - Location.byteLength target, 0, names.length)
decreasing_by
  · have hlonger := Location.byteLength_lt_append target name
    exact Prod.Lex.left _ _ (by omega)
  · exact Prod.Lex.right _ (Prod.Lex.right _ (Nat.lt_succ_self _))

end

/-- Copy what is at one path to another path. -/
def copy (source target : String) : FileChange Unit := do
  if (← get).isDirectory source then
    let place ← makeAll target
    let source ← ((← get).locate source : Except FileError Location)
    copyTree source place
  else
    match Path.parent? target with
    | some parent => if parent ≠ "" then let _ ← makeAll parent
    | none => pure ()
    let files ← get
    let text ← (files.read source : Except FileError String)
    let place ← (files.writable target : Except FileError Location)
    let source ← (files.locate source : Except FileError Location)
    overwrite source place text

end Files

end BuildPipeline
