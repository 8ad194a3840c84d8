import BuildPipeline.Text.Search

/-!
# Paths

Paths are texts with slashes between their parts.  Joining and taking the parent work on the text
and keep `.` and `..` as written; only a file tree can tell where a path leads.
-/

namespace BuildPipeline.Path

def isAbsolute (path : String) : Bool :=
  Text.startsWith ['/'] path.toList

/-- The path of `path` seen from `base`; an absolute one stands for itself. -/
def join (base path : String) : String :=
  if isAbsolute path || base == "" then path
  else if Text.endsWith ['/'] base.toList then base ++ path
  else base ++ "/" ++ path

/-- The texts between slashes. -/
def pieces (path : String) : List String :=
  (Text.splitAt '/' path.toList).map String.ofList

def isNoStep (piece : String) : Bool :=
  piece == "" || piece == "."

/-- Drop what leads nowhere at the end, last piece first.  A dot that begins a relative path stays.
-/
def dropNoSteps (absolute : Bool) : List String → List String
  | [] => []
  | piece :: rest =>
    if isNoStep piece && (absolute || !rest.isEmpty || piece == "") then dropNoSteps absolute rest
    else piece :: rest

/-- The pieces behind the root, the last one first, and whether there is a root. -/
def reversedPieces (path : String) : Bool × List String :=
  let absolute := isAbsolute path
  let body := if absolute then String.ofList (path.toList.drop 1) else path
  (absolute, dropNoSteps absolute (pieces body).reverse)

/-- The path without its last part; nothing for the root and the empty path. -/
def parent? (path : String) : Option String :=
  match reversedPieces path with
  | (_, []) => none
  | (absolute, _ :: rest) =>
    let kept := "/".intercalate (dropNoSteps absolute rest).reverse
    some (if absolute then "/" ++ kept else kept)

/-- The last part of a path, unless that leads upwards. -/
def fileName? (path : String) : Option String :=
  match reversedPieces path with
  | (_, piece :: _) => if piece == ".." || piece == "." then none else some piece
  | (_, []) => none

/-- The last part of a path up to its last dot; a dot at the beginning does not count. -/
def stem? (path : String) : Option String :=
  (fileName? path).map fun name =>
    match name.toList.reverse.dropWhile (· ≠ '.') with
    | _ :: c :: kept => String.ofList (c :: kept).reverse
    | _ => name

end BuildPipeline.Path
