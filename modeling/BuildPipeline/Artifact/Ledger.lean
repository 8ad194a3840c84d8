import BuildPipeline.Table
import BuildPipeline.Files.Tree

/-!
# Artifact names and the ledger of a run

Stages hand data to the stages after them under a name.  The ledger of a run knows which stage has
published, or is publishing, each name.  A name is reserved before anything is stored, so of two
publishers of one name only one gets through.
-/

namespace BuildPipeline

/-- Why nothing could be stored or fetched. -/
inductive StoreFault where
  | file (error : FileError)
  | noSource (path : String)
  | notStored
  deriving DecidableEq, Repr

def StoreFault.message : StoreFault → String
  | file error => error.message
  | noSource path => path ++ " does not exist"
  | notStored => "not in store"

inductive ArtifactError where
  | duplicate (name : String)
  | missing (name stage : String)
  | invalidName (name : String)
  | store (name : String) (fault : StoreFault)
  deriving DecidableEq, Repr

def ArtifactError.message : ArtifactError → String
  | duplicate name => "artifact '" ++ name ++ "' was already published in this run"
  | missing name stage =>
    "artifact '" ++ name ++ "' has not been published by a dependency of stage '" ++ stage ++ "'"
  | invalidName name => "'" ++ name ++ "' is not a valid artifact name"
  | store name fault => "artifact '" ++ name ++ "': " ++ fault.message

/-- Whether a name can stand for one entry of a directory. -/
def isArtifactName (name : String) : Bool :=
  name != "" && name != "." && name != ".." && name.toList.all fun c => c != '/' && c != '\\'

def checkArtifactName (name : String) : Except ArtifactError Unit :=
  if isArtifactName name then .ok () else .error (.invalidName name)

/-- The stage that holds each name. -/
abbrev Ledger := Table String

namespace Ledger

/-- Take a name for a stage. -/
def reserve (ledger : Ledger) (name stage : String) : Except ArtifactError Ledger :=
  if !isArtifactName name then .error (.invalidName name)
  else if (Table.get? name ledger).isSome then .error (.duplicate name)
  else .ok (Table.insert name stage ledger)

/-- Give a name back. -/
def release (ledger : Ledger) (name : String) : Ledger :=
  Table.erase name ledger

def publisher? (ledger : Ledger) (name : String) : Option String :=
  Table.get? name ledger

/-- A stage may only fetch what a stage it depends on holds. -/
def checkDownload (ledger : Ledger) (name stage : String) (ancestors : List String) :
    Except ArtifactError Unit :=
  match ledger.publisher? name with
  | some publisher =>
    if publisher ∈ ancestors then .ok () else .error (.missing name stage)
  | none => .error (.missing name stage)

end Ledger

end BuildPipeline
