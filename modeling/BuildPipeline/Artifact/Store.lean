import BuildPipeline.Artifact.Ledger
import BuildPipeline.Files.Change

/-!
# Artifact stores

Where artifacts are kept between the stage that publishes them and the stages that fetch them: as
copies in a directory, or only as names where the steps leave no files behind.
-/

namespace BuildPipeline

/-! ## A directory of artifacts -/

namespace DirectoryStore

/-- Make room for an artifact and copy its source there. -/
def replace (source target : String) : FileChange Unit := do
  match (← get).locate target with
  | .ok location => Files.remove location
  | .error .notFound => pure ()
  | .error error => throw error
  Files.copy source target

/-- Keep what is at `source` as the artifact of a name, in place of an earlier one. -/
def publish (root name source : String) (files : Files) : Except ArtifactError Unit × Files :=
  if !isArtifactName name then (.error (.invalidName name), files)
  else if !files.isPresent source then (.error (.store name (.noSource source)), files)
  else
    let (result, files) := (replace source (Path.join root name)).run files
    (result.mapError fun error => .store name (.file error), files)

/-- Copy an artifact to `target`, over what is there. -/
def download (root name target : String) (files : Files) : Except ArtifactError Unit × Files :=
  if !isArtifactName name then (.error (.invalidName name), files)
  else
    let (result, files) := (Files.copy (Path.join root name) target).run files
    (result.mapError fun error => .store name (.file error), files)

end DirectoryStore

/-! ## Either kind of store -/

inductive ArtifactStore where
  /-- Only the names that were published. -/
  | names (published : List String)
  /-- A directory with an entry for each artifact. -/
  | directory (root : String)

namespace ArtifactStore

def publish (store : ArtifactStore) (name source : String) (files : Files) :
    Except ArtifactError Unit × ArtifactStore × Files :=
  match store with
  | names published => (.ok (), names (name :: published), files)
  | directory root =>
    let (result, files) := DirectoryStore.publish root name source files
    (result, store, files)

def download (store : ArtifactStore) (name target : String) (files : Files) :
    Except ArtifactError Unit × Files :=
  match store with
  | names published =>
    (if name ∈ published then .ok () else .error (.store name .notStored), files)
  | directory root => DirectoryStore.download root name target files

end ArtifactStore

end BuildPipeline
