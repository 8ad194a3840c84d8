import BuildPipeline.Artifact.Store
import BuildPipeline.Run.Clock

/-!
# Scripted executors

An executor whose outcomes are laid down beforehand, for rehearsals.  Every step succeeds unless the
script says otherwise; steps are known by their names or labels.
-/

namespace BuildPipeline

structure Script where
  /-- Steps that always fail. -/
  failing : List String := []
  /-- How many more attempts at a step fail. -/
  flaky : Table Nat := []
  /-- What a step sets when it succeeds. -/
  vars : Table (List VariableUpdate) := []
  /-- How long an attempt takes, in milliseconds. -/
  delays : Table Nat := []
  deriving Inhabited

namespace Script

def begin (script : Script) (invocation : Invocation) : AttemptStart where
  duration := (script.delays.get? invocation.key).getD 0

def failure (key : String) : Outcome :=
  { Outcome.failed ("step '" ++ key ++ "' failed") with exitCode := some 1 }

def success (script : Script) (key : String) : Outcome :=
  { Outcome.succeeded ("ran " ++ key) with vars := (script.vars.get? key).getD [] }

/-- The outcome of an attempt at a step, and the script for what follows. -/
def finish (script : Script) (key : String) : Outcome × Script :=
  if script.failing.contains key then (failure key, script)
  else
    match script.flaky.get? key with
    | some (remaining + 1) =>
      (failure key, { script with flaky := script.flaky.insert key remaining })
    | _ => (script.success key, script)

end Script

/-- A script, a store and the files. -/
structure Rehearsal where
  script : Script
  store : ArtifactStore
  files : Files

/-- The world of a rehearsal. -/
def Rehearsal.world (storeYields : Bool) : World Rehearsal where
  begin rehearsal invocation := (rehearsal.script.begin invocation, rehearsal)
  finish rehearsal invocation :=
    let (outcome, script) := rehearsal.script.finish invocation.key
    (some outcome, { rehearsal with script })
  publish rehearsal name source :=
    let (result, store, files) := rehearsal.store.publish name source rehearsal.files
    (result, { rehearsal with store, files })
  download rehearsal name target :=
    let (result, files) := rehearsal.store.download name target rehearsal.files
    (result, { rehearsal with files })
  storeYields := storeYields

end BuildPipeline
