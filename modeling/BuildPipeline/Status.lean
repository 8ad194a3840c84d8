/-!
# Statuses

The lifecycle status shared by stages, jobs and steps, and how the status of a node follows from
those of its children: a failure dominates, then a cancellation, then issues, and only a node whose
children were all skipped counts as skipped.
-/

namespace BuildPipeline

inductive Status where
  | pending
  | running
  | succeeded
  | succeededWithIssues
  | failed
  | skipped
  | canceled
  deriving DecidableEq, Repr, Inhabited

namespace Status

def name : Status → String
  | pending => "Pending"
  | running => "Running"
  | succeeded => "Succeeded"
  | succeededWithIssues => "SucceededWithIssues"
  | failed => "Failed"
  | skipped => "Skipped"
  | canceled => "Canceled"

def all : List Status :=
  [pending, running, succeeded, succeededWithIssues, failed, skipped, canceled]

def ofName? (name : String) : Option Status :=
  all.find? (·.name == name)

/-- Whether the node will not change any more. -/
def isTerminal : Status → Bool
  | pending | running => false
  | _ => true

/-- With issues or without. -/
def isSuccess : Status → Bool
  | succeeded | succeededWithIssues => true
  | _ => false

/-- The mark that stands before a node in a report. -/
def marker : Status → String
  | pending => "[ ]"
  | running => "[~]"
  | succeeded => "[✓]"
  | succeededWithIssues => "[!]"
  | failed => "[✗]"
  | skipped => "[-]"
  | canceled => "[/]"

/-- The aggregate after one more child. -/
def aggregate : Status → Status → Status
  | failed, _ | _, failed => failed
  | canceled, _ | _, canceled => canceled
  | succeededWithIssues, _ | _, succeededWithIssues => succeededWithIssues
  | _, _ => succeeded

/-- The status of a node with these children. -/
def aggregateAll (children : List Status) : Status :=
  if !children.isEmpty && children.all (· == skipped) then skipped
  else children.foldl aggregate succeeded

end Status

end BuildPipeline
