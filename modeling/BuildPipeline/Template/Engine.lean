import BuildPipeline.Template.Expansion

/-!
# An engine for one document after the other

`expand` starts afresh for every document.  An engine is kept: it holds the templates that are
being expanded and the literal variables of the document at hand, and one call finds what the call
before it left.  A template puts its frame on the stack and takes it off again, whatever comes of
it; a document starts on a stack of its own and clears it in the end.

The stack is not handed down here but found in the engine.  So what a call leaves behind counts for
the next one, also for its end: every call gives back the stack it found, which `After` records.
-/

namespace BuildPipeline.Template

structure Engine where
  /-- Where references from the root are looked up. -/
  repository : String
  /-- The templates being expanded, the innermost one first. -/
  stack : Stack := []
  /-- Literal variables of the document. -/
  vars : Table String := []

namespace Engine

/-- What templates are read and evaluated with. -/
def library (engine : Engine) (files : Files) : Library :=
  { files, repository := engine.repository, vars := engine.vars }

/-- Push a frame, unless that closes a cycle. -/
def enter (engine : Engine) (frame : Frame) : Except Error Engine := do
  let stack ← engine.stack.enter frame
  return { engine with stack }

def pop (engine : Engine) : Engine :=
  { engine with stack := engine.stack.tail }

def clear (engine : Engine) : Engine :=
  { engine with stack := [] }

/-! ## References -/

/-- Find the template that an item in `file` refers to and bind its parameters: its file, its
entries and the parameters. -/
def openTemplate [Yaml.Codec] (files : Files) (engine : Engine) (file reference : String)
    (item : Yaml.Value) : Except Error (String × Yaml.Entries × Arguments) := do
  let (path, source) ← (engine.library files).find reference file
  let entries ← readTemplate reference source
  let declared ← declarations path (Yaml.Value.lookUp? "parameters" entries)
  let passed ← passedArguments item reference
  let arguments ← bindParameters declared passed reference
  return (path, entries, arguments)

/-- What is opened is one of the files. -/
theorem mem_paths_of_openTemplate [Yaml.Codec] {files : Files} {engine : Engine}
    {file reference : String} {item : Yaml.Value} {path : String} {entries : Yaml.Entries}
    {arguments : Arguments}
    (hopen : openTemplate files engine file reference item = .ok (path, entries, arguments)) :
    path ∈ files.paths := by
  unfold openTemplate at hopen
  cases hfind : (engine.library files).find reference file with
  | error error => simp [hfind, bind, Except.bind] at hopen
  | ok found =>
    obtain ⟨found, source⟩ := found
    have hpath : found ∈ files.paths := Library.mem_paths_of_find hfind
    simp only [hfind, bind, Except.bind] at hopen
    split at hopen
    · cases hopen
    split at hopen
    · cases hopen
    split at hopen
    · cases hopen
    split at hopen
    · cases hopen
    cases hopen
    exact hpath

theorem exists_of_enter {engine entered : Engine} {frame : Frame}
    (henter : engine.enter frame = .ok entered) :
    engine.stack.enter frame = .ok entered.stack ∧ entered.stack = frame :: engine.stack := by
  unfold enter at henter
  cases hstack : engine.stack.enter frame with
  | error error => simp [hstack, bind, Except.bind] at henter
  | ok stack =>
    simp only [hstack, bind, Except.bind, pure, Except.pure, Except.ok.injEq] at henter
    subst henter
    refine ⟨rfl, ?_⟩
    unfold Stack.enter at hstack
    split at hstack
    · cases hstack
    · exact (Except.ok.inj hstack).symm

/-- What comes of a call and the engine after it, with the stack that the call found. -/
@[ext]
structure After (before : Engine) (α : Type) where
  outcome : Except Error α
  engine : Engine
  stack_eq : engine.stack = before.stack

/-- End a call with the engine as it is. -/
def done {α : Type} (engine : Engine) (outcome : Except Error α) : After engine α :=
  ⟨outcome, engine, rfl⟩

namespace After

variable {before : Engine} {α β : Type}

def map (after : After before α) (change : Except Error α → Except Error β) : After before β :=
  ⟨change after.outcome, after.engine, after.stack_eq⟩

/-- Go on with the engine that a call has left, unless it failed. -/
def andThen (after : After before α)
    (next : (engine : Engine) → engine.stack = before.stack → α → After engine β) :
    After before β :=
  match after with
  | ⟨.error error, engine, stack_eq⟩ => ⟨.error error, engine, stack_eq⟩
  | ⟨.ok value, engine, stack_eq⟩ =>
    let last := next engine stack_eq value
    ⟨last.outcome, last.engine, last.stack_eq.trans stack_eq⟩

end After

@[simp]
theorem map_done {α β : Type} (engine : Engine) (outcome : Except Error α)
    (change : Except Error α → Except Error β) :
    (engine.done outcome).map change = engine.done (change outcome) :=
  rfl

@[simp]
theorem andThen_done_error {α β : Type} (engine : Engine) (error : Error)
    (next : (other : Engine) → other.stack = engine.stack → α → After other β) :
    (engine.done (.error error)).andThen next = engine.done (.error error) :=
  rfl

@[simp]
theorem andThen_done_ok {α β : Type} (engine : Engine) (value : α)
    (next : (other : Engine) → other.stack = engine.stack → α → After other β) :
    (engine.done (.ok value)).andThen next = next engine rfl value :=
  rfl

variable [Yaml.Codec]

mutual

/-- Replace the references in a list of nodes that stands in `file`. -/
def resolve (files : Files) (engine : Engine) (level : Level) (file : String)
    (items : List Yaml.Value) : After engine (List Yaml.Value) :=
  match items with
  | [] => engine.done (.ok [])
  | item :: rest =>
    (resolveItem files engine level file item).andThen fun left _ nodes =>
      (resolve files left level file rest).map (·.map (nodes ++ ·))
termination_by (engine.stack.slots files.paths, level.weight, items.length + 1)
decreasing_by
  · exact Prod.Lex.right _ (Prod.Lex.right _ (by simp))
  · rw [‹left.stack = engine.stack›]
    exact Prod.Lex.right _ (Prod.Lex.right _ (by simp))

/-- The nodes that take the place of one: those of a template, or the node with its own lists. -/
def resolveItem (files : Files) (engine : Engine) (level : Level) (file : String)
    (item : Yaml.Value) : After engine (List Yaml.Value) :=
  match reference? level item, item with
  | some reference, item => includeTemplate files engine level file reference item
  | none, .mapping entries =>
    (resolveLists files engine file level.children entries).map
      (·.map fun resolved => [.mapping resolved])
  | none, item => engine.done (.ok [item])
termination_by (engine.stack.slots files.paths, level.weight, 1)
decreasing_by
  · exact Prod.Lex.right _ (Prod.Lex.right _ (by simp))
  · exact Prod.Lex.right _ (Prod.Lex.left _ _ (Level.totalWeight_children_lt level))

/-- Replace the references in the lists of the given levels in a node. -/
def resolveLists (files : Files) (engine : Engine) (file : String) (levels : List Level)
    (entries : Yaml.Entries) : After engine Yaml.Entries :=
  match levels with
  | [] => engine.done (.ok entries)
  | level :: rest =>
    match Yaml.Value.lookUp? level.sectionName entries with
    | some (.sequence items) =>
      (resolve files engine level file items).andThen fun left _ nodes =>
        resolveLists files left file rest
          (Yaml.Value.insert (.string level.sectionName) (.sequence nodes) entries)
    | _ => resolveLists files engine file rest entries
termination_by (engine.stack.slots files.paths, Level.totalWeight levels, 0)
decreasing_by
  · exact Prod.Lex.right _ (Prod.Lex.left _ _ (by simp [Level.totalWeight]; omega))
  · rw [‹left.stack = engine.stack›]
    exact Prod.Lex.right _ (Prod.Lex.left _ _ (by simp [Level.totalWeight]))
  · exact Prod.Lex.right _ (Prod.Lex.left _ _ (by simp [Level.totalWeight]))

/-- Expand the template that an item in `file` refers to.  What is refused before the frame is on
the stack leaves the stack alone. -/
def includeTemplate (files : Files) (engine : Engine) (level : Level) (file reference : String)
    (item : Yaml.Value) : After engine (List Yaml.Value) :=
  match hopen : openTemplate files engine file reference item with
  | .error error => engine.done (.error error)
  | .ok (path, entries, arguments) =>
    match henter : engine.enter ⟨path, signature arguments⟩ with
    | .error error => engine.done (.error error)
    | .ok entered =>
      let body := expandBody files entered level path entries arguments reference
      ⟨body.outcome, body.engine.pop, by
        rw [pop, body.stack_eq, (exists_of_enter henter).2, List.tail_cons]⟩
termination_by (engine.stack.slots files.paths, level.weight, 0)
decreasing_by
  exact Prod.Lex.left _ _ (Stack.slots_lt_of_enter (mem_paths_of_openTemplate hopen)
    (exists_of_enter henter).1)

/-- Expand the section of a template for a level. -/
def expandBody (files : Files) (engine : Engine) (level : Level) (path : String)
    (entries : Yaml.Entries) (arguments : Arguments) (reference : String) :
    After engine (List Yaml.Value) :=
  match sectionItems level entries ((engine.library files).scope arguments path) reference with
  | .error error => engine.done (.error error)
  | .ok items =>
    (resolve files engine level path items).map (·.mapError fun error => error.withPath reference)
termination_by (engine.stack.slots files.paths, level.weight + 1, 0)
decreasing_by exact Prod.Lex.right _ (Prod.Lex.left _ _ (by simp))

end

/-! ## Documents -/

/-- Evaluate the entries of a document and replace the references in its lists. -/
def expandRoot (files : Files) (engine : Engine) (arguments : Arguments) (file : String)
    (root : Yaml.Entries) : After engine Yaml.Entries :=
  match evaluateEntries ((engine.library files).scope arguments file) none [] root with
  | .error error => engine.done (.error error)
  | .ok evaluated => resolveLists files engine file [.vars, .stages, .jobs, .steps] evaluated

/-- Expand a document that lives at `origin`, with some parameters given. -/
def expandText (files : Files) (engine : Engine) (source origin : String)
    (supplied : Arguments) : Except Error Expanded × Engine :=
  let bound : Except Error (Yaml.Entries × List Parameter × Arguments) := do
    let document ← rootEntries source origin
    let declared ← declarations origin (Yaml.Value.lookUp? "parameters" document)
    let arguments ← bindParameters declared supplied origin
    return (Yaml.Value.takeOut "parameters" document, declared, arguments)
  match bound with
  | .error error => (.error error, engine)
  | .ok (root, declared, arguments) =>
    let file := files.canonical origin
    let vars := literalVariables (Yaml.Value.lookUp? "variables" root)
    let engine := { engine with vars, stack := [⟨file, signature arguments⟩] }
    let expanded := expandRoot files engine arguments file root
    let engine := expanded.engine.clear
    match expanded.outcome with
    | .error error => (.error error, engine)
    | .ok entries =>
      match Yaml.readHeld Pipeline.reader (.mapping entries) with
      | .ok pipeline =>
        let pipeline := { pipeline with parameters := declared }
        (.ok { pipeline, parameters := arguments }, engine)
      | .error error => (failAt origin (.malformed (.ofReadError error "")), engine)

/-- Expand the document in a file. -/
def expandFile (files : Files) (engine : Engine) (path : String) (supplied : Arguments) :
    Except Error Expanded × Engine :=
  match files.read path with
  | .ok source => expandText files engine source path supplied
  | .error error => (failAt path (.unreadable error.message), engine)

end Engine

end BuildPipeline.Template
