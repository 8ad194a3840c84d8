import BuildPipeline.Files.Tree
import BuildPipeline.Template.Binding
import BuildPipeline.Template.Evaluation

/-!
# Expanding pipelines

A document is expanded in three steps: its parameters are bound, its directives and expressions are
evaluated, and every reference to a template is replaced by the expansion of that template, which
has parameters and a scope of its own.

The templates being expanded form a stack.  A template that comes back with the same parameters is a
cycle, and so is one that is on the stack `maxSelfInclusion` times whatever its parameters.  So
every inclusion takes one of finitely many slots, which is why expansion ends.
-/

namespace BuildPipeline.Template

/-- How often one file can be on the stack. -/
def maxSelfInclusion : Nat := 16

/-- The node lists that can refer to templates. -/
inductive Level where
  | vars
  | stages
  | jobs
  | steps
  deriving DecidableEq, Repr

namespace Level

/-- The section of a document that holds the list. -/
def sectionName : Level → String
  | vars => "variables"
  | stages => "stages"
  | jobs => "jobs"
  | steps => "steps"

/-- The lists inside the nodes of a list. -/
def children : Level → List Level
  | stages => [vars, jobs]
  | jobs => [vars, steps]
  | steps | vars => []

/-- A measure of the lists inside the nodes of a list. -/
def weight : Level → Nat
  | stages => 9
  | jobs => 5
  | steps | vars => 1

def totalWeight (levels : List Level) : Nat :=
  total (levels.map fun level => level.weight + 1)

theorem totalWeight_children_lt (level : Level) : totalWeight level.children < level.weight := by
  cases level <;> decide

/-- The key that makes a node more than a reference. -/
def nameKey? : Level → Option String
  | stages => some "stage"
  | jobs => some "job"
  | steps | vars => none

end Level

/-- The text by which the parameters of one expansion are told from those of another. -/
def signature [Yaml.Codec] (arguments : Arguments) : String :=
  Yaml.Codec.write (.mapping (arguments.map fun (name, value) => (.string name, value)))

/-- A template being expanded. -/
structure Frame where
  path : String
  signature : String
  deriving DecidableEq

/-- The templates being expanded, the innermost one first. -/
abbrev Stack := List Frame

/-- What all templates of one expansion share. -/
structure Library where
  files : Files
  /-- Where references from the root are looked up. -/
  repository : String
  /-- Literal variables of the root document. -/
  vars : Table String := []

/-! ## The stack -/

namespace Stack

/-- How many frames are the given file. -/
def occurrences (stack : Stack) (path : String) : Nat :=
  stack.countP (·.path == path)

/-- The frame at which a cycle through a new frame begins. -/
def repeats? (stack : Stack) (frame : Frame) : Option Frame :=
  (stack.reverse.find? (· = frame)).or
    (if maxSelfInclusion ≤ stack.occurrences frame.path then
      stack.reverse.find? (·.path == frame.path)
    else none)

/-- The files from the first frame that is `start` to the new frame. -/
def chainFrom (stack : Stack) (start frame : Frame) : List String :=
  ((stack.reverse.dropWhile (· ≠ start)) ++ [frame]).map Frame.path

/-- Push a frame, unless that closes a cycle. -/
def enter (stack : Stack) (frame : Frame) : Except Error Stack :=
  match stack.repeats? frame with
  | some start => .error ⟨.cycle (stack.chainFrom start frame), none⟩
  | none => .ok (frame :: stack)

/-- How many more frames the files leave room for. -/
def slots (paths : List String) (stack : Stack) : Nat :=
  total (paths.map fun path => maxSelfInclusion - stack.occurrences path)

theorem occurrences_lt_of_repeats?_eq_none {stack : Stack} {frame : Frame}
    (hnew : stack.repeats? frame = none) : stack.occurrences frame.path < maxSelfInclusion := by
  apply Nat.lt_of_not_le
  intro hfull
  rw [repeats?, Option.or_eq_none_iff, if_pos hfull] at hnew
  have hpositive : 0 < stack.occurrences frame.path :=
    Nat.lt_of_lt_of_le (by decide) hfull
  obtain ⟨other, hother, hsame⟩ := List.countP_pos_iff.1 hpositive
  have := List.find?_eq_none.1 hnew.2 other (List.mem_reverse.2 hother)
  exact this hsame

theorem total_map_lt_of_mem {paths : List String} {f g : String → Nat} {path : String}
    (hle : ∀ p, f p ≤ g p) (hmem : path ∈ paths) (hlt : f path < g path) :
    total (paths.map f) < total (paths.map g) := by
  induction paths with
  | nil => cases hmem
  | cons head rest ih =>
    simp only [List.map_cons, total_cons]
    have hhead := hle head
    have hrest : total (rest.map f) ≤ total (rest.map g) := by
      clear ih hmem
      induction rest with
      | nil => simp
      | cons next rest ih =>
        have := hle next
        simp only [List.map_cons, total_cons]
        omega
    rcases List.mem_cons.1 hmem with rfl | hin
    · omega
    · have := ih hin
      omega

/-- Entering takes a slot. -/
theorem slots_lt_of_enter {paths : List String} {stack next : Stack} {frame : Frame}
    (hpath : frame.path ∈ paths) (henter : stack.enter frame = .ok next) :
    slots paths next < slots paths stack := by
  unfold enter at henter
  split at henter
  · cases henter
  · rename_i hnew
    cases henter
    have hroom := occurrences_lt_of_repeats?_eq_none hnew
    refine total_map_lt_of_mem (fun path => ?_) hpath ?_
    · simp only [occurrences, List.countP_cons]
      omega
    · simp only [occurrences, List.countP_cons] at hroom ⊢
      simp only [beq_self_eq_true, if_true]
      omega

end Stack

/-! ## References -/

/-- The template that a node refers to. -/
def reference? (level : Level) (item : Yaml.Value) : Option String := do
  let entries ← item.entries?
  let reference ← (← Yaml.Value.lookUp? "template" entries).text?
  match level.nameKey? with
  | some key => if (Yaml.Value.lookUp? key entries).isSome then none else some reference
  | none => some reference

/-- The parameters that a reference passes on. -/
def passedArguments (item : Yaml.Value) (reference : String) : Except Error Arguments :=
  match item.get? "parameters" with
  | none | some .null => .ok []
  | some (.mapping entries) =>
    .ok (Table.ofList (entries.filterMap fun (key, value) =>
      key.scalarText?.map fun name => (name, value)))
  | some _ => failAt reference .argumentsNotMapping

/-- Where a reference from a file is looked for: beside the file and then in the repository, or from
the root of the repository if it begins with a slash. -/
def Library.candidates (library : Library) (reference file : String) : List String :=
  match Text.stripStart? ['/'] reference.toList with
  | some rooted => [Path.join library.repository (String.ofList rooted)]
  | none =>
    ((Path.parent? file).map fun directory => Path.join directory reference).toList ++
      [Path.join library.repository reference]

/-- The file that a reference means, and its text. -/
def Library.find (library : Library) (reference file : String) : Except Error (String × String) :=
  let candidates := library.candidates reference file
  match candidates.findSome? library.files.file? with
  | some found => .ok found
  | none => failAt reference (.missingTemplate candidates)

theorem Library.mem_paths_of_find {library : Library} {reference file path text : String}
    (hfind : library.find reference file = .ok (path, text)) : path ∈ library.files.paths := by
  simp only [Library.find] at hfind
  split at hfind
  · rename_i found hsome
    cases hfind
    obtain ⟨candidate, -, hfile⟩ := List.exists_of_findSome?_eq_some hsome
    exact Files.mem_paths_of_file? hfile
  · cases hfind

def Library.scope (library : Library) (arguments : Arguments) (file : String) : Scope where
  context :=
    ({ parameters := arguments.mapValues Expression.Value.ofYaml } :
      Expression.Context).withVariables library.vars
  file := file

/-! ## Templates -/

variable [Yaml.Codec]

/-- The entries of a template's document. -/
def readTemplate (reference source : String) : Except Error Yaml.Entries :=
  match Yaml.Codec.read source with
  | .ok (.mapping entries) => .ok entries
  | .ok _ => failAt reference .templateNotMapping
  | .error error => failAt reference (.malformed (.ofReadError error source))

/-- A section that is a mapping of variables, as a list of definitions. -/
def definitions (entries : Yaml.Entries) : List Yaml.Value :=
  entries.map fun (name, value) =>
    .mapping [(.string "name", name), (.string "value", value)]

/-- The evaluated nodes of a section. -/
def sectionItems (level : Level) (entries : Yaml.Entries) (scope : Scope) (reference : String) :
    Except Error (List Yaml.Value) :=
  match Yaml.Value.lookUp? level.sectionName entries with
  | none => failAt reference (.noSection level.sectionName)
  | some body => do
    match level, ← evaluate scope body with
    | _, .sequence items => return items
    | _, .null => return []
    | .vars, .mapping entries => return definitions entries
    | _, _ => failAt reference (.sectionNotList level.sectionName)

/-- A template that a node refers to, with bound parameters and on the stack. -/
structure Inclusion where
  entries : Yaml.Entries
  scope : Scope
  stack : Stack

/-- Find the template that an item in `file` refers to, bind its parameters and enter it. -/
def Library.instantiate (library : Library) (stack : Stack) (file reference : String)
    (item : Yaml.Value) : Except Error Inclusion := do
  let (path, source) ← library.find reference file
  let entries ← readTemplate reference source
  let declared ← declarations path (Yaml.Value.lookUp? "parameters" entries)
  let passed ← passedArguments item reference
  let arguments ← bindParameters declared passed reference
  let stack ← stack.enter ⟨path, signature arguments⟩
  return ⟨entries, library.scope arguments path, stack⟩

/-- An inclusion enters a frame for one of the files. -/
theorem Library.enter_of_instantiate {library : Library} {stack : Stack}
    {file reference : String} {item : Yaml.Value} {inclusion : Inclusion}
    (hinstance : library.instantiate stack file reference item = .ok inclusion) :
    ∃ frame : Frame, frame.path ∈ library.files.paths ∧
      stack.enter frame = .ok inclusion.stack := by
  unfold Library.instantiate at hinstance
  cases hfind : library.find reference file with
  | error e => simp [hfind, Bind.bind, Except.bind] at hinstance
  | ok found =>
    obtain ⟨path, source⟩ := found
    have hpath := Library.mem_paths_of_find hfind
    simp only [hfind, Bind.bind, Except.bind] at hinstance
    split at hinstance
    · cases hinstance
    split at hinstance
    · cases hinstance
    split at hinstance
    · cases hinstance
    split at hinstance
    · cases hinstance
    split at hinstance
    · cases hinstance
    rename_i next henter
    cases hinstance
    exact ⟨⟨path, signature _⟩, hpath, henter⟩

theorem Library.slots_lt_of_instantiate {library : Library} {stack : Stack}
    {file reference : String} {item : Yaml.Value} {inclusion : Inclusion}
    (hinstance : library.instantiate stack file reference item = .ok inclusion) :
    inclusion.stack.slots library.files.paths < stack.slots library.files.paths := by
  obtain ⟨frame, hpath, henter⟩ := Library.enter_of_instantiate hinstance
  exact Stack.slots_lt_of_enter hpath henter

/-! ## Replacing references -/

mutual

/-- Replace the references in a list of nodes that stands in `file`, and in the lists inside its
nodes. -/
def resolve (library : Library) (stack : Stack) (level : Level) (file : String)
    (items : List Yaml.Value) : Except Error (List Yaml.Value) :=
  match items with
  | [] => .ok []
  | item :: rest =>
    match reference? level item, item with
    | some reference, item =>
      match _hinstance : library.instantiate stack file reference item with
      | .error error => .error error
      | .ok inclusion => do
        let body ← sectionItems level inclusion.entries inclusion.scope reference
        let nodes ←
          (resolve library inclusion.stack level inclusion.scope.file body).mapError
            fun error => error.withPath reference
        return nodes ++ (← resolve library stack level file rest)
    | none, .mapping entries => do
      let entries ← resolveLists library stack file level.children entries
      return .mapping entries :: (← resolve library stack level file rest)
    | none, item => do
      return item :: (← resolve library stack level file rest)
termination_by (stack.slots library.files.paths, level.weight, items.length)
decreasing_by
  · exact Prod.Lex.left _ _ (Library.slots_lt_of_instantiate _hinstance)
  · exact Prod.Lex.right _ (Prod.Lex.right _ (by simp))
  · exact Prod.Lex.right _ (Prod.Lex.left _ _ (Level.totalWeight_children_lt level))
  · exact Prod.Lex.right _ (Prod.Lex.right _ (by simp))
  · exact Prod.Lex.right _ (Prod.Lex.right _ (by simp))

/-- Replace the references in the lists of the given levels in a node. -/
def resolveLists (library : Library) (stack : Stack) (file : String) (levels : List Level)
    (entries : Yaml.Entries) : Except Error Yaml.Entries :=
  match levels with
  | [] => .ok entries
  | level :: rest =>
    match Yaml.Value.lookUp? level.sectionName entries with
    | some (.sequence items) => do
      let nodes ← resolve library stack level file items
      resolveLists library stack file rest
        (Yaml.Value.insert (.string level.sectionName) (.sequence nodes) entries)
    | _ => resolveLists library stack file rest entries
termination_by (stack.slots library.files.paths, Level.totalWeight levels, 0)
decreasing_by
  · exact Prod.Lex.right _ (Prod.Lex.left _ _ (by simp [Level.totalWeight]; omega))
  · exact Prod.Lex.right _ (Prod.Lex.left _ _ (by simp [Level.totalWeight]))
  · exact Prod.Lex.right _ (Prod.Lex.left _ _ (by simp [Level.totalWeight]))

end

/-! ## Whole documents -/

/-- An expanded pipeline and the values of its parameters. -/
structure Expanded where
  pipeline : Pipeline
  parameters : Arguments
  deriving Inhabited

/-- A literal variable that is written as a definition. -/
def literalDefinition? (item : Yaml.Value) : Option (String × String) := do
  let name ← (← item.get? "name").scalarText?
  let value ← (← item.get? "value").scalarText?
  return (name, value)

/-- The variables of the root document that are literal. -/
def literalVariables : Option Yaml.Value → Table String
  | some (.mapping entries) =>
    Table.ofList (entries.filterMap fun (name, value) => do
      let name ← name.scalarText?
      let value ← value.scalarText?
      if Text.startsWith "$\x7b\x7b".toList name.toList then none else some (name, value))
  | some (.sequence items) => Table.ofList (items.filterMap literalDefinition?)
  | _ => []

/-- The entries of a pipeline document. -/
def rootEntries (source origin : String) : Except Error Yaml.Entries :=
  match Yaml.Codec.read source with
  | .ok (.mapping entries) => .ok entries
  | .ok .null => .ok []
  | .ok _ => failAt origin .pipelineNotMapping
  | .error error => failAt origin (.malformed (.ofReadError error source))

/-- Expand a document that lives at `origin`, with some parameters given. -/
def expand (files : Files) (repository source origin : String) (supplied : Arguments) :
    Except Error Expanded := do
  let document ← rootEntries source origin
  let declared ← declarations origin (Yaml.Value.lookUp? "parameters" document)
  let arguments ← bindParameters declared supplied origin
  let root := Yaml.Value.takeOut "parameters" document
  let vars := literalVariables (Yaml.Value.lookUp? "variables" root)
  let library : Library := { files, repository, vars }
  let file := files.canonical origin
  let evaluated ← evaluateEntries (library.scope arguments file) none [] root
  let entries ←
    resolveLists library [⟨file, signature arguments⟩] file [.vars, .stages, .jobs, .steps] evaluated
  match Yaml.readHeld Pipeline.reader (.mapping entries) with
  | .ok pipeline =>
    return { pipeline := { pipeline with parameters := declared }, parameters := arguments }
  | .error error => failAt origin (.malformed (.ofReadError error ""))

/-- Expand the document in a file. -/
def expandFile (files : Files) (repository path : String) (supplied : Arguments) :
    Except Error Expanded :=
  match files.read path with
  | .ok source => expand files repository source path supplied
  | .error error => failAt path (.unreadable error.message)

end BuildPipeline.Template
