import BuildPipeline.Proofs.Template.Inclusion
import BuildPipeline.Template.Engine

/-!
# Using an engine again

An engine keeps its stack and its variables from call to call, so a call could find what another
one left behind: a frame that was not taken off would make a later document a cycle, and a variable
that was not reset would be seen by it.  Neither happens, whatever comes of the calls.

* `Library.engine` is the engine in the middle of an expansion.  `resolve_engine` follows the
  recursion of `resolve` and shows that the engine computes the same and is the same afterwards,
  after an error too.
* `includeTemplate_eq` draws from it that an inclusion leaves the engine as it found it.
* `expandText_eq` and `expandFile_eq` say what one call comes to, on any engine.
* `engine_is_reusable` is the result, for calls in a row.
-/

namespace BuildPipeline.Template

/-- The engine that expands with a library, with some templates on its stack. -/
def Library.engine (library : Library) (stack : Stack) : Engine :=
  { repository := library.repository, stack, vars := library.vars }

namespace Engine

/-! ## Inclusions -/

section Inclusions

variable {library : Library} {stack : Stack} {level : Level} {file reference : String}
  {item : Yaml.Value}

theorem library_engine (library : Library) (stack : Stack) :
    (library.engine stack).library library.files = library :=
  rfl

theorem enter_engine (library : Library) (stack : Stack) (frame : Frame) :
    (library.engine stack).enter frame = (stack.enter frame).map library.engine := by
  change stack.enter frame >>= _ = _
  cases stack.enter frame <;> rfl

theorem openTemplate_engine [Yaml.Codec] (library : Library) (stack : Stack)
    (file reference : String) (item : Yaml.Value) :
    openTemplate library.files (library.engine stack) file reference item =
      (library.call file reference item).map fun call =>
        (call.path, call.entries, call.arguments) := by
  change openTemplate library.files (library.engine stack) file reference item =
    library.call file reference item >>= fun call => pure _
  simp only [openTemplate, Library.call, bind_assoc, pure_bind]
  rfl

theorem includeTemplate_of_refused [Yaml.Codec] {files : Files} {engine : Engine} {error : Error}
    (hopen : openTemplate files engine file reference item = .error error) :
    includeTemplate files engine level file reference item = engine.done (.error error) := by
  rw [includeTemplate]
  split
  · next other hother => rw [Except.error.inj (hopen.symm.trans hother)]
  · next hother => cases hopen.symm.trans hother

/-- The frame of a template that is entered is taken off again after its section. -/
theorem includeTemplate_of_entered [Yaml.Codec] (level : Level) {files : Files}
    {engine entered : Engine} {path : String} {entries : Yaml.Entries} {arguments : Arguments}
    (hopen : openTemplate files engine file reference item = .ok (path, entries, arguments))
    (henter : engine.enter ⟨path, signature arguments⟩ = .ok entered) :
    (includeTemplate files engine level file reference item).outcome =
        (expandBody files entered level path entries arguments reference).outcome ∧
      (includeTemplate files engine level file reference item).engine =
        (expandBody files entered level path entries arguments reference).engine.pop := by
  rw [includeTemplate]
  split
  · next hother => cases hopen.symm.trans hother
  · next hother =>
      cases hopen.symm.trans hother
      split
      · next hcycle => cases henter.symm.trans hcycle
      · next next hnext =>
          cases henter.symm.trans hnext
          exact ⟨rfl, rfl⟩

theorem includeTemplate_of_cycle [Yaml.Codec] {files : Files} {engine : Engine} {path : String}
    {entries : Yaml.Entries} {arguments : Arguments} {error : Error}
    (hopen : openTemplate files engine file reference item = .ok (path, entries, arguments))
    (henter : engine.enter ⟨path, signature arguments⟩ = .error error) :
    includeTemplate files engine level file reference item = engine.done (.error error) := by
  rw [includeTemplate]
  split
  · next hother => cases hopen.symm.trans hother
  · next hother =>
      cases hopen.symm.trans hother
      split
      · next other hcycle => rw [Except.error.inj (henter.symm.trans hcycle)]
      · next hnext => cases henter.symm.trans hnext

/-- The section of a template becomes what `resolve` makes of its nodes. -/
theorem expandBody_engine [Yaml.Codec] (call : Call)
    (hinner : ∀ body, resolve library.files (library.engine stack) level call.path body =
      (library.engine stack).done (Template.resolve library stack level call.path body)) :
    expandBody library.files (library.engine stack) level call.path call.entries call.arguments
        reference =
      (library.engine stack).done
        (sectionItems level call.entries (library.scope call.arguments call.path) reference >>=
          fun body => (Template.resolve library stack level call.path body).mapError
            fun error => error.withPath reference) := by
  rw [expandBody, library_engine]
  cases sectionItems level call.entries (library.scope call.arguments call.path) reference with
  | error error => rfl
  | ok body =>
      simp only [hinner body]
      rfl

/-- An inclusion gives the nodes that the reference expands to and leaves the engine as it was, if
the nodes of the template do on the longer stack. -/
theorem includeTemplate_engine [Yaml.Codec]
    (hinner : ∀ inclusion, library.instantiate stack file reference item = .ok inclusion →
      ∀ body,
        resolve library.files (library.engine inclusion.stack) level inclusion.scope.file body =
          (library.engine inclusion.stack).done
            (Template.resolve library inclusion.stack level inclusion.scope.file body)) :
    includeTemplate library.files (library.engine stack) level file reference item =
      (library.engine stack).done
        (library.expandReference stack level reference item ⟨{}, file⟩) := by
  have hopen := openTemplate_engine library stack file reference item
  rw [Library.instantiate_eq] at hinner
  rw [Library.expandReference, Library.instantiate_eq]
  cases hcall : library.call file reference item with
  | error error =>
      rw [hcall] at hopen
      exact includeTemplate_of_refused hopen
  | ok call =>
      rw [hcall] at hopen hinner
      have henter := enter_engine library stack call.frame
      cases hentered : stack.enter call.frame with
      | error error =>
          rw [hentered] at henter
          rw [includeTemplate_of_cycle hopen henter]
          simp only [bind, Except.bind, hentered]
      | ok next =>
          -- The engine is on the longer stack only inside: `includeTemplate` has taken it off.
          rw [hentered] at henter
          obtain ⟨-, -, rfl⟩ := Stack.enter_eq_ok hentered
          obtain ⟨houtcome, hengine⟩ := includeTemplate_of_entered level hopen henter
          simp only [bind, Except.bind, hentered] at hinner ⊢
          rw [expandBody_engine call (hinner _ rfl)] at houtcome hengine
          exact After.ext houtcome hengine

end Inclusions

/-! ## Lists of nodes -/

section Lists

variable {library : Library} {stack : Stack} {level : Level} {file : String}

/-- A node is replaced before the nodes after it, which are not reached after an error. -/
theorem resolve_cons_engine [Yaml.Codec] {item : Yaml.Value} {rest : List Yaml.Value}
    {outcome : Except Error (List Yaml.Value)}
    (hitem : resolveItem library.files (library.engine stack) level file item =
      (library.engine stack).done outcome)
    (hrest : ∀ nodes, outcome = .ok nodes →
      resolve library.files (library.engine stack) level file rest =
        (library.engine stack).done (Template.resolve library stack level file rest)) :
    resolve library.files (library.engine stack) level file (item :: rest) =
      (library.engine stack).done (outcome >>= fun nodes =>
        (Template.resolve library stack level file rest).map (nodes ++ ·)) := by
  rw [resolve.eq_2, hitem]
  cases outcome with
  | error error => rfl
  | ok nodes =>
      rw [andThen_done_ok, hrest nodes rfl, map_done]
      rfl

/-- A reference is replaced like any other node, by what it expands to. -/
theorem resolve_cons_engine_of_reference [Yaml.Codec] {reference : String} {item : Yaml.Value}
    {rest : List Yaml.Value} (hreference : reference? level item = some reference)
    (hinner : ∀ inclusion, library.instantiate stack file reference item = .ok inclusion →
      ∀ body,
        resolve library.files (library.engine inclusion.stack) level inclusion.scope.file body =
          (library.engine inclusion.stack).done
            (Template.resolve library inclusion.stack level inclusion.scope.file body))
    (hrest : ∀ inclusion, library.instantiate stack file reference item = .ok inclusion →
      resolve library.files (library.engine stack) level file rest =
        (library.engine stack).done (Template.resolve library stack level file rest)) :
    resolve library.files (library.engine stack) level file (item :: rest) =
      (library.engine stack).done (Template.resolve library stack level file (item :: rest)) := by
  have hitem : resolveItem library.files (library.engine stack) level file item = _ :=
    (resolveItem.eq_1 _ _ _ _ _ _ hreference).trans (includeTemplate_engine hinner)
  rw [resolve_cons_of_reference ⟨{}, file⟩ rest hreference]
  refine resolve_cons_engine hitem fun nodes hnodes => ?_
  obtain ⟨inclusion, hinstance, -⟩ := bind_eq_ok_iff.mp hnodes
  exact hrest inclusion hinstance

/-- An engine replaces references as `resolve` does and is the same afterwards, whatever comes of
it. -/
theorem resolve_engine [Yaml.Codec] (library : Library) :
    (∀ stack level file items,
      resolve library.files (library.engine stack) level file items =
        (library.engine stack).done (Template.resolve library stack level file items)) ∧
    ∀ stack file levels entries,
      resolveLists library.files (library.engine stack) file levels entries =
        (library.engine stack).done
          (Template.resolveLists library stack file levels entries) := by
  -- The cases are those of `resolve`: it stops at the same nodes as the engine does.
  refine Template.resolve.mutual_induct library
    (fun stack level file items =>
      resolve library.files (library.engine stack) level file items =
        (library.engine stack).done (Template.resolve library stack level file items))
    (fun stack file levels entries =>
      resolveLists library.files (library.engine stack) file levels entries =
        (library.engine stack).done (Template.resolveLists library stack file levels entries))
    ?empty ?refused ?included ?node ?leaf ?complete ?list ?noList
  case empty =>
    intro stack level file
    rw [resolve.eq_1, Template.resolve.eq_1]
  case refused =>
    intro stack level file rest reference item error hinstance hreference
    -- Neither a template nor the rest of the list is reached.
    have hrefused (inclusion : Inclusion) :
        library.instantiate stack file reference item ≠ .ok inclusion := by
      rw [hinstance]
      intro hother
      cases hother
    exact resolve_cons_engine_of_reference hreference
      (fun inclusion hother => absurd hother (hrefused inclusion))
      fun inclusion hother => absurd hother (hrefused inclusion)
  case included =>
    intro stack level file rest reference item inclusion hinstance hreference ih ihRest
    -- The template is resolved on the stack of its inclusion, the rest on the stack found here.
    refine resolve_cons_engine_of_reference hreference ?_ fun _ _ => ihRest
    intro other hother
    obtain rfl : inclusion = other := Except.ok.inj (hinstance.symm.trans hother)
    exact ih
  case node =>
    intro stack level file rest entries hreference ih ihRest
    have hitem : resolveItem library.files (library.engine stack) level file (.mapping entries) =
        (library.engine stack).done
          ((Piece.node level.children entries).outcome library stack file) := by
      rw [resolveItem.eq_2 _ _ _ _ _ hreference, ih, map_done, Piece.outcome_node]
    rw [resolve_cons_engine hitem fun _ _ => ihRest, resolve_cons_of_node rest hreference]
  case leaf =>
    intro stack level file rest item hleaf hreference ihRest
    have hitem : resolveItem library.files (library.engine stack) level file item =
        (library.engine stack).done (.ok [item]) :=
      resolveItem.eq_3 _ _ _ _ _ hleaf hreference
    rw [resolve_cons_engine hitem fun _ _ => ihRest, resolve_cons_of_leaf rest hreference hleaf]
    rfl
  case complete =>
    intro stack file entries
    rw [resolveLists.eq_1, Template.resolveLists.eq_1]
  case list =>
    intro stack file entries level levels items hlist ih ihRest
    rw [resolveLists_of_list hlist, resolveLists.eq_2]
    simp only [hlist]
    rw [ih]
    cases hnodes : Template.resolve library stack level file items with
    | error error => rfl
    | ok nodes => exact ihRest nodes
  case noList =>
    intro stack file entries level levels hlist ihRest
    rw [resolveLists_of_noList hlist, ← ihRest, resolveLists.eq_2]
    split
    · next items hitems => exact absurd hitems (hlist items)
    · rfl

/-- An inclusion leaves the engine as it was, whatever comes of it. -/
theorem includeTemplate_eq [Yaml.Codec] (files : Files) (engine : Engine) (level : Level)
    (file reference : String) (item : Yaml.Value) :
    includeTemplate files engine level file reference item =
      engine.done
        ((engine.library files).expandReference engine.stack level reference item ⟨{}, file⟩) :=
  includeTemplate_engine fun _ _ => (resolve_engine (engine.library files)).1 _ _ _

end Lists

/-! ## Documents -/

section Documents

variable {files : Files} {engine : Engine}

/-- The lists of a document are resolved as by `expand`. -/
theorem expandRoot_eq [Yaml.Codec] (root : Root) :
    expandRoot root.library.files (root.library.engine root.stack) root.arguments root.file
        root.document =
      (root.library.engine root.stack).done (root.evaluated >>= fun entries =>
        Template.resolveLists root.library root.stack root.file [.vars, .stages, .jobs, .steps]
          entries) := by
  rw [expandRoot, library_engine, Root.evaluated]
  cases evaluateEntries (root.library.scope root.arguments root.file) none [] root.document with
  | error error => rfl
  | ok entries => exact (resolve_engine root.library).2 _ _ _ _

theorem library_of_prepare [Yaml.Codec] {repository source origin : String} {supplied : Arguments}
    {root : Root} (hroot : Root.prepare files repository source origin supplied = .ok root) :
    root.library.files = files ∧ root.library.repository = repository := by
  obtain ⟨document, -, hroot⟩ := bind_eq_ok_iff.mp hroot
  obtain ⟨declared, -, hroot⟩ := bind_eq_ok_iff.mp hroot
  obtain ⟨arguments, -, hroot⟩ := bind_eq_ok_iff.mp hroot
  cases hroot
  exact ⟨rfl, rfl⟩

/-- A document is expanded on a stack and with variables of its own. -/
theorem expandText_eq_prepare [Yaml.Codec] (source origin : String) (supplied : Arguments) :
    expandText files engine source origin supplied =
      match Root.prepare files engine.repository source origin supplied with
      | .error error => (.error error, engine)
      | .ok root =>
        let expanded := expandRoot files (root.library.engine root.stack) root.arguments root.file
          root.document
        (expanded.outcome >>= fun entries => root.read origin (.mapping entries),
          expanded.engine.clear) := by
  unfold expandText Root.prepare
  cases rootEntries source origin with
  | error error => rfl
  | ok document =>
      simp only [bind, Except.bind]
      cases declarations origin (Yaml.Value.lookUp? "parameters" document) with
      | error error => rfl
      | ok declared =>
          simp only
          cases bindParameters declared supplied origin with
          | error error => rfl
          | ok arguments =>
              simp only [pure, Except.pure, Library.engine, Root.stack]
              generalize expandRoot files _ _ _ _ = result
              obtain ⟨outcome, left, -⟩ := result
              cases outcome with
              | error error => rfl
              | ok entries =>
                  simp only [Root.read]
                  cases Yaml.readHeld Pipeline.reader (.mapping entries) <;> rfl

/-- What the calls before a document have left in the engine does not matter to it.  It leaves an
empty stack, unless it is refused before it has one. -/
theorem expandText_eq [Yaml.Codec] (source origin : String) (supplied : Arguments) :
    ∃ next : Engine,
      expandText files engine source origin supplied =
        (expand files engine.repository source origin supplied, next) ∧
      next.repository = engine.repository ∧ (next.stack = [] ∨ next = engine) := by
  rw [Root.expand_eq, expandText_eq_prepare]
  cases hroot : Root.prepare files engine.repository source origin supplied with
  | error error => exact ⟨engine, rfl, rfl, .inr rfl⟩
  | ok root =>
      obtain ⟨rfl, hrepository⟩ := library_of_prepare hroot
      refine ⟨(root.library.engine root.stack).clear, ?_, hrepository, .inl rfl⟩
      simp only [expandRoot_eq, done, bind_assoc]
      rfl

theorem expandFile_eq [Yaml.Codec] (path : String) (supplied : Arguments) :
    ∃ next : Engine,
      Engine.expandFile files engine path supplied =
        (Template.expandFile files engine.repository path supplied, next) ∧
      next.repository = engine.repository ∧ (next.stack = [] ∨ next = engine) := by
  unfold Engine.expandFile Template.expandFile
  cases files.read path with
  | error error => exact ⟨engine, rfl, rfl, .inr rfl⟩
  | ok source => exact expandText_eq source path supplied

end Documents

/-! ## Calls in a row -/

/-- A document to expand and the parameters given for it. -/
inductive Request where
  | text (source origin : String) (supplied : Arguments)
  | file (path : String) (supplied : Arguments)

namespace Request

/-- What an engine answers, and the engine afterwards. -/
def answer [Yaml.Codec] (request : Request) (files : Files) (engine : Engine) :
    Except Error Expanded × Engine :=
  match request with
  | .text source origin supplied => engine.expandText files source origin supplied
  | .file path supplied => engine.expandFile files path supplied

/-- What the document expands to. -/
def expanded [Yaml.Codec] (request : Request) (files : Files) (repository : String) :
    Except Error Expanded :=
  match request with
  | .text source origin supplied => expand files repository source origin supplied
  | .file path supplied => Template.expandFile files repository path supplied

theorem answer_eq [Yaml.Codec] (request : Request) (files : Files) (engine : Engine) :
    ∃ next : Engine,
      request.answer files engine = (request.expanded files engine.repository, next) ∧
      next.repository = engine.repository ∧ (next.stack = [] ∨ next = engine) := by
  cases request with
  | text source origin supplied => exact expandText_eq source origin supplied
  | file path supplied => exact expandFile_eq path supplied

end Request

/-- The answers of one engine to requests in a row, each with the engine after it. -/
def answers [Yaml.Codec] (files : Files) (engine : Engine) :
    List Request → List (Except Error Expanded × Engine)
  | [] => []
  | request :: rest =>
    let after := request.answer files engine
    after :: answers files after.2 rest

/-- An engine with an empty stack answers every request as a new one and has an empty stack again,
also if calls before it have failed. -/
theorem forall₂_answers [Yaml.Codec] {files : Files} {repository : String} :
    ∀ {engine : Engine}, engine.repository = repository → engine.stack = [] →
      ∀ requests, List.Forall₂ (fun request after =>
        after.1 = request.expanded files repository ∧ after.2.stack = [])
          requests (engine.answers files requests)
  | engine, hrepository, hstack, [] => .nil
  | engine, hrepository, hstack, request :: rest => by
    obtain ⟨next, hanswer, hnext, hleft⟩ := request.answer_eq files engine
    have hempty : next.stack = [] := by
      obtain hempty | rfl := hleft
      · exact hempty
      · exact hstack
    rw [answers, hanswer, hrepository]
    exact .cons ⟨rfl, hempty⟩ (forall₂_answers (hnext.trans hrepository) hempty rest)

/-- An engine can be used again after anything: each of its calls gives what a new engine gives and
what the document expands to, and leaves an empty stack; an inclusion leaves the engine as it was,
whether it succeeds or fails. -/
theorem engine_is_reusable [Yaml.Codec] (files : Files) (repository : String) :
    (∀ requests, List.Forall₂ (fun request after =>
        after.1 = (request.answer files { repository }).1 ∧
        after.1 = request.expanded files repository ∧ after.2.stack = [])
      requests (answers files { repository } requests)) ∧
    ∀ engine level file reference item,
      (includeTemplate files engine level file reference item).engine = engine := by
  constructor
  · intro requests
    refine (forall₂_answers rfl rfl requests).imp fun request after ⟨hafter, hstack⟩ => ?_
    obtain ⟨next, hanswer, -⟩ := request.answer_eq files { repository }
    exact ⟨hafter.trans (congrArg Prod.fst hanswer).symm, hafter, hstack⟩
  · intro engine level file reference item
    rw [includeTemplate_eq]
    rfl

end Engine

end BuildPipeline.Template
