import BuildPipeline.Template.Expansion
import Mathlib.Algebra.Order.BigOperators.Group.Finset

/-!
# The stack of an expansion

The parameters of a template can grow from one inclusion to the next, so nothing about them bounds
the expansion.  What bounds it is the stack: no instance of a template stands on it twice, and no
file more than `maxSelfInclusion` times.

* `Expansion` is the course of an expansion as a finite derivation, with its outcome and with every
  stack that it goes through.  A derivation is what it means that an expansion comes to an end.
* `exists_expansion` and `Expansion.outcome_eq`: there is a derivation for everything that can be
  expanded, and its outcome is the one that is computed.
* `Stack.Bounded` is the invariant of the stacks.  `Stack.Bounded.length_le` draws the bound on the
  depth from it.
* `wellFounded_enter`: files can be entered in a row only finitely often, whatever is passed on.
-/

namespace BuildPipeline.Template

/-! ## Bounded stacks -/

/-- A stack of some files on which no frame stands twice and no file too often. -/
structure Stack.Bounded (paths : List String) (stack : Stack) : Prop where
  distinct : stack.Nodup
  occurrences : ∀ path, stack.occurrences path ≤ maxSelfInclusion
  known : ∀ frame ∈ stack, frame.path ∈ paths

namespace Stack

variable {paths : List String} {stack next : Stack} {frame : Frame}

/-- A frame that is entered is new, its file has room, and it is put on top. -/
theorem enter_eq_ok (henter : stack.enter frame = .ok next) :
    frame ∉ stack ∧ stack.occurrences frame.path < maxSelfInclusion ∧ next = frame :: stack := by
  unfold enter at henter
  split at henter
  · cases henter
  · next hnew =>
      cases henter
      refine ⟨fun hframe => ?_, occurrences_lt_of_repeats?_eq_none hnew, rfl⟩
      rw [repeats?, Option.or_eq_none_iff] at hnew
      have hother := List.find?_eq_none.mp hnew.1 frame (List.mem_reverse.mpr hframe)
      simp at hother

theorem occurrences_cons (frame : Frame) (stack : Stack) (path : String) :
    occurrences (frame :: stack) path =
      stack.occurrences path + if frame.path = path then 1 else 0 := by
  simp [occurrences, List.countP_cons]

namespace Bounded

theorem singleton (hpath : frame.path ∈ paths) : Bounded paths [frame] where
  distinct := List.nodup_singleton frame
  occurrences := by
    intro path
    calc
      Stack.occurrences [frame] path ≤ 1 := List.countP_le_length
      _ ≤ maxSelfInclusion := by decide
  known := List.forall_mem_singleton.mpr hpath

theorem enter (hbounded : stack.Bounded paths) (hpath : frame.path ∈ paths)
    (henter : stack.enter frame = .ok next) : next.Bounded paths := by
  obtain ⟨hnew, hroom, rfl⟩ := enter_eq_ok henter
  refine ⟨List.nodup_cons.mpr ⟨hnew, hbounded.distinct⟩, fun path => ?_,
    List.forall_mem_cons.mpr ⟨hpath, hbounded.known⟩⟩
  rw [occurrences_cons]
  have hbefore := hbounded.occurrences path
  by_cases hsame : frame.path = path
  · subst hsame
    rw [if_pos rfl]
    omega
  · rw [if_neg hsame]
    omega

theorem instantiate [Yaml.Codec] {library : Library} {file reference : String} {item : Yaml.Value}
    {inclusion : Inclusion} (hbounded : stack.Bounded paths)
    (hfiles : library.files.paths ⊆ paths)
    (hinstance : library.instantiate stack file reference item = .ok inclusion) :
    inclusion.stack.Bounded paths := by
  obtain ⟨frame, hpath, henter⟩ := Library.enter_of_instantiate hinstance
  exact hbounded.enter (hfiles hpath) henter

/-- The files bound the depth. -/
theorem length_le (hbounded : stack.Bounded paths) :
    stack.length ≤ maxSelfInclusion * paths.toFinset.card := by
  have hcard : stack.toFinset.card = stack.length :=
    List.toFinset_card_of_nodup hbounded.distinct
  have hpaths : ∀ frame ∈ stack.toFinset, frame.path ∈ paths.toFinset := by
    intro frame hframe
    exact List.mem_toFinset.mpr (hbounded.known frame (List.mem_toFinset.mp hframe))
  have hfibre : ∀ path ∈ paths.toFinset,
      (stack.toFinset.filter fun frame => frame.path = path).card ≤ maxSelfInclusion := by
    intro path _
    have hfilter : (stack.toFinset.filter fun frame => frame.path = path) =
        (stack.filter fun frame => frame.path == path).toFinset := by
      rw [List.toFinset_filter]
      simp
    calc
      (stack.toFinset.filter fun frame => frame.path = path).card
          ≤ (stack.filter fun frame => frame.path == path).length := by
        rw [hfilter]
        exact List.toFinset_card_le _
      _ = stack.occurrences path := List.countP_eq_length_filter.symm
      _ ≤ maxSelfInclusion := hbounded.occurrences path
  rw [← hcard]
  exact Finset.card_le_mul_card_image_of_maps_to hpaths maxSelfInclusion hfibre

end Bounded

/-- Whatever the signatures are, files can be entered in a row only finitely often. -/
theorem wellFounded_enter (paths : List String) :
    WellFounded fun inner outer : Stack =>
      ∃ path ∈ paths, ∃ signature, outer.enter ⟨path, signature⟩ = .ok inner := by
  refine Subrelation.wf ?_ (measure (slots paths)).wf
  rintro inner outer ⟨path, hpath, signature, henter⟩
  have hframe : (⟨path, signature⟩ : Frame).path ∈ paths := hpath
  exact slots_lt_of_enter hframe henter

end Stack

/-! ## The course of an expansion -/

/-- What references are replaced in: a list of nodes, or the lists of some levels in a node. -/
inductive Piece where
  | nodes (level : Level) (items : List Yaml.Value)
  | node (levels : List Level) (entries : Yaml.Entries)

/-- The nodes that come out, one if the piece is a node. -/
def Piece.outcome [Yaml.Codec] (library : Library) (stack : Stack) (file : String) :
    Piece → Except Error (List Yaml.Value)
  | nodes level items => resolve library stack level file items
  | node levels entries =>
    (resolveLists library stack file levels entries).map fun entries => [.mapping entries]

theorem Piece.outcome_nodes [Yaml.Codec] (library : Library) (stack : Stack) (file : String)
    (level : Level) (items : List Yaml.Value) :
    (nodes level items).outcome library stack file = resolve library stack level file items := rfl

theorem Piece.outcome_node [Yaml.Codec] (library : Library) (stack : Stack) (file : String)
    (levels : List Level) (entries : Yaml.Entries) :
    (node levels entries).outcome library stack file =
      (resolveLists library stack file levels entries).map fun entries => [.mapping entries] := rfl

/-- The course of the expansion of a piece that stands in a file: the outcome and, in order, the
stacks at the pieces that are expanded for it.  The piece itself comes first.  Nothing comes after
an error. -/
inductive Expansion [Yaml.Codec] (library : Library) :
    Stack → String → Piece → Except Error (List Yaml.Value) → List Stack → Prop
  | empty {stack : Stack} {file : String} (level : Level) :
      Expansion library stack file (.nodes level []) (.ok []) [stack]
  /-- No instance of the template: it is missing, its parameters do not fit, or it is a cycle. -/
  | refused {stack : Stack} {file reference : String} {level : Level} {item : Yaml.Value}
      {error : Error} (rest : List Yaml.Value) (hreference : reference? level item = some reference)
      (hinstance : library.instantiate stack file reference item = .error error) :
      Expansion library stack file (.nodes level (item :: rest)) (.error error) [stack]
  /-- The template has no list for the level. -/
  | bodiless {stack : Stack} {file reference : String} {level : Level} {item : Yaml.Value}
      {inclusion : Inclusion} {error : Error} (rest : List Yaml.Value)
      (hreference : reference? level item = some reference)
      (hinstance : library.instantiate stack file reference item = .ok inclusion)
      (hbody : sectionItems level inclusion.entries inclusion.scope reference = .error error) :
      Expansion library stack file (.nodes level (item :: rest)) (.error error)
        [stack, inclusion.stack]
  | includedError {stack : Stack} {file reference : String} {level : Level} {item : Yaml.Value}
      {inclusion : Inclusion} {body : List Yaml.Value} {error : Error} {inner : List Stack}
      (rest : List Yaml.Value) (hreference : reference? level item = some reference)
      (hinstance : library.instantiate stack file reference item = .ok inclusion)
      (hbody : sectionItems level inclusion.entries inclusion.scope reference = .ok body)
      (hinner : Expansion library inclusion.stack inclusion.scope.file (.nodes level body)
        (.error error) inner) :
      Expansion library stack file (.nodes level (item :: rest)) (.error (error.withPath reference))
        (stack :: inner)
  | included {stack : Stack} {file reference : String} {level : Level} {item : Yaml.Value}
      {inclusion : Inclusion} {body nodes rest : List Yaml.Value}
      {outcome : Except Error (List Yaml.Value)} {inner after : List Stack}
      (hreference : reference? level item = some reference)
      (hinstance : library.instantiate stack file reference item = .ok inclusion)
      (hbody : sectionItems level inclusion.entries inclusion.scope reference = .ok body)
      (hinner : Expansion library inclusion.stack inclusion.scope.file (.nodes level body)
        (.ok nodes) inner)
      (hrest : Expansion library stack file (.nodes level rest) outcome after) :
      Expansion library stack file (.nodes level (item :: rest)) (outcome.map (nodes ++ ·))
        (stack :: (inner ++ after))
  | nodeError {stack : Stack} {file : String} {level : Level} {entries : Yaml.Entries}
      {error : Error} {inner : List Stack} (rest : List Yaml.Value)
      (hreference : reference? level (.mapping entries) = none)
      (hinner : Expansion library stack file (.node level.children entries) (.error error) inner) :
      Expansion library stack file (.nodes level (.mapping entries :: rest)) (.error error)
        (stack :: inner)
  | node {stack : Stack} {file : String} {level : Level} {entries : Yaml.Entries}
      {nodes rest : List Yaml.Value} {outcome : Except Error (List Yaml.Value)}
      {inner after : List Stack} (hreference : reference? level (.mapping entries) = none)
      (hinner : Expansion library stack file (.node level.children entries) (.ok nodes) inner)
      (hrest : Expansion library stack file (.nodes level rest) outcome after) :
      Expansion library stack file (.nodes level (.mapping entries :: rest))
        (outcome.map (nodes ++ ·)) (stack :: (inner ++ after))
  /-- What is neither a reference nor a mapping stays as it is. -/
  | leaf {stack : Stack} {file : String} {level : Level} {item : Yaml.Value}
      {rest : List Yaml.Value} {outcome : Except Error (List Yaml.Value)} {after : List Stack}
      (hreference : reference? level item = none) (hleaf : ∀ entries, item ≠ .mapping entries)
      (hrest : Expansion library stack file (.nodes level rest) outcome after) :
      Expansion library stack file (.nodes level (item :: rest)) (outcome.map (item :: ·))
        (stack :: after)
  | complete {stack : Stack} {file : String} (entries : Yaml.Entries) :
      Expansion library stack file (.node [] entries) (.ok [.mapping entries]) [stack]
  | listError {stack : Stack} {file : String} {level : Level} {entries : Yaml.Entries}
      {items : List Yaml.Value} {error : Error} {inner : List Stack} (levels : List Level)
      (hlist : Yaml.Value.lookUp? level.sectionName entries = some (.sequence items))
      (hinner : Expansion library stack file (.nodes level items) (.error error) inner) :
      Expansion library stack file (.node (level :: levels) entries) (.error error)
        (stack :: inner)
  | list {stack : Stack} {file : String} {level : Level} {levels : List Level}
      {entries : Yaml.Entries} {items nodes : List Yaml.Value}
      {outcome : Except Error (List Yaml.Value)} {inner after : List Stack}
      (hlist : Yaml.Value.lookUp? level.sectionName entries = some (.sequence items))
      (hinner : Expansion library stack file (.nodes level items) (.ok nodes) inner)
      (hrest : Expansion library stack file
        (.node levels (Yaml.Value.insert (.string level.sectionName) (.sequence nodes) entries))
        outcome after) :
      Expansion library stack file (.node (level :: levels) entries) outcome
        (stack :: (inner ++ after))
  | noList {stack : Stack} {file : String} {level : Level} {levels : List Level}
      {entries : Yaml.Entries} {outcome : Except Error (List Yaml.Value)} {after : List Stack}
      (hlist : ∀ items, Yaml.Value.lookUp? level.sectionName entries ≠ some (.sequence items))
      (hrest : Expansion library stack file (.node levels entries) outcome after) :
      Expansion library stack file (.node (level :: levels) entries) outcome (stack :: after)

/-! ### What is computed, case by case -/

section Computed

variable {library : Library} {stack : Stack} {file reference : String} {level : Level}
  {levels : List Level} {item : Yaml.Value} {rest : List Yaml.Value} {entries : Yaml.Entries}

theorem resolve_of_refused [Yaml.Codec] {error : Error}
    (hreference : reference? level item = some reference)
    (hinstance : library.instantiate stack file reference item = .error error) :
    resolve library stack level file (item :: rest) = .error error := by
  rw [resolve.eq_2 _ _ _ _ _ _ _ hreference]
  split
  · next other hother =>
      rw [hinstance, Except.error.injEq] at hother
      rw [hother]
  · next hother =>
      rw [hinstance] at hother
      cases hother

theorem resolve_of_included [Yaml.Codec] {inclusion : Inclusion}
    (hreference : reference? level item = some reference)
    (hinstance : library.instantiate stack file reference item = .ok inclusion) :
    resolve library stack level file (item :: rest) = do
      let body ← sectionItems level inclusion.entries inclusion.scope reference
      let nodes ← (resolve library inclusion.stack level inclusion.scope.file body).mapError
        fun error => error.withPath reference
      return nodes ++ (← resolve library stack level file rest) := by
  rw [resolve.eq_2 _ _ _ _ _ _ _ hreference]
  split
  · next hother =>
      rw [hinstance] at hother
      cases hother
  · next other hother =>
      rw [hinstance, Except.ok.injEq] at hother
      subst hother
      rfl

theorem resolveLists_of_list [Yaml.Codec] {items : List Yaml.Value}
    (hlist : Yaml.Value.lookUp? level.sectionName entries = some (.sequence items)) :
    resolveLists library stack file (level :: levels) entries =
      (resolve library stack level file items).bind fun nodes =>
        resolveLists library stack file levels
          (Yaml.Value.insert (.string level.sectionName) (.sequence nodes) entries) := by
  rw [resolveLists.eq_2, hlist]
  rfl

theorem resolveLists_of_noList [Yaml.Codec]
    (hlist : ∀ items, Yaml.Value.lookUp? level.sectionName entries ≠ some (.sequence items)) :
    resolveLists library stack file (level :: levels) entries =
      resolveLists library stack file levels entries := by
  rw [resolveLists.eq_2]
  split
  · next items hitems => exact absurd hitems (hlist items)
  · rfl

/-- A node comes out of the expansion of its lists. -/
theorem resolveLists_of_outcome_ok [Yaml.Codec] {nodes : List Yaml.Value}
    (houtcome : .ok nodes = (Piece.node levels entries).outcome library stack file) :
    ∃ resolved, resolveLists library stack file levels entries = .ok resolved ∧
      nodes = [.mapping resolved] := by
  rw [Piece.outcome_node] at houtcome
  cases hlists : resolveLists library stack file levels entries with
  | ok resolved =>
      rw [hlists] at houtcome
      exact ⟨resolved, rfl, Except.ok.inj houtcome⟩
  | error error =>
      rw [hlists] at houtcome
      cases houtcome

theorem resolveLists_of_outcome_error [Yaml.Codec] {error : Error}
    (houtcome : .error error = (Piece.node levels entries).outcome library stack file) :
    resolveLists library stack file levels entries = .error error := by
  rw [Piece.outcome_node] at houtcome
  cases hlists : resolveLists library stack file levels entries with
  | ok resolved =>
      rw [hlists] at houtcome
      cases houtcome
  | error other =>
      rw [hlists] at houtcome
      rw [Except.error.inj houtcome]

end Computed

namespace Expansion

variable {library : Library} {stack : Stack} {file : String} {piece : Piece}
  {outcome : Except Error (List Yaml.Value)} {trail : List Stack}

/-- Every course has the outcome that is computed. -/
theorem outcome_eq [Yaml.Codec] (hexpansion : Expansion library stack file piece outcome trail) :
    outcome = piece.outcome library stack file := by
  induction hexpansion with
  | empty level => exact (resolve.eq_1 ..).symm
  | refused rest hreference hinstance => exact (resolve_of_refused hreference hinstance).symm
  | bodiless rest hreference hinstance hbody =>
      rw [Piece.outcome_nodes, resolve_of_included hreference hinstance, hbody]
      rfl
  | includedError rest hreference hinstance hbody hinner ih =>
      rw [Piece.outcome_nodes] at ih ⊢
      rw [resolve_of_included hreference hinstance, hbody]
      simp only [bind, Except.bind, ← ih]
      rfl
  | @included _ _ _ _ _ _ _ _ _ outcome _ _ hreference hinstance hbody hinner hrest ih ihRest =>
      rw [Piece.outcome_nodes] at ih ihRest ⊢
      rw [resolve_of_included hreference hinstance, hbody]
      simp only [bind, Except.bind, ← ih, ← ihRest]
      cases outcome <;> rfl
  | nodeError rest hreference hinner ih =>
      have hlists := resolveLists_of_outcome_error ih
      rw [Piece.outcome_nodes, resolve.eq_3 _ _ _ _ _ _ hreference, hlists]
      rfl
  | @node _ _ _ _ _ _ outcome _ _ hreference hinner hrest ih ihRest =>
      obtain ⟨resolved, hlists, rfl⟩ := resolveLists_of_outcome_ok ih
      rw [Piece.outcome_nodes] at ihRest ⊢
      rw [resolve.eq_3 _ _ _ _ _ _ hreference, hlists]
      simp only [bind, Except.bind, ← ihRest]
      cases outcome <;> rfl
  | @leaf _ _ _ _ _ outcome _ hreference hleaf hrest ih =>
      rw [Piece.outcome_nodes] at ih ⊢
      rw [resolve.eq_4 _ _ _ _ _ _ hleaf hreference, ← ih]
      cases outcome <;> rfl
  | complete entries =>
      rw [Piece.outcome_node, resolveLists.eq_1]
      rfl
  | listError levels hlist hinner ih =>
      rw [Piece.outcome_nodes] at ih
      rw [Piece.outcome_node, resolveLists_of_list hlist, ← ih]
      rfl
  | list hlist hinner hrest ih ihRest =>
      rw [Piece.outcome_nodes] at ih
      rw [Piece.outcome_node, resolveLists_of_list hlist, ← ih]
      exact ihRest
  | noList hlist hrest ih =>
      rw [Piece.outcome_node, resolveLists_of_noList hlist]
      exact ih

/-- No course leaves the bound that its first stack keeps. -/
theorem bounded [Yaml.Codec] {paths : List String}
    (hexpansion : Expansion library stack file piece outcome trail)
    (hfiles : library.files.paths ⊆ paths) (hbounded : stack.Bounded paths) :
    ∀ visited ∈ trail, visited.Bounded paths := by
  induction hexpansion with
  | empty level => exact List.forall_mem_singleton.mpr hbounded
  | refused rest hreference hinstance => exact List.forall_mem_singleton.mpr hbounded
  | bodiless rest hreference hinstance hbody =>
      have hinclusion := hbounded.instantiate hfiles hinstance
      exact List.forall_mem_cons.mpr ⟨hbounded, List.forall_mem_singleton.mpr hinclusion⟩
  | includedError rest hreference hinstance hbody hinner ih =>
      have hinclusion := hbounded.instantiate hfiles hinstance
      exact List.forall_mem_cons.mpr ⟨hbounded, ih hinclusion⟩
  | included hreference hinstance hbody hinner hrest ih ihRest =>
      have hinclusion := hbounded.instantiate hfiles hinstance
      have hboth := List.forall_mem_append.mpr ⟨ih hinclusion, ihRest hbounded⟩
      exact List.forall_mem_cons.mpr ⟨hbounded, hboth⟩
  | nodeError rest hreference hinner ih =>
      exact List.forall_mem_cons.mpr ⟨hbounded, ih hbounded⟩
  | node hreference hinner hrest ih ihRest =>
      have hboth := List.forall_mem_append.mpr ⟨ih hbounded, ihRest hbounded⟩
      exact List.forall_mem_cons.mpr ⟨hbounded, hboth⟩
  | leaf hreference hleaf hrest ih =>
      exact List.forall_mem_cons.mpr ⟨hbounded, ih hbounded⟩
  | complete entries => exact List.forall_mem_singleton.mpr hbounded
  | listError levels hlist hinner ih =>
      exact List.forall_mem_cons.mpr ⟨hbounded, ih hbounded⟩
  | list hlist hinner hrest ih ihRest =>
      have hboth := List.forall_mem_append.mpr ⟨ih hbounded, ihRest hbounded⟩
      exact List.forall_mem_cons.mpr ⟨hbounded, hboth⟩
  | noList hlist hrest ih =>
      exact List.forall_mem_cons.mpr ⟨hbounded, ih hbounded⟩

end Expansion

/-- Everything that can be expanded has a course: the expansion comes to an end. -/
theorem exists_expansion [Yaml.Codec] (library : Library) (stack : Stack) (file : String)
    (piece : Piece) :
    ∃ trail, Expansion library stack file piece (piece.outcome library stack file) trail := by
  have hcourse : (∀ stack level file items, ∃ outcome trail,
      Expansion library stack file (.nodes level items) outcome trail) ∧
      ∀ stack file levels entries, ∃ outcome trail,
        Expansion library stack file (.node levels entries) outcome trail := by
    -- The cases are those of the computation, whose recursion takes a slot with each inclusion.
    refine resolve.mutual_induct library
      (fun stack level file items => ∃ outcome trail,
        Expansion library stack file (.nodes level items) outcome trail)
      (fun stack file levels entries => ∃ outcome trail,
        Expansion library stack file (.node levels entries) outcome trail)
      ?empty ?refused ?included ?node ?leaf ?complete ?list ?noList
    case empty =>
      intro stack level file
      exact ⟨_, _, .empty level⟩
    case refused =>
      intro stack level file rest reference item error hinstance hreference
      exact ⟨_, _, .refused rest hreference hinstance⟩
    case included =>
      intro stack level file rest reference item inclusion hinstance hreference ih ihRest
      cases hbody : sectionItems level inclusion.entries inclusion.scope reference with
      | error error => exact ⟨_, _, .bodiless rest hreference hinstance hbody⟩
      | ok body =>
          obtain ⟨outcome, inner, hinner⟩ := ih body
          cases outcome with
          | error error => exact ⟨_, _, .includedError rest hreference hinstance hbody hinner⟩
          | ok nodes =>
              obtain ⟨outcome, after, hrest⟩ := ihRest
              exact ⟨_, _, .included hreference hinstance hbody hinner hrest⟩
    case node =>
      intro stack level file rest entries hreference ih ihRest
      obtain ⟨outcome, inner, hinner⟩ := ih
      cases outcome with
      | error error => exact ⟨_, _, .nodeError rest hreference hinner⟩
      | ok nodes =>
          obtain ⟨outcome, after, hrest⟩ := ihRest
          exact ⟨_, _, .node hreference hinner hrest⟩
    case leaf =>
      intro stack level file rest item hleaf hreference ihRest
      obtain ⟨outcome, after, hrest⟩ := ihRest
      exact ⟨_, _, .leaf hreference hleaf hrest⟩
    case complete =>
      intro stack file entries
      exact ⟨_, _, .complete entries⟩
    case list =>
      intro stack file entries level levels items hlist ih ihRest
      obtain ⟨outcome, inner, hinner⟩ := ih
      cases outcome with
      | error error => exact ⟨_, _, .listError levels hlist hinner⟩
      | ok nodes =>
          obtain ⟨outcome, after, hrest⟩ := ihRest nodes
          exact ⟨_, _, .list hlist hinner hrest⟩
    case noList =>
      intro stack file entries level levels hlist ihRest
      obtain ⟨outcome, after, hrest⟩ := ihRest
      exact ⟨_, _, .noList hlist hrest⟩
  have hpiece : ∃ outcome trail, Expansion library stack file piece outcome trail := by
    cases piece with
    | nodes level items => exact hcourse.1 stack level file items
    | node levels entries => exact hcourse.2 stack file levels entries
  obtain ⟨outcome, trail, hexpansion⟩ := hpiece
  exact ⟨trail, hexpansion.outcome_eq ▸ hexpansion⟩

/-! ## Whole documents -/

/-- A document with bound parameters. -/
structure Root where
  library : Library
  file : String
  declared : List Parameter
  arguments : Arguments
  document : Yaml.Entries

namespace Root

/-- What comes before the expansion has a stack. -/
def prepare [Yaml.Codec] (files : Files) (repository source origin : String)
    (supplied : Arguments) :
    Except Error Root := do
  let document ← rootEntries source origin
  let declared ← declarations origin (Yaml.Value.lookUp? "parameters" document)
  let arguments ← bindParameters declared supplied origin
  let document := Yaml.Value.takeOut "parameters" document
  let vars := literalVariables (Yaml.Value.lookUp? "variables" document)
  let library : Library := { files, repository, vars }
  return { library, file := files.canonical origin, declared, arguments, document }

def stack [Yaml.Codec] (root : Root) : Stack :=
  [⟨root.file, signature root.arguments⟩]

def evaluated (root : Root) : Except Error Yaml.Entries :=
  evaluateEntries (root.library.scope root.arguments root.file) none [] root.document

/-- The lists of a whole document. -/
def piece (entries : Yaml.Entries) : Piece :=
  .node [.vars, .stages, .jobs, .steps] entries

/-- What comes after the references are replaced. -/
def read (root : Root) (origin : String) (document : Yaml.Value) : Except Error Expanded :=
  match Yaml.readHeld Pipeline.reader document with
  | .ok pipeline =>
    .ok { pipeline := { pipeline with parameters := root.declared }, parameters := root.arguments }
  | .error error => failAt origin (.malformed (.ofReadError error ""))

theorem expand_eq [Yaml.Codec] (files : Files) (repository source origin : String)
    (supplied : Arguments) :
    expand files repository source origin supplied =
      (prepare files repository source origin supplied).bind fun root =>
        root.evaluated.bind fun entries =>
          (resolveLists root.library root.stack root.file [.vars, .stages, .jobs, .steps]
            entries).bind fun entries => root.read origin (.mapping entries) := by
  unfold expand prepare
  cases rootEntries source origin with
  | error error => rfl
  | ok document =>
      simp only [bind, Except.bind]
      cases declarations origin (Yaml.Value.lookUp? "parameters" document) with
      | error error => rfl
      | ok declared =>
          simp only
          cases bindParameters declared supplied origin with
          | error error => rfl
          | ok arguments => rfl

end Root

/-- The course of the expansion of a document: the outcome and the stacks it goes through. -/
inductive Expands [Yaml.Codec] (files : Files) (repository source origin : String)
    (supplied : Arguments) :
    Except Error Expanded → List Stack → Prop
  | refused {error : Error}
      (hroot : Root.prepare files repository source origin supplied = .error error) :
      Expands files repository source origin supplied (.error error) []
  | unevaluated {root : Root} {error : Error}
      (hroot : Root.prepare files repository source origin supplied = .ok root)
      (hentries : root.evaluated = .error error) :
      Expands files repository source origin supplied (.error error) [root.stack]
  | broken {root : Root} {entries : Yaml.Entries} {error : Error} {trail : List Stack}
      (hroot : Root.prepare files repository source origin supplied = .ok root)
      (hentries : root.evaluated = .ok entries)
      (hexpansion : Expansion root.library root.stack root.file (Root.piece entries)
        (.error error) trail) :
      Expands files repository source origin supplied (.error error) trail
  | expanded {root : Root} {entries : Yaml.Entries} {document : Yaml.Value} {trail : List Stack}
      (hroot : Root.prepare files repository source origin supplied = .ok root)
      (hentries : root.evaluated = .ok entries)
      (hexpansion : Expansion root.library root.stack root.file (Root.piece entries)
        (.ok [document]) trail) :
      Expands files repository source origin supplied (root.read origin document) trail

section Documents

variable {files : Files} {repository source origin : String} {supplied : Arguments}
  {outcome : Except Error Expanded} {trail : List Stack} {root : Root}

/-- The files of an expansion are those it was given, and the document lives at its origin. -/
theorem Root.prepare_cases [Yaml.Codec]
    (hroot : prepare files repository source origin supplied = .ok root) :
    root.library.files = files ∧ root.file = files.canonical origin := by
  unfold prepare at hroot
  cases hdocument : rootEntries source origin with
  | error error => simp [hdocument, bind, Except.bind] at hroot
  | ok document =>
      cases hdeclared : declarations origin (Yaml.Value.lookUp? "parameters" document) with
      | error error => simp [hdocument, hdeclared, bind, Except.bind] at hroot
      | ok declared =>
          cases harguments : bindParameters declared supplied origin with
          | error error => simp [hdocument, hdeclared, harguments, bind, Except.bind] at hroot
          | ok arguments =>
              simp only [hdocument, hdeclared, harguments, bind, Except.bind, pure, Except.pure,
                Except.ok.injEq] at hroot
              subst hroot
              exact ⟨rfl, rfl⟩

namespace Expands

theorem outcome_eq [Yaml.Codec]
    (hexpands : Expands files repository source origin supplied outcome trail) :
    outcome = expand files repository source origin supplied := by
  rw [Root.expand_eq]
  cases hexpands with
  | refused hroot =>
      rw [hroot]
      rfl
  | unevaluated hroot hentries =>
      simp only [hroot, hentries, Except.bind]
  | broken hroot hentries hexpansion =>
      have hlists := resolveLists_of_outcome_error hexpansion.outcome_eq
      simp only [hroot, hentries, hlists, Except.bind]
  | expanded hroot hentries hexpansion =>
      obtain ⟨resolved, hlists, hdocument⟩ := resolveLists_of_outcome_ok hexpansion.outcome_eq
      obtain rfl := List.singleton_inj.mp hdocument
      simp only [hroot, hentries, hlists, Except.bind]

/-- Every stack of an expansion is a bounded stack of the files and the document itself. -/
theorem bounded [Yaml.Codec]
    (hexpands : Expands files repository source origin supplied outcome trail) :
    ∀ stack ∈ trail, stack.Bounded (files.canonical origin :: files.paths) := by
  have hroot : ∀ root, Root.prepare files repository source origin supplied = .ok root →
      root.library.files.paths ⊆ files.canonical origin :: files.paths ∧
        root.stack.Bounded (files.canonical origin :: files.paths) := by
    intro root hroot
    obtain ⟨hfiles, hfile⟩ := Root.prepare_cases hroot
    refine ⟨hfiles ▸ List.subset_cons_self _ _, Stack.Bounded.singleton ?_⟩
    rw [hfile]
    exact List.mem_cons_self
  cases hexpands with
  | refused => exact fun _ hstack => absurd hstack List.not_mem_nil
  | unevaluated hprepared => exact List.forall_mem_singleton.mpr (hroot _ hprepared).2
  | broken hprepared _ hexpansion =>
      exact hexpansion.bounded (hroot _ hprepared).1 (hroot _ hprepared).2
  | expanded hprepared _ hexpansion =>
      exact hexpansion.bounded (hroot _ hprepared).1 (hroot _ hprepared).2

end Expands

theorem exists_expands [Yaml.Codec] (files : Files) (repository source origin : String)
    (supplied : Arguments) :
    ∃ trail, Expands files repository source origin supplied
      (expand files repository source origin supplied) trail := by
  have hcourse : ∃ outcome trail,
      Expands files repository source origin supplied outcome trail := by
    cases hroot : Root.prepare files repository source origin supplied with
    | error error => exact ⟨_, _, .refused hroot⟩
    | ok root =>
        cases hentries : root.evaluated with
        | error error => exact ⟨_, _, .unevaluated hroot hentries⟩
        | ok entries =>
            obtain ⟨trail, hexpansion⟩ :=
              exists_expansion root.library root.stack root.file (Root.piece entries)
            cases houtcome : (Root.piece entries).outcome root.library root.stack root.file with
            | error error =>
                rw [houtcome] at hexpansion
                exact ⟨_, _, .broken hroot hentries hexpansion⟩
            | ok nodes =>
                obtain ⟨resolved, -, rfl⟩ := resolveLists_of_outcome_ok houtcome.symm
                rw [houtcome] at hexpansion
                exact ⟨_, _, .expanded hroot hentries hexpansion⟩
  obtain ⟨outcome, trail, hexpands⟩ := hcourse
  exact ⟨trail, hexpands.outcome_eq ▸ hexpands⟩

end Documents

/-- The expansion of a document ends, whatever the files, the document and the parameters are.

* It has a course, which is a finite derivation, with what is computed as its outcome: an expanded
  pipeline or an error.  It has no course with another outcome.
* On every stack of a course no instance of a template stands twice and no file more than
  `maxSelfInclusion` times, so the number of files bounds the depth.  The document counts as a file.
* Files can be entered in a row only finitely often, also with a new signature each time. -/
theorem expansion_ends_on_bounded_stacks [Yaml.Codec] (files : Files)
    (repository source origin : String) (supplied : Arguments) :
    (∃ trail, Expands files repository source origin supplied
      (expand files repository source origin supplied) trail) ∧
    (∀ outcome trail, Expands files repository source origin supplied outcome trail →
      outcome = expand files repository source origin supplied ∧
      ∀ stack ∈ trail, stack.Nodup ∧ (∀ path, stack.occurrences path ≤ maxSelfInclusion) ∧
        stack.length ≤ maxSelfInclusion *
          (insert (files.canonical origin) files.paths.toFinset).card) ∧
    WellFounded fun inner outer : Stack =>
      ∃ path ∈ files.paths, ∃ signature, outer.enter ⟨path, signature⟩ = .ok inner := by
  refine ⟨exists_expands files repository source origin supplied, ?_,
    Stack.wellFounded_enter files.paths⟩
  intro outcome trail hexpands
  refine ⟨hexpands.outcome_eq, fun stack hstack => ?_⟩
  have hbounded := hexpands.bounded stack hstack
  have hlength := hbounded.length_le
  rw [List.toFinset_cons] at hlength
  exact ⟨hbounded.distinct, hbounded.occurrences, hlength⟩

/-! ## A parameter that grows

The template includes itself and passes on more each time, so no two of its instances are alike. -/

namespace Growth

def files : Files where
  entries := [(["grow.yml"], .file ("parameters:\n- name: n\n  default: x\nsteps:\n" ++
    "- template: grow.yml\n  parameters:\n    n: $\x7b\x7b parameters.n \x7d\x7dx\n"))]

def source : String := "steps:\n- template: grow.yml\n"

/-- Frames of the template, no two of them alike. -/
def frames (count : Nat) : Stack :=
  (List.range count).map fun length => ⟨"/grow.yml", String.ofList (List.replicate length 'x')⟩

/-- The template has room for sixteen frames and not for another one. -/
example : ((frames 15).enter ⟨"/grow.yml", "new"⟩).toBool = true ∧
    ((frames 16).enter ⟨"/grow.yml", "new"⟩).toBool = false := by
  decide +kernel

end Growth

/-- The expansion ends after all, with no more than thirty-two frames on its stack. -/
theorem expansion_ends_on_bounded_stacks_growth :
    ∃ trail, Expands Growth.files "/" Growth.source "/pipeline.yml" []
      (expand Growth.files "/" Growth.source "/pipeline.yml" []) trail ∧
      ∀ stack ∈ trail, stack.Nodup ∧ stack.length ≤ 32 := by
  obtain ⟨⟨trail, hexpands⟩, hcourses, -⟩ := expansion_ends_on_bounded_stacks Growth.files "/"
    Growth.source "/pipeline.yml" []
  refine ⟨trail, hexpands, fun stack hstack => ?_⟩
  obtain ⟨hdistinct, -, hlength⟩ := (hcourses _ trail hexpands).2 stack hstack
  have hfiles : Growth.files.paths.toFinset.card ≤ 1 :=
    (List.toFinset_card_le Growth.files.paths).trans (by decide)
  have hcard := Finset.card_insert_le (Growth.files.canonical "/pipeline.yml")
    Growth.files.paths.toFinset
  have hlimit : maxSelfInclusion * (insert (Growth.files.canonical "/pipeline.yml")
      Growth.files.paths.toFinset).card ≤ 16 * 2 :=
    Nat.mul_le_mul_left 16 (by omega)
  exact ⟨hdistinct, by omega⟩

end BuildPipeline.Template
