import Mathlib.Data.List.Forall2
import BuildPipeline.Expression.Evaluation
import BuildPipeline.Proofs.Number.RationalValue
import BuildPipeline.Proofs.Text.Casing

/-!
# References as paths

Below every root but `variables`, a reference walks from one value to the next: each part selects a
field or an item, and what is missing is null.

* `Context.Roots` says which value a leading name stands for, and `Accessor.Evaluates` what a part
  comes to once its key is evaluated.
* `Value.walk` goes along such steps.  Which item a number selects is its parameter: a number may
  stand for a position only if it is a whole one (`Binary64.wholePosition?`), or be cut off to one
  (`Binary64.toPosition?`).
* `references_walk_paths`: evaluation cuts off.  The two walks differ where a number that is no
  whole position is cut off to a position inside the list, and only there; a negative number is one
  that selects the first item (`negative_index_selects_first_item`).
-/

namespace BuildPipeline

namespace Binary64

/-- The position that a number is, if it is one. -/
def wholePosition? (x : Binary64) : Option Nat :=
  x.value?.bind fun q => if (⌊q⌋₊ : ℚ) = q then some ⌊q⌋₊ else none

theorem wholePosition?_eq_some_iff {x : Binary64} {position : Nat} :
    x.wholePosition? = some position ↔ x.value? = some (position : ℚ) := by
  rw [wholePosition?, Option.bind_eq_some_iff]
  constructor
  · rintro ⟨q, hvalue, hwhole⟩
    split at hwhole
    case isFalse => cases hwhole
    case isTrue hfloor => rw [hvalue, ← hfloor, Option.some.inj hwhole]
  · exact fun hvalue => ⟨position, hvalue, by simp⟩

theorem toPosition?_of_wholePosition? {x : Binary64} {position : Nat}
    (hwhole : x.wholePosition? = some position) : x.toPosition? = some position := by
  rw [toPosition?_of_value? (wholePosition?_eq_some_iff.mp hwhole), Nat.floor_natCast]

/-- The number is no position, but it is cut off to one in a list of this length. -/
def CutsInto (x : Binary64) (length : Nat) : Prop :=
  x.wholePosition? = none ∧ ∃ position < length, x.toPosition? = some position

end Binary64

namespace Expression

/-! ## Steps -/

/-- A part of a reference whose key is evaluated. -/
inductive Step where
  | property (name : String)
  | element (key : Value)

/-- The field that a step asks an object for. -/
def Step.fieldName : Step → String
  | property name => name
  | element key => key.asText

inductive Accessor.Evaluates (context : Context) : Accessor → Step → Prop
  | property (name : String) : Evaluates context (.property name) (.property name)
  | element {key : Expr} {value : Value} (hkey : evaluate context key = .ok value) :
      Evaluates context (.element key) (.element value)

/-- The value that a leading name stands for.  A loop variable comes first, but one that is named
`variables` is never found. -/
inductive Context.Roots (context : Context) : String → Value → Prop
  | loop {name : String} {value : Value} (hlocal : context.locals.get? name = some value)
      (hname : Text.equalsIgnoringAsciiCase name "variables" = false) : Roots context name value
  | parameters {name : String} (hlocal : context.locals.get? name = none)
      (hname : Text.lower name = "parameters") : Roots context name (.ofTable context.parameters)
  | dependencies {name : String} (hlocal : context.locals.get? name = none)
      (hname : Text.lower name = "dependencies" ∨ Text.lower name = "stagedependencies") :
      Roots context name (.ofTable (context.dependencies.mapValues Dependency.toValue))

theorem not_variables_of_lower {name word : String} (hlower : Text.lower name = word)
    (hword : word ≠ Text.lower "variables") :
    Text.equalsIgnoringAsciiCase name "variables" = false :=
  Bool.eq_false_iff.mpr fun hequal =>
    hword (hlower.symm.trans (Text.lower_eq_of_equalsIgnoringAsciiCase hequal))

variable {context : Context} {root : String} {value : Value}

theorem Context.Roots.not_variables (hroot : context.Roots root value) :
    Text.equalsIgnoringAsciiCase root "variables" = false := by
  cases hroot with
  | loop hlocal hname => exact hname
  | parameters hlocal hname => exact not_variables_of_lower hname (by decide)
  | dependencies hlocal hname =>
      rcases hname with hname | hname
      · exact not_variables_of_lower hname (by decide)
      · exact not_variables_of_lower hname (by decide)

theorem Context.Roots.rootValue_eq (hroot : context.Roots root value) :
    rootValue context root = .ok value := by
  unfold rootValue
  cases hroot with
  | loop hlocal hname => rw [hlocal]
  | parameters hlocal hname =>
      rw [hlocal]
      simp only [hname]
  | dependencies hlocal hname =>
      rw [hlocal]
      rcases hname with hname | hname <;> simp only [hname]

/-- A reference goes along its path from the value of its leading name. -/
theorem evaluate_reference (hroot : context.Roots root value) (path : List Accessor) :
    evaluate context (.reference root path) = evaluatePath context value path := by
  rw [evaluate, hroot.not_variables, hroot.rootValue_eq]
  rfl

/-! ## Walks -/

namespace Value

variable {position? : Binary64 → Option Nat}

/-- What a value has at a step, where numbers stand for positions in this way. -/
def select (position? : Binary64 → Option Nat) : Value → Step → Except EvalError Value
  | .object fields, step => .ok ((Table.get? step.fieldName fields).getD .null)
  | .array items, .element (.number x) => .ok (((position? x).bind (items[·]?)).getD .null)
  | .null, _ => .ok .null
  | _, .property _ => .ok .null
  | value, .element key => .error (.cannotIndex value.asText key.asText)

def walk (position? : Binary64 → Option Nat) (value : Value) (steps : List Step) :
    Except EvalError Value :=
  steps.foldlM (select position?) value

theorem walk_cons (step : Step) (steps : List Step) :
    value.walk position? (step :: steps) =
      value.select position? step >>= fun next => next.walk position? steps :=
  List.foldlM_cons

/-- A walk along the steps, with numbers cut off, enters this list with this number. -/
inductive Enters : Value → List Step → List Value → Binary64 → Prop
  | here {items : List Value} {x : Binary64} {steps : List Step} :
      Enters (.array items) (.element (.number x) :: steps) items x
  | later {value next : Value} {step : Step} {steps : List Step} {items : List Value}
      {x : Binary64} (hnext : value.select Binary64.toPosition? step = .ok next)
      (hlater : next.Enters steps items x) : Enters value (step :: steps) items x

theorem select_property (name : String) :
    value.select position? (.property name) = .ok (memberValue value name) := by
  cases value <;> rfl

theorem select_element (key : Value) :
    value.select Binary64.toPosition? (.element key) = indexValue value key := by
  cases value <;> cases key <;> rfl

/-- Both positions of a number find the same, unless it is cut off into the list. -/
theorem getElem?_position (items : List Value) {x : Binary64} (hcut : ¬ x.CutsInto items.length) :
    x.toPosition?.bind (items[·]?) = x.wholePosition?.bind (items[·]?) := by
  cases hwhole : x.wholePosition? with
  | some position => rw [Binary64.toPosition?_of_wholePosition? hwhole]
  | none =>
      rw [Option.bind_none, Option.bind_eq_none_iff]
      intro position hposition
      refine List.getElem?_eq_none (Nat.le_of_not_lt fun hinside => ?_)
      exact hcut ⟨hwhole, position, hinside, hposition⟩

theorem select_congr {step : Step} {steps : List Step}
    (hcut : ∀ items x, value.Enters (step :: steps) items x → ¬ x.CutsInto items.length) :
    value.select Binary64.toPosition? step = value.select Binary64.wholePosition? step := by
  cases value with
  | array items =>
      cases step with
      | property name => rfl
      | element key =>
          cases key with
          | number x => rw [select, select, getElem?_position items (hcut items x .here)]
          | _ => rfl
  | _ => cases step <;> rfl

theorem walk_congr {steps : List Step}
    (hcut : ∀ items x, value.Enters steps items x → ¬ x.CutsInto items.length) :
    value.walk Binary64.toPosition? steps = value.walk Binary64.wholePosition? steps := by
  induction steps generalizing value with
  | nil => rfl
  | cons step steps ih =>
      rw [walk_cons, walk_cons, ← select_congr hcut]
      cases hnext : value.select Binary64.toPosition? step with
      | error error => rfl
      | ok next => exact ih fun items x hlater => hcut items x (.later hnext hlater)

end Value

/-- Evaluating the keys one by one on the way comes to the same as evaluating them before. -/
theorem evaluatePath_eq_walk {path : List Accessor} {steps : List Step}
    (hsteps : List.Forall₂ (Accessor.Evaluates context) path steps) :
    evaluatePath context value path = value.walk Binary64.toPosition? steps := by
  induction hsteps generalizing value with
  | nil => rfl
  | cons hstep hsteps ih =>
      rw [Value.walk_cons]
      cases hstep with
      | property name =>
          rw [evaluatePath, Value.select_property, ih]
          rfl
      | element hkey =>
          rw [evaluatePath, hkey, Value.select_element]
          exact bind_congr fun next => ih

/-- A reference below a loop variable, the parameters or the dependencies walks along its path, with
numbers cut off to positions: a number of value `q` stands for the position `⌊q⌋₊`.  So the walk is
the one in which only whole numbers from zero on stand for positions, unless another number is cut
off to a position inside the list that it enters. -/
theorem references_walk_paths {path : List Accessor} {steps : List Step}
    (hroot : context.Roots root value)
    (hsteps : List.Forall₂ (Accessor.Evaluates context) path steps) :
    evaluate context (.reference root path) = value.walk Binary64.toPosition? steps ∧
    (∀ (x : Binary64) (q : ℚ), x.value? = some q → x.toPosition? = some ⌊q⌋₊) ∧
    ((∀ items x, value.Enters steps items x → ¬ x.CutsInto items.length) →
      evaluate context (.reference root path) = value.walk Binary64.wholePosition? steps) := by
  have hwalk : evaluate context (.reference root path) =
      value.walk Binary64.toPosition? steps := by
    rw [evaluate_reference hroot, evaluatePath_eq_walk hsteps]
  refine ⟨hwalk, fun x q => Binary64.toPosition?_of_value?, fun hcut => ?_⟩
  rw [hwalk, Value.walk_congr hcut]

/-! ## A list of agents -/

def agents : List Value :=
  [.string "linux", .object [("os", .string "windows")]]

/-- The agents as a parameter. -/
def agentContext : Context :=
  { parameters := [("agents", .array agents)] }

theorem roots_agentContext : agentContext.Roots "parameters" (.ofTable agentContext.parameters) :=
  .parameters rfl (by decide)

theorem walk_agents (position? : Binary64 → Option Nat) (x : Binary64) (steps : List Step) :
    (Value.ofTable agentContext.parameters).walk position?
        (.property "agents" :: .element (.number x) :: steps) =
      (((position? x).bind (agents[·]?)).getD .null).walk position? steps :=
  rfl

theorem wholePosition?_one : Binary64.one.wholePosition? = some 1 := by
  have hsmall : Binary64.one.smallInteger? = some 1 := by decide
  rw [Binary64.wholePosition?_eq_some_iff, Binary64.value?_of_smallInteger? hsmall]
  simp

theorem value?_minusOne : (Binary64.ofInt (-1)).value? = some (-1) := by
  have hsmall : (Binary64.ofInt (-1)).smallInteger? = some (-1) := by decide
  rw [Binary64.value?_of_smallInteger? hsmall]
  simp

/-- The second agent is there, and so is its field. -/
theorem references_walk_paths_agent :
    agentContext.Roots "parameters" (.ofTable agentContext.parameters) ∧
    List.Forall₂ (Accessor.Evaluates agentContext)
      [.property "agents", .element (.number .one), .property "os"]
      [.property "agents", .element (.number .one), .property "os"] ∧
    (∀ items x, (Value.ofTable agentContext.parameters).Enters
      [.property "agents", .element (.number .one), .property "os"] items x →
        ¬ x.CutsInto items.length) ∧
    (Binary64.ofInt (-1)).value? = some (-1) ∧
    (Binary64.ofInt (-1)).toPosition? = some ⌊(-1 : ℚ)⌋₊ ∧
    evaluate agentContext
        (.reference "parameters" [.property "agents", .element (.number .one), .property "os"]) =
      .ok (.string "windows") := by
  have hsteps : List.Forall₂ (Accessor.Evaluates agentContext)
      [.property "agents", .element (.number .one), .property "os"]
      [.property "agents", .element (.number .one), .property "os"] :=
    .cons (.property "agents") (.cons (.element rfl) (.cons (.property "os") .nil))
  have hcut : ∀ items x, (Value.ofTable agentContext.parameters).Enters
      [.property "agents", .element (.number .one), .property "os"] items x →
        ¬ x.CutsInto items.length := by
    intro items x henters
    -- The only list on the way is entered with the number one.
    cases henters with
    | later hagents henters =>
        cases hagents
        cases henters with
        | here => exact fun hnone => by cases wholePosition?_one.symm.trans hnone.1
        | later hagent henters =>
            cases henters with
            | later hos henters => cases henters
  obtain ⟨-, hposition, hwhole⟩ := references_walk_paths roots_agentContext hsteps
  refine ⟨roots_agentContext, hsteps, hcut, value?_minusOne, hposition _ _ value?_minusOne, ?_⟩
  rw [hwhole hcut, walk_agents, wholePosition?_one]
  rfl

/-- The position before the first agent is none, and the first agent is found there. -/
theorem negative_index_selects_first_item :
    (Binary64.ofInt (-1)).value? = some (-1) ∧
    (Value.ofTable agentContext.parameters).walk Binary64.wholePosition?
        [.property "agents", .element (.number (.ofInt (-1)))] = .ok .null ∧
    evaluate agentContext
        (.reference "parameters" [.property "agents", .element (.number (.ofInt (-1)))]) =
      .ok (.string "linux") := by
  have hnone : (Binary64.ofInt (-1)).wholePosition? = none := by
    rw [Binary64.wholePosition?, value?_minusOne]
    norm_num
  have hfirst : (Binary64.ofInt (-1)).toPosition? = some 0 := by decide
  have hsteps : List.Forall₂ (Accessor.Evaluates agentContext)
      [.property "agents", .element (.number (.ofInt (-1)))]
      [.property "agents", .element (.number (.ofInt (-1)))] :=
    .cons (.property "agents") (.cons (.element rfl) .nil)
  refine ⟨value?_minusOne, ?_, ?_⟩
  · rw [walk_agents, hnone]
    rfl
  · rw [evaluate_reference roots_agentContext, evaluatePath_eq_walk hsteps, walk_agents, hfirst]
    rfl

end Expression

end BuildPipeline
