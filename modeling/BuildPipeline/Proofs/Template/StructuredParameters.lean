import BuildPipeline.Proofs.Expression.Documents
import BuildPipeline.Proofs.Expression.PropertyReference
import BuildPipeline.Proofs.Template.Interpolation

/-!
# Parameters of structured types

A parameter of a structured type takes any value of its kind as it is, and a template puts the value
where an expansion span of it stands.  On the way the value becomes the value of an expression and a
value of a document again.

* `bindAll_split` finds the value that the last declaration of a name is bound to, and
  `coerce?_of_isStructured` says that binding changes nothing but a null for a list.
* `evaluateText_parameter` and `evaluateItem_parameter` compute what the span becomes.
* `structured_parameter_is_verbatim_iff` puts them together: the span becomes the value that was
  passed exactly when this is plain, in the sense of `Yaml.Value.IsPlain`.
* `number_in_structured_parameter_changes` is a value that is not: a version `1.0` becomes `1`.
-/

namespace BuildPipeline

theorem Table.get?_mapValues {α β : Type} (f : α → β) (key : String) (table : Table α) :
    (table.mapValues f).get? key = (table.get? key).map f := by
  induction table with
  | nil => rfl
  | cons entry rest ih =>
      obtain ⟨k, value⟩ := entry
      rw [mapValues] at ih ⊢
      by_cases hkey : k = key
      · simp [get?, hkey]
      · simp [get?, hkey, ih]

namespace Template

open Expression

/-! ## Binding -/

section Binding

variable {supplied bound arguments : Arguments} {parameter : Parameter}
  {declared before after : List Parameter} {type : ParameterType} {y value : Yaml.Value}

/-- A value of a structured type is taken as it is, except that null is an empty list. -/
theorem coerce?_of_isStructured (hstructured : type.isStructured = true)
    (hcoerce : coerce? type y = some value) :
    (value = y ∧ (y = .null → type.isList = false)) ∨
      (value = .sequence [] ∧ y = .null ∧ type.isList = true) := by
  cases type <;> cases y <;>
    grind [coerce?, ParameterType.isStructured, ParameterType.isList]

theorem bindOne_eq_ok (hbind : bindOne supplied parameter = .ok value) :
    ∃ y, (supplied.get? parameter.name).or parameter.default = some y ∧
      coerce? parameter.type y = some value := by
  unfold bindOne at hbind
  split at hbind
  case h_1 => cases hbind
  case h_2 y hsource =>
      refine ⟨y, hsource, ?_⟩
      split at hbind
      case h_1 => cases hbind
      case h_2 coerced hcoerce =>
          rw [hcoerce]
          split at hbind
          case h_1 => exact congrArg some (Except.ok.inj hbind)
          case h_2 =>
              split at hbind
              case isTrue => exact congrArg some (Except.ok.inj hbind)
              case isFalse => cases hbind

theorem bindAll_cons_eq_ok
    (hbind : bindAll supplied bound (parameter :: declared) = .ok arguments) :
    ∃ value, bindOne supplied parameter = .ok value ∧
      bindAll supplied (bound.insert parameter.name value) declared = .ok arguments := by
  rw [bindAll] at hbind
  cases hvalue : bindOne supplied parameter with
  | error problem => rw [hvalue] at hbind; cases hbind
  | ok value => rw [hvalue] at hbind; exact ⟨value, rfl, hbind⟩

/-- Declarations of other names leave an argument alone. -/
theorem get?_bindAll_of_forall_ne {name : String}
    (hbind : bindAll supplied bound declared = .ok arguments)
    (hother : ∀ other ∈ declared, other.name ≠ name) : arguments.get? name = bound.get? name := by
  induction declared generalizing bound with
  | nil => rw [← Except.ok.inj hbind]
  | cons other declared ih =>
      obtain ⟨value, -, hrest⟩ := bindAll_cons_eq_ok hbind
      obtain ⟨hne, hlater⟩ := List.forall_mem_cons.mp hother
      rw [ih hrest hlater, Table.get?_insert, if_neg hne]

/-- The last declaration of a name decides. -/
theorem bindAll_split
    (hbind : bindAll supplied bound (before ++ parameter :: after) = .ok arguments)
    (hlast : ∀ other ∈ after, other.name ≠ parameter.name) :
    ∃ value, bindOne supplied parameter = .ok value ∧
      arguments.get? parameter.name = some value := by
  induction before generalizing bound with
  | nil =>
      obtain ⟨value, hvalue, hrest⟩ := bindAll_cons_eq_ok hbind
      refine ⟨value, hvalue, ?_⟩
      rw [get?_bindAll_of_forall_ne hrest hlast, Table.get?_insert, if_pos rfl]
  | cons first before ih =>
      obtain ⟨_, -, hrest⟩ := bindAll_cons_eq_ok hbind
      exact ih hrest

theorem bindParameters_eq_ok {path : String}
    (hbind : bindParameters declared supplied path = .ok arguments) :
    bindAll supplied [] declared = .ok arguments := by
  have hresult := mapError_eq_ok_iff.mp hbind
  split at hresult
  case h_1 => cases hresult
  case h_2 => exact hresult

end Binding

/-! ## The span of a parameter -/

section Span

variable {library : Library} {arguments : Arguments} {name : String} {value : Yaml.Value}

/-- The expansion span of a parameter. -/
def parameterSpan (name : String) : String :=
  writeExpansion (parameterReference name)

theorem evaluateText_parameter (library : Library) (file : String) (hname : IsPropertyName name)
    (hvalue : arguments.get? name = some value) :
    (library.scope arguments file).evaluateText (parameterSpan name) =
      .ok (Value.ofYaml value).toYaml := by
  have heval : (library.scope arguments file).eval (parameterReference name) =
      .ok (Value.ofYaml value) := by
    have hfound : (library.scope arguments file).context.parameters.get? name =
        some (Value.ofYaml value) := by
      change (arguments.mapValues Value.ofYaml).get? name = _
      rw [Table.get?_mapValues, hvalue]
      rfl
    rw [Scope.eval, evaluateText_parameterReference hname rfl, hfound]
    rfl
  rw [parameterSpan, Scope.evaluateText_of_sole (soleExpansion?_parameterReference hname), heval]
  rfl

/-- As an item, a list is replaced by its items. -/
theorem evaluateItem_parameter (library : Library) (file : String) {items : List Yaml.Value}
    (hname : IsPropertyName name) (hvalue : arguments.get? name = some (.sequence items)) :
    evaluateItem (library.scope arguments file) (.string (parameterSpan name)) =
      .ok (Value.itemsToYaml (Value.itemsOfYaml items)) := by
  rw [evaluateItem, evaluateText_parameter library file hname hvalue, parameterSpan,
    soleExpansion?_parameterReference hname]
  simp only [Value.ofYaml, Value.toYaml, Option.isSome_some]
  rfl

end Span

/-! ## What comes through -/

/-- A structured parameter with a word as its name is bound to the value that is passed for it or
else to its default.  Its expansion span always has a value, and this is the value that was passed
exactly when that one is plain and no null that stands for an empty list; as an item of a sequence
the span of a list contributes the items of the list exactly when they are plain. -/
theorem structured_parameter_is_verbatim_iff (library : Library) (file : String)
    {before after : List Parameter} {parameter : Parameter} {supplied arguments : Arguments}
    {path : String}
    (hbind : bindParameters (before ++ parameter :: after) supplied path = .ok arguments)
    (hlast : ∀ other ∈ after, other.name ≠ parameter.name)
    (hstructured : parameter.type.isStructured = true)
    (hname : IsPropertyName parameter.name) :
    ∃ y value, (supplied.get? parameter.name).or parameter.default = some y ∧
      (library.scope arguments file).evaluateText (parameterSpan parameter.name) = .ok value ∧
      (value = y ↔ y.IsPlain ∧ (y = .null → parameter.type.isList = false)) ∧
      ∀ items, y = .sequence items →
        (evaluateItem (library.scope arguments file) (.string (parameterSpan parameter.name)) =
            .ok items ↔
          Yaml.Value.ItemsArePlain items) := by
  obtain ⟨bound, hbound, hfound⟩ := bindAll_split (bindParameters_eq_ok hbind) hlast
  obtain ⟨y, hsource, hcoerce⟩ := bindOne_eq_ok hbound
  refine ⟨y, (Value.ofYaml bound).toYaml, hsource, evaluateText_parameter library file hname hfound,
    ?_, ?_⟩
  · -- Either the value was taken as it is, or a null became an empty list.
    rcases coerce?_of_isStructured hstructured hcoerce with
      ⟨rfl, hnull⟩ | ⟨rfl, rfl, hlist⟩
    · rw [Value.toYaml_ofYaml_eq_iff]
      exact ⟨fun hplain => ⟨hplain, hnull⟩, fun hboth => hboth.1⟩
    · simp [Value.ofYaml, Value.toYaml, hlist]
  · rintro items rfl
    rcases coerce?_of_isStructured hstructured hcoerce with ⟨rfl, -⟩ | ⟨-, hnull, -⟩
    · rw [evaluateItem_parameter library file hname hfound, Except.ok.injEq,
        Value.itemsToYaml_itemsOfYaml_eq_iff]
    · cases hnull

namespace Release

def library : Library where
  files := { entries := [] }
  repository := "/"

/-- A list of one step. -/
def steps : List Yaml.Value := [.mapping [(.string "script", .string "make")]]

def stepsParameter : Parameter where
  name := "steps"
  type := .stepList
  default := some (.sequence steps)

/-- A list of one job, which sets a variable to the version `1.0`. -/
def jobs (version : Yaml.Value) : Yaml.Value :=
  .sequence [.mapping [(.string "job", .string "release"), (.string "steps", .sequence steps),
    (.string "variables", .mapping [(.string "version", version)])]]

def jobsParameter : Parameter where
  name := "jobs"
  type := .jobList
  default := some (jobs (.float .one))

theorem isPropertyName_steps : IsPropertyName "steps" where
  starts := ⟨'s', "teps".toList, by decide, by decide, List.all_eq_true.mp (by decide)⟩
  notLiteral := by decide

theorem isPropertyName_jobs : IsPropertyName "jobs" where
  starts := ⟨'j', "obs".toList, by decide, by decide, List.all_eq_true.mp (by decide)⟩
  notLiteral := by decide

theorem itemsArePlain_steps : Yaml.Value.ItemsArePlain steps := by
  have hkeys : Yaml.Value.HasAscendingTexts [(.string "script", .string "make")] :=
    ⟨["script"], rfl, List.pairwise_singleton _ _⟩
  exact ⟨⟨hkeys, trivial, trivial⟩, trivial⟩

end Release

/-- Steps made of texts are plain, so that they are spliced in as they were passed. -/
theorem structured_parameter_is_verbatim_iff_steps :
    bindParameters [Release.stepsParameter] [] "/pipeline.yml" =
        .ok [("steps", .sequence Release.steps)] ∧
      Release.stepsParameter.type.isStructured = true ∧ IsPropertyName "steps" ∧
      evaluateItem (Release.library.scope [("steps", .sequence Release.steps)] "/pipeline.yml")
          (.string (parameterSpan "steps")) = .ok Release.steps := by
  have hbind : bindParameters ([] ++ Release.stepsParameter :: []) [] "/pipeline.yml" =
      .ok [("steps", .sequence Release.steps)] := rfl
  obtain ⟨y, value, hsource, -, -, hitems⟩ :=
    structured_parameter_is_verbatim_iff Release.library "/pipeline.yml" hbind (by simp) rfl
      Release.isPropertyName_steps
  have hy : y = .sequence Release.steps := (Option.some.inj hsource).symm
  exact ⟨hbind, rfl, Release.isPropertyName_steps,
    (hitems Release.steps hy).mpr Release.itemsArePlain_steps⟩

/-- A version `1.0` in a list of jobs becomes `1` where the list is put in. -/
theorem number_in_structured_parameter_changes :
    bindParameters [Release.jobsParameter] [] "/pipeline.yml" =
        .ok [("jobs", Release.jobs (.float .one))] ∧
      (Release.library.scope [("jobs", Release.jobs (.float .one))] "/pipeline.yml").evaluateText
          (parameterSpan "jobs") = .ok (Release.jobs (.int 1)) ∧
      Release.jobs (.int 1) ≠ Release.jobs (.float .one) := by
  have hchanged : (Value.ofYaml (Release.jobs (.float .one))).toYaml = Release.jobs (.int 1) := by
    decide +kernel
  refine ⟨rfl, ?_, by decide +kernel⟩
  rw [evaluateText_parameter Release.library _ Release.isPropertyName_jobs rfl, hchanged]

end Template

end BuildPipeline
