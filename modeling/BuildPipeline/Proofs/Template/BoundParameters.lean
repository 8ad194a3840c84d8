import BuildPipeline.Proofs.Template.StructuredParameters

/-!
# When parameters are bound

Binding succeeds exactly where every name that is supplied is declared and every declaration gets a
value that it admits.

* `Coerces` gives the rules by which a value is taken for a declared type, and `HasType` says which
  values are of the type.  What is taken for a type is of that type, and stays as it is when it is
  taken again (`Coerces.hasType`, `Coerces.again`).
* `Binds` is what one declaration asks for.
* `bindAll_eq_ok_iff` says it of all declarations, one after the other, for names that are told
  apart; `perm_keys_bindAll` says which names are bound.
* `parameters_bind_iff` is the result.  The values that come out can be supplied again, as a
  template does that hands its own parameters on.
-/

namespace BuildPipeline.Template

/-! ## Types -/

/-- How a value is taken for a declared type. -/
inductive Coerces : ParameterType → Yaml.Value → Yaml.Value → Prop
  /-- Every scalar has a text. -/
  | text {value : Yaml.Value} {text : String} (hscalar : value.scalarText? = some text) :
      Coerces .string value (.string text)
  | int (i : Int) : Coerces .number (.int i) (.int i)
  | float (x : Binary64) : Coerces .number (.float x) (.float x)
  | numeral {text : String} {x : Binary64} (hread : Binary64.read? (Text.trim text) = some x) :
      Coerces .number (.string text) (.float x)
  | bool (b : Bool) : Coerces .boolean (.bool b) (.bool b)
  | word {text : String} {b : Bool}
      (hword : Text.equalsIgnoringAsciiCase text (if b then "true" else "false") = true) :
      Coerces .boolean (.string text) (.bool b)
  | sequence {type : ParameterType} (items : List Yaml.Value) (hlist : type.isList = true) :
      Coerces type (.sequence items) (.sequence items)
  /-- Null is an empty list. -/
  | nothing {type : ParameterType} (hlist : type.isList = true) : Coerces type .null (.sequence [])
  | anything (value : Yaml.Value) : Coerces .object value value
  | mapping {type : ParameterType} (entries : Yaml.Entries)
      (hnode : type ∈ [ParameterType.step, .job, .stage]) :
      Coerces type (.mapping entries) (.mapping entries)

/-- The values of a type. -/
def HasType : ParameterType → Yaml.Value → Prop
  | .object, _ => True
  | .string, .string _ => True
  | .number, .int _ => True
  | .number, .float _ => True
  | .boolean, .bool _ => True
  | .list, .sequence _ => True
  | .stepList, .sequence _ => True
  | .jobList, .sequence _ => True
  | .stageList, .sequence _ => True
  | .step, .mapping _ => True
  | .job, .mapping _ => True
  | .stage, .mapping _ => True
  | _, _ => False

theorem boolText?_eq_some_iff {text : String} {b : Bool} :
    boolText? text = some b ↔
      Text.equalsIgnoringAsciiCase text (if b then "true" else "false") = true := by
  -- No text is both words.
  have hother : Text.equalsIgnoringAsciiCase text "true" = true →
      Text.equalsIgnoringAsciiCase text "false" = false := by
    intro htrue
    rw [Text.equalsIgnoringAsciiCase, beq_iff_eq] at htrue
    rw [Text.equalsIgnoringAsciiCase, htrue]
    decide
  unfold boolText?
  cases b <;> grind

section Coerces

variable {type : ParameterType} {raw value : Yaml.Value}

theorem coerce?_eq_some_iff : coerce? type raw = some value ↔ Coerces type raw value := by
  constructor
  · intro hcoerce
    unfold coerce? at hcoerce
    split at hcoerce
    case h_1 =>
        obtain ⟨text, hscalar, rfl⟩ := Option.map_eq_some_iff.mp hcoerce
        exact .text hscalar
    case h_2 i => cases hcoerce; exact .int i
    case h_3 x => cases hcoerce; exact .float x
    case h_4 =>
        obtain ⟨x, hread, rfl⟩ := Option.map_eq_some_iff.mp hcoerce
        exact .numeral hread
    case h_5 b => cases hcoerce; exact .bool b
    case h_6 =>
        obtain ⟨b, hword, rfl⟩ := Option.map_eq_some_iff.mp hcoerce
        exact .word (boolText?_eq_some_iff.mp hword)
    case h_7 => cases hcoerce; exact .anything _
    case h_8 | h_9 | h_10 => cases hcoerce; exact .mapping _ (by simp)
    case h_11 =>
        split at hcoerce
        case isTrue hlist => cases hcoerce; exact .sequence _ hlist
        case isFalse => cases hcoerce
    case h_12 =>
        split at hcoerce
        case isTrue hlist => cases hcoerce; exact .nothing hlist
        case isFalse => cases hcoerce
    case h_13 => cases hcoerce
  · intro hcoerces
    cases hcoerces with
    | text hscalar => rw [coerce?, hscalar]; rfl
    | int i => rfl
    | float x => rfl
    | numeral hread => rw [coerce?, hread]; rfl
    | bool b => rfl
    | word hword => rw [coerce?, boolText?_eq_some_iff.mpr hword]; rfl
    | sequence items hlist => cases type <;> first | rfl | cases hlist
    | nothing hlist => cases type <;> first | rfl | cases hlist
    | anything => rfl
    | mapping entries hnode =>
        simp only [List.mem_cons, List.not_mem_nil, or_false] at hnode
        rcases hnode with rfl | rfl | rfl <;> rfl

theorem Coerces.hasType (hcoerces : Coerces type raw value) : HasType type value := by
  cases hcoerces with
  | sequence items hlist => cases type <;> trivial
  | nothing hlist => cases type <;> trivial
  | mapping entries hnode =>
      simp only [List.mem_cons, List.not_mem_nil, or_false] at hnode
      rcases hnode with rfl | rfl | rfl <;> trivial
  | _ => trivial

/-- What was taken for a type is taken for it as it is. -/
theorem Coerces.again (hcoerces : Coerces type raw value) : Coerces type value value := by
  cases hcoerces with
  | text => exact .text rfl
  | int i => exact .int i
  | float x => exact .float x
  | numeral => exact .float _
  | bool b => exact .bool b
  | word => exact .bool _
  | sequence items hlist => exact .sequence items hlist
  | nothing hlist => exact .sequence [] hlist
  | anything => exact .anything _
  | mapping entries hnode => exact .mapping entries hnode

end Coerces

/-! ## One declaration -/

/-- A choice among the allowed values: the value itself, or a scalar with the same text. -/
def IsChoice (value choice : Yaml.Value) : Prop :=
  choice.same value = true ∨
    ∃ text, value.scalarText? = some text ∧ choice.scalarText? = some text

/-- The declaration gets this value: what is supplied for it or else its default, taken for its
type, and one of the allowed values if there are such. -/
structure Binds (supplied : Arguments) (parameter : Parameter) (value : Yaml.Value) : Prop where
  source : ∃ raw, (supplied.get? parameter.name).or parameter.default = some raw ∧
    Coerces parameter.type raw value
  allowed : ∀ allowed, parameter.values = some allowed → ∃ choice ∈ allowed, IsChoice value choice

theorem isAllowed_iff {allowed : List Yaml.Value} {value : Yaml.Value} :
    isAllowed allowed value = true ↔ ∃ choice ∈ allowed, IsChoice value choice := by
  rw [isAllowed, List.any_eq_true]
  refine exists_congr fun choice => and_congr_right fun _ => ?_
  cases htext : value.scalarText? with
  | none => simp [IsChoice, htext]
  | some text => simp [IsChoice, htext]

section Declarations

variable {supplied bound arguments : Arguments} {parameter : Parameter}
  {declared : List Parameter} {value : Yaml.Value} {path : String}

theorem bindOne_eq_ok_iff : bindOne supplied parameter = .ok value ↔
    Binds supplied parameter value := by
  constructor
  · intro hbind
    obtain ⟨raw, hsource, hcoerce⟩ := bindOne_eq_ok hbind
    refine ⟨⟨raw, hsource, coerce?_eq_some_iff.mp hcoerce⟩, fun allowed hvalues => ?_⟩
    simp only [bindOne, hsource, hcoerce, hvalues] at hbind
    split at hbind
    case isTrue hallowed => exact isAllowed_iff.mp hallowed
    case isFalse => cases hbind
  · rintro ⟨⟨raw, hsource, hcoerces⟩, hallowed⟩
    simp only [bindOne, hsource, coerce?_eq_some_iff.mpr hcoerces]
    cases hvalues : parameter.values with
    | none => rfl
    | some allowed => simp only [if_pos (isAllowed_iff.mpr (hallowed allowed hvalues))]

/-- A value that was bound can be supplied. -/
theorem Binds.again (hbinds : Binds supplied parameter value)
    (hvalue : arguments.get? parameter.name = some value) : Binds arguments parameter value where
  source := by
    obtain ⟨raw, -, hcoerces⟩ := hbinds.source
    exact ⟨value, by rw [hvalue, Option.some_or], hcoerces.again⟩
  allowed := hbinds.allowed

/-! ## All declarations -/

theorem bindAll_cons_of_ok (hvalue : bindOne supplied parameter = .ok value) :
    bindAll supplied bound (parameter :: declared) =
      bindAll supplied (bound.insert parameter.name value) declared := by
  rw [bindAll, hvalue]
  rfl

/-- Every declaration is bound, or the first that is not ends the binding. -/
theorem exists_bindAll_iff :
    (∃ arguments, bindAll supplied bound declared = .ok arguments) ↔
      ∀ parameter ∈ declared, ∃ value, Binds supplied parameter value := by
  induction declared generalizing bound with
  | nil => simp [bindAll]
  | cons parameter declared ih =>
      rw [List.forall_mem_cons]
      constructor
      · rintro ⟨arguments, hbind⟩
        obtain ⟨value, hvalue, hrest⟩ := bindAll_cons_eq_ok hbind
        exact ⟨⟨value, bindOne_eq_ok_iff.mp hvalue⟩, ih.mp ⟨arguments, hrest⟩⟩
      · rintro ⟨⟨value, hbinds⟩, hrest⟩
        rw [bindAll_cons_of_ok (bindOne_eq_ok_iff.mpr hbinds)]
        exact ih.mpr hrest

theorem perm_keys_insert {key : String} {value : Yaml.Value} {table : Arguments}
    (hnew : key ∉ Table.keys table) :
    (Table.keys (table.insert key value)).Perm (key :: Table.keys table) := by
  induction table with
  | nil => exact .refl _
  | cons entry rest ih =>
      obtain ⟨k, v⟩ := entry
      obtain ⟨hhead, hrest⟩ := List.ne_and_not_mem_of_not_mem_cons hnew
      rw [Table.insert, if_neg hhead]
      split
      case isTrue => exact .refl _
      case isFalse => exact (ih hrest).cons k |>.trans (.swap key k _)

/-- The names that are bound are those declared, each once. -/
theorem perm_keys_bindAll (hdistinct : (declared.map Parameter.name).Nodup)
    (hnew : ∀ parameter ∈ declared, parameter.name ∉ Table.keys bound)
    (hbind : bindAll supplied bound declared = .ok arguments) :
    (Table.keys arguments).Perm (declared.map Parameter.name ++ Table.keys bound) := by
  induction declared generalizing bound with
  | nil => rw [← Except.ok.inj hbind]; exact .refl _
  | cons parameter declared ih =>
      obtain ⟨value, -, hrest⟩ := bindAll_cons_eq_ok hbind
      obtain ⟨hfirst, hlater⟩ := List.forall_mem_cons.mp hnew
      rw [List.map_cons, List.nodup_cons] at hdistinct
      have hkeys : (Table.keys (bound.insert parameter.name value)).Perm
          (parameter.name :: Table.keys bound) := perm_keys_insert hfirst
      refine (ih hdistinct.2 (fun other hother hmem => ?_) hrest).trans ?_
      · -- A later name is neither this one nor one bound before.
        rcases List.mem_cons.mp (hkeys.subset hmem) with hsame | hbefore
        · exact hdistinct.1 (hsame ▸ List.mem_map_of_mem hother)
        · exact hlater other hother hbefore
      · exact (hkeys.append_left _).trans List.perm_middle

/-- Each declaration gets its value. -/
theorem binds_of_bindAll (hdistinct : (declared.map Parameter.name).Nodup)
    (hbind : bindAll supplied bound declared = .ok arguments) (hmem : parameter ∈ declared) :
    ∃ value, arguments.get? parameter.name = some value ∧ Binds supplied parameter value := by
  obtain ⟨before, after, rfl⟩ := List.append_of_mem hmem
  rw [List.map_append, List.map_cons] at hdistinct
  have hlast : ∀ other ∈ after, other.name ≠ parameter.name := by
    intro other hother hsame
    have htail := (List.nodup_append.mp hdistinct).2.1
    exact (List.nodup_cons.mp htail).1 (hsame ▸ List.mem_map_of_mem hother)
  obtain ⟨value, hvalue, hfound⟩ := bindAll_split hbind hlast
  exact ⟨value, hfound, bindOne_eq_ok_iff.mp hvalue⟩

theorem bindAll_congr {others : Arguments}
    (hsame : ∀ parameter ∈ declared, bindOne others parameter = bindOne supplied parameter) :
    bindAll others bound declared = bindAll supplied bound declared := by
  induction declared generalizing bound with
  | nil => rfl
  | cons parameter declared ih =>
      obtain ⟨hfirst, hrest⟩ := List.forall_mem_cons.mp hsame
      rw [bindAll, bindAll, hfirst]
      cases bindOne supplied parameter with
      | error problem => rfl
      | ok value => exact ih hrest

/-- What is bound binds the same again. -/
theorem bindAll_again (hdistinct : (declared.map Parameter.name).Nodup)
    (hbind : bindAll supplied bound declared = .ok arguments) :
    bindAll arguments bound declared = .ok arguments := by
  rw [← hbind]
  refine bindAll_congr fun parameter hmem => ?_
  obtain ⟨value, hvalue, hbinds⟩ := binds_of_bindAll hdistinct hbind hmem
  rw [bindOne_eq_ok_iff.mpr hbinds, bindOne_eq_ok_iff.mpr (hbinds.again hvalue)]

theorem unknownName?_eq_none_iff :
    unknownName? declared supplied = none ↔
      ∀ name ∈ Table.keys supplied, ∃ parameter ∈ declared, parameter.name = name := by
  simp [unknownName?]

theorem bindParameters_eq_ok_iff :
    bindParameters declared supplied path = .ok arguments ↔
      unknownName? declared supplied = none ∧ bindAll supplied [] declared = .ok arguments := by
  rw [bindParameters, mapError_eq_ok_iff]
  cases unknownName? declared supplied <;> simp

/-- Declarations of different names are bound exactly if every name that is supplied is declared and
every declaration gets a value: what is supplied or else its default, taken for its type, and among
the allowed values.  Then each declared name is bound once, to such a value, which is of the
declared type; and supplying the values that were bound binds the same values again. -/
theorem parameters_bind_iff (hdistinct : (declared.map Parameter.name).Nodup)
    (supplied : Arguments) (path : String) :
    ((∃ arguments, bindParameters declared supplied path = .ok arguments) ↔
      (∀ name ∈ Table.keys supplied, ∃ parameter ∈ declared, parameter.name = name) ∧
        ∀ parameter ∈ declared, ∃ value, Binds supplied parameter value) ∧
    ∀ arguments, bindParameters declared supplied path = .ok arguments →
      (Table.keys arguments).Perm (declared.map Parameter.name) ∧
      (∀ parameter ∈ declared, ∃ value, arguments.get? parameter.name = some value ∧
        Binds supplied parameter value ∧ HasType parameter.type value) ∧
      bindParameters declared arguments path = .ok arguments := by
  constructor
  · simp only [bindParameters_eq_ok_iff, exists_and_left, unknownName?_eq_none_iff,
      exists_bindAll_iff]
  · intro arguments hbound
    obtain ⟨-, hbind⟩ := bindParameters_eq_ok_iff.mp hbound
    have hkeys : (Table.keys arguments).Perm (declared.map Parameter.name) := by
      have hperm := perm_keys_bindAll hdistinct (fun _ _ => List.not_mem_nil) hbind
      rwa [show Table.keys ([] : Arguments) = [] from rfl, List.append_nil] at hperm
    refine ⟨hkeys, fun parameter hmem => ?_, ?_⟩
    · obtain ⟨value, hvalue, hbinds⟩ := binds_of_bindAll hdistinct hbind hmem
      obtain ⟨raw, -, hcoerces⟩ := hbinds.source
      exact ⟨value, hvalue, hbinds, hcoerces.hasType⟩
    · refine bindParameters_eq_ok_iff.mpr ⟨unknownName?_eq_none_iff.mpr fun name hname => ?_,
        bindAll_again hdistinct hbind⟩
      exact List.mem_map.mp (hkeys.subset hname)

end Declarations

namespace Release

/-- A configuration, one of two, and a number of attempts. -/
def declared : List Parameter :=
  [{ name := "configuration", default := some (.string "Debug"),
     values := some [.string "Debug", .string "Release"] },
   { name := "attempts", type := .number }]

end Release

/-- A number that is supplied as a text is bound as a number, and then once more as it is. -/
theorem parameters_bind_iff_release :
    (Release.declared.map Parameter.name).Nodup ∧
      bindParameters Release.declared [("attempts", .string " 3 ")] "/pipeline.yml" =
        .ok [("attempts", .float (.ofInt 3)), ("configuration", .string "Debug")] ∧
      bindParameters Release.declared
          [("attempts", .float (.ofInt 3)), ("configuration", .string "Debug")] "/pipeline.yml" =
        .ok [("attempts", .float (.ofInt 3)), ("configuration", .string "Debug")] := by
  have hdistinct : (Release.declared.map Parameter.name).Nodup := by decide
  have hbound : bindParameters Release.declared [("attempts", .string " 3 ")] "/pipeline.yml" =
      .ok [("attempts", .float (.ofInt 3)), ("configuration", .string "Debug")] :=
    eq_ok_of_toOption (by decide +kernel)
  exact ⟨hdistinct, hbound, ((parameters_bind_iff hdistinct _ _).2 _ hbound).2.2⟩

end BuildPipeline.Template
