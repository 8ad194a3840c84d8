import BuildPipeline.Proofs.Outcomes
import BuildPipeline.Proofs.Template.ExpansionStack
import BuildPipeline.Yaml.Identity

/-!
# What a reference expands to

A reference to a template is expanded in a scope of its own, made of the parameters that it passes
and the literal variables of the root.  So nothing of the place that it stands in comes into the
nodes: not the parameters and loop variables there, and not the templates that are being expanded.

* `Library.call` is the part of an inclusion that has no stack.  `Library.instantiate_eq` splits an
  inclusion into it and the step onto the stack.
* `SameUnlessRefused` compares the outcome on one stack with the nodes that came out on another.
  `Expansion.sameUnlessRefused` follows the course of an expansion: the only thing that another
  stack can change is that it refuses a frame, and a part of the same stack does not even do that.
* `inclusion_is_context_independent` is the result, for two references that mean the same file and
  pass the same parameters.  The references themselves, which only errors show, may differ.

Two references that fail may fail differently, since an error names the reference.
-/

namespace BuildPipeline.Template

/-! ## Entering a part of a stack -/

namespace Stack

variable {stack sub next : Stack} {frame : Frame}

theorem enter_eq_ok_iff :
    stack.enter frame = .ok next ↔
      frame ∉ stack ∧ stack.occurrences frame.path < maxSelfInclusion ∧ next = frame :: stack := by
  refine ⟨enter_eq_ok, ?_⟩
  rintro ⟨hnew, hroom, rfl⟩
  have hother : stack.reverse.find? (· = frame) = none := by
    refine List.find?_eq_none.mpr fun other hmem => ?_
    have hdiffers : other ≠ frame := fun heq => hnew (heq ▸ List.mem_reverse.mp hmem)
    simpa using hdiffers
  have hrepeats : stack.repeats? frame = none := by
    rw [repeats?, hother, if_neg (Nat.not_le.mpr hroom)]
    rfl
  rw [enter, hrepeats]

/-- A frame is entered, or it closes a cycle. -/
theorem enter_cases (stack : Stack) (frame : Frame) :
    stack.enter frame = .ok (frame :: stack) ∨
      ∃ error : Error, stack.enter frame = .error error ∧ error.problem.kind = .cycle := by
  unfold enter
  cases stack.repeats? frame with
  | none => exact Or.inl rfl
  | some start => exact Or.inr ⟨_, rfl, rfl⟩

/-- A part of a stack has room for what the whole has room for. -/
theorem enter_of_sublist (hsub : sub.Sublist stack) (henter : stack.enter frame = .ok next) :
    sub.enter frame = .ok (frame :: sub) := by
  obtain ⟨hnew, hroom, -⟩ := enter_eq_ok henter
  refine enter_eq_ok_iff.mpr ⟨fun hmem => hnew (hsub.subset hmem), ?_, rfl⟩
  exact Nat.lt_of_le_of_lt hsub.countP_le hroom

end Stack

/-! ## References without a stack -/

/-- A template that a node refers to, with bound parameters. -/
structure Call where
  path : String
  entries : Yaml.Entries
  arguments : Arguments
  deriving DecidableEq

def Call.frame [Yaml.Codec] (call : Call) : Frame :=
  ⟨call.path, signature call.arguments⟩

namespace Library

/-- Find the template that an item in `file` refers to and bind its parameters. -/
def call [Yaml.Codec] (library : Library) (file reference : String)
    (item : Yaml.Value) : Except Error Call := do
  let (path, source) ← library.find reference file
  let entries ← readTemplate reference source
  let declared ← declarations path (Yaml.Value.lookUp? "parameters" entries)
  let passed ← passedArguments item reference
  let arguments ← bindParameters declared passed reference
  return ⟨path, entries, arguments⟩

theorem instantiate_eq [Yaml.Codec] (library : Library) (stack : Stack) (file reference : String)
    (item : Yaml.Value) :
    library.instantiate stack file reference item = do
      let call ← library.call file reference item
      let stack ← stack.enter call.frame
      return ⟨call.entries, library.scope call.arguments call.path, stack⟩ := by
  simp only [instantiate, call, bind_assoc, pure_bind, Call.frame]

/-- The nodes that a reference expands to, on a stack, where it stands in the scope `caller`. -/
def expandReference [Yaml.Codec] (library : Library) (stack : Stack) (level : Level)
    (reference : String) (item : Yaml.Value) (caller : Scope) : Except Error (List Yaml.Value) := do
  let inclusion ← library.instantiate stack caller.file reference item
  let body ← sectionItems level inclusion.entries inclusion.scope reference
  (resolve library inclusion.stack level inclusion.scope.file body).mapError
    fun error => error.withPath reference

end Library

/-! ## One node after the other -/

section Computed

variable {library : Library} {stack : Stack} {level : Level} {item : Yaml.Value}

/-- A reference is replaced by what it expands to, and the nodes after it are expanded on the same
stack. -/
theorem resolve_cons_of_reference [Yaml.Codec] {reference : String} (caller : Scope)
    (rest : List Yaml.Value) (hreference : reference? level item = some reference) :
    resolve library stack level caller.file (item :: rest) =
      library.expandReference stack level reference item caller >>= fun nodes =>
        (resolve library stack level caller.file rest).map (nodes ++ ·) := by
  cases hinstance : library.instantiate stack caller.file reference item with
  | error error =>
      rw [resolve_of_refused hreference hinstance, Library.expandReference, hinstance]
      rfl
  | ok inclusion =>
      rw [resolve_of_included hreference hinstance, Library.expandReference, hinstance]
      simp only [bind_assoc]
      cases resolve library stack level caller.file rest <;> rfl

theorem resolve_cons_of_node [Yaml.Codec] {file : String} {entries : Yaml.Entries}
    (rest : List Yaml.Value) (hreference : reference? level (.mapping entries) = none) :
    resolve library stack level file (.mapping entries :: rest) =
      (Piece.node level.children entries).outcome library stack file >>= fun nodes =>
        (resolve library stack level file rest).map (nodes ++ ·) := by
  rw [resolve.eq_3 _ _ _ _ _ _ hreference, Piece.outcome_node]
  cases resolveLists library stack file level.children entries with
  | error error => rfl
  | ok resolved => cases resolve library stack level file rest <;> rfl

theorem resolve_cons_of_leaf [Yaml.Codec] {file : String} (rest : List Yaml.Value)
    (hreference : reference? level item = none) (hleaf : ∀ entries, item ≠ .mapping entries) :
    resolve library stack level file (item :: rest) =
      (resolve library stack level file rest).map (item :: ·) := by
  rw [resolve.eq_4 _ _ _ _ _ _ hleaf hreference]
  cases resolve library stack level file rest <;> rfl

theorem outcome_of_list [Yaml.Codec] {file : String} {levels : List Level} {entries : Yaml.Entries}
    {items : List Yaml.Value}
    (hlist : Yaml.Value.lookUp? level.sectionName entries = some (.sequence items)) :
    (Piece.node (level :: levels) entries).outcome library stack file =
      resolve library stack level file items >>= fun nodes =>
        (Piece.node levels
          (Yaml.Value.insert (.string level.sectionName) (.sequence nodes) entries)).outcome
            library stack file := by
  rw [Piece.outcome_node, resolveLists_of_list hlist]
  cases resolve library stack level file items <;> rfl

end Computed

/-- What an inclusion is made of: the call, whose frame was entered. -/
theorem Library.instantiate_eq_ok [Yaml.Codec] {library : Library} {stack : Stack}
    {file reference : String} {item : Yaml.Value} {inclusion : Inclusion}
    (hinstance : library.instantiate stack file reference item = .ok inclusion) :
    ∃ call, library.call file reference item = .ok call ∧
      stack.enter call.frame = .ok (call.frame :: stack) ∧
      inclusion = ⟨call.entries, library.scope call.arguments call.path, call.frame :: stack⟩ := by
  rw [instantiate_eq] at hinstance
  obtain ⟨call, hcall, hinstance⟩ := bind_eq_ok_iff.mp hinstance
  obtain ⟨next, henter, hinstance⟩ := bind_eq_ok_iff.mp hinstance
  obtain ⟨-, -, rfl⟩ := Stack.enter_eq_ok henter
  exact ⟨call, hcall, henter, (Except.ok.inj hinstance).symm⟩

/-! ## Another stack -/

/-- On the stack `other` the outcome is this value too, or a cycle is reported.  That does not
happen on a part of `stack`. -/
def SameUnlessRefused {α : Type} (stack other : Stack) (outcome : Except Error α) (value : α) :
    Prop :=
  outcome = .ok value ∨
    ¬ other.Sublist stack ∧ ∃ error : Error, outcome = .error error ∧ error.problem.kind = .cycle

namespace SameUnlessRefused

variable {α β : Type} {stack other : Stack} {outcome : Except Error α} {value : α} {result : β}

theorem bind {next : α → Except Error β} (houtcome : SameUnlessRefused stack other outcome value)
    (hnext : SameUnlessRefused stack other (next value) result) :
    SameUnlessRefused stack other (outcome >>= next) result := by
  rcases houtcome with rfl | ⟨hsub, error, rfl, hkind⟩
  · exact hnext
  · exact Or.inr ⟨hsub, error, rfl, hkind⟩

theorem map (f : α → β) (houtcome : SameUnlessRefused stack other outcome value) :
    SameUnlessRefused stack other (outcome.map f) (f value) := by
  rcases houtcome with rfl | ⟨hsub, error, rfl, hkind⟩
  · exact Or.inl rfl
  · exact Or.inr ⟨hsub, error, rfl, hkind⟩

/-- Naming the template in an error does not change what the error is about. -/
theorem mapError (path : String) (houtcome : SameUnlessRefused stack other outcome value) :
    SameUnlessRefused stack other (outcome.mapError fun error => error.withPath path) value := by
  rcases houtcome with rfl | ⟨hsub, error, rfl, hkind⟩
  · exact Or.inl rfl
  · exact Or.inr ⟨hsub, error.withPath path, rfl, hkind⟩

/-- Stacks of which one is a part of the other stay so when a frame is entered on both. -/
theorem of_cons {frame : Frame}
    (houtcome : SameUnlessRefused (frame :: stack) (frame :: other) outcome value) :
    SameUnlessRefused stack other outcome value :=
  houtcome.imp_right fun ⟨hsub, hcycle⟩ => ⟨fun hpart => hsub (hpart.cons_cons frame), hcycle⟩

end SameUnlessRefused

/-- An inclusion on another stack, if what it includes does as it did on the first one. -/
theorem Library.expandReference_of_call [Yaml.Codec] {library : Library} {stack other : Stack}
    {level : Level} {reference : String} {item : Yaml.Value} (caller : Scope) {call : Call}
    {body nodes : List Yaml.Value} (hcall : library.call caller.file reference item = .ok call)
    (henter : stack.enter call.frame = .ok (call.frame :: stack))
    (hbody : sectionItems level call.entries (library.scope call.arguments call.path) reference =
      .ok body)
    (hinner : SameUnlessRefused (call.frame :: stack) (call.frame :: other)
      (resolve library (call.frame :: other) level call.path body) nodes) :
    SameUnlessRefused stack other (library.expandReference other level reference item caller)
      nodes := by
  rw [expandReference, instantiate_eq, hcall]
  rcases Stack.enter_cases other call.frame with hother | ⟨error, hother, hkind⟩
  · simp only [hother, hbody, bind, Except.bind, pure, Except.pure]
    exact hinner.of_cons.mapError reference
  · refine Or.inr ⟨fun hsub => ?_, error, ?_, hkind⟩
    · rw [Stack.enter_of_sublist hsub henter] at hother
      cases hother
    · simp only [hother, bind, Except.bind]

/-- What came out of an expansion comes out on every stack that refuses nothing. -/
theorem Expansion.sameUnlessRefused [Yaml.Codec] {library : Library} {stack : Stack} {file : String}
    {piece : Piece} {outcome : Except Error (List Yaml.Value)} {trail : List Stack}
    (hexpansion : Expansion library stack file piece outcome trail) :
    ∀ nodes, outcome = .ok nodes → ∀ other,
      SameUnlessRefused stack other (piece.outcome library other file) nodes := by
  -- The induction is on the course.  A reference makes both stacks longer by the same frame.
  induction hexpansion with
  | refused | bodiless | includedError | nodeError | listError =>
      exact fun _ houtcome => nomatch houtcome
  | empty level =>
      rintro _ ⟨⟩ other
      exact Or.inl (resolve.eq_1 ..)
  | @included stack file reference level item inclusion body inner rest outcome _ _ hreference
      hinstance hbody hinner hrest ih ihRest =>
      intro nodes houtcome other
      obtain ⟨after, rfl, rfl⟩ := exists_of_map_eq_ok houtcome
      obtain ⟨call, hcall, henter, rfl⟩ := Library.instantiate_eq_ok hinstance
      have hnodes := Library.expandReference_of_call ⟨{}, file⟩ hcall henter hbody
        (ih inner rfl (call.frame :: other))
      have hafter := (ihRest after rfl other).map (inner ++ ·)
      rw [Piece.outcome_nodes, resolve_cons_of_reference ⟨{}, file⟩ rest hreference]
      exact hnodes.bind hafter
  | @node stack file level entries inner rest outcome _ _ hreference hinner hrest ih ihRest =>
      intro nodes houtcome other
      obtain ⟨after, rfl, rfl⟩ := exists_of_map_eq_ok houtcome
      have hafter := (ihRest after rfl other).map (inner ++ ·)
      rw [Piece.outcome_nodes, resolve_cons_of_node rest hreference]
      exact (ih inner rfl other).bind hafter
  | @leaf stack file level item rest outcome _ hreference hleaf hrest ih =>
      intro nodes houtcome other
      obtain ⟨after, rfl, rfl⟩ := exists_of_map_eq_ok houtcome
      rw [Piece.outcome_nodes, resolve_cons_of_leaf rest hreference hleaf]
      exact (ih after rfl other).map (item :: ·)
  | complete entries =>
      rintro _ ⟨⟩ other
      refine Or.inl ?_
      rw [Piece.outcome_node, resolveLists.eq_1]
      rfl
  | list hlist hinner hrest ih ihRest =>
      intro nodes houtcome other
      rw [outcome_of_list hlist]
      exact (ih _ rfl other).bind (ihRest nodes houtcome other)
  | noList hlist hrest ih =>
      intro nodes houtcome other
      rw [Piece.outcome_node, resolveLists_of_noList hlist]
      exact ih nodes houtcome other

/-! ## Another reference to the same file -/

section References

variable {reference : String} (other : String)

theorem readTemplate_of_ok [Yaml.Codec] {source : String} {entries : Yaml.Entries}
    (hread : readTemplate reference source = .ok entries) :
    readTemplate other source = .ok entries := by
  unfold readTemplate at hread ⊢
  split at hread
  · next found hfound => exact hread
  · cases hread
  · cases hread

theorem bindParameters_of_ok {declared : List Parameter} {passed arguments : Arguments}
    (hbind : bindParameters declared passed reference = .ok arguments) :
    bindParameters declared passed other = .ok arguments := by
  unfold bindParameters at hbind ⊢
  simp only [mapError_eq_ok_iff] at hbind ⊢
  exact hbind

theorem sectionItems_of_ok {level : Level} {entries : Yaml.Entries} {scope : Scope}
    {items : List Yaml.Value} (hitems : sectionItems level entries scope reference = .ok items) :
    sectionItems level entries scope other = .ok items := by
  unfold sectionItems at hitems ⊢
  split at hitems
  · cases hitems
  · next body hbody =>
      cases hvalue : evaluate scope body with
      | error error => simp [hvalue, bind, Except.bind] at hitems
      | ok value =>
          simp only [hvalue, bind, Except.bind] at hitems ⊢
          split at hitems
          · exact hitems
          · exact hitems
          · exact hitems
          · cases hitems

variable {other}

/-- What a call was put together from. -/
theorem Library.call_eq_ok [Yaml.Codec] {library : Library} {file : String} {item : Yaml.Value}
    {call : Call} (hcall : library.call file reference item = .ok call) :
    ∃ source declared passed, library.find reference file = .ok (call.path, source) ∧
      readTemplate reference source = .ok call.entries ∧
      declarations call.path (Yaml.Value.lookUp? "parameters" call.entries) = .ok declared ∧
      passedArguments item reference = .ok passed ∧
      bindParameters declared passed reference = .ok call.arguments := by
  obtain ⟨⟨path, source⟩, hfile, hcall⟩ := bind_eq_ok_iff.mp hcall
  obtain ⟨entries, hread, hcall⟩ := bind_eq_ok_iff.mp hcall
  obtain ⟨declared, hdeclared, hcall⟩ := bind_eq_ok_iff.mp hcall
  obtain ⟨passed, hpassed, hcall⟩ := bind_eq_ok_iff.mp hcall
  obtain ⟨arguments, harguments, hcall⟩ := bind_eq_ok_iff.mp hcall
  cases hcall
  exact ⟨source, declared, passed, hfile, hread, hdeclared, hpassed, harguments⟩

/-- References that mean the same file and pass the same parameters make the same call. -/
theorem Library.call_of_same_file [Yaml.Codec] {library : Library} {file otherFile : String}
    {item otherItem : Yaml.Value} {found : String × String} {passed : Arguments} {call : Call}
    (hfile : library.find reference file = .ok found)
    (hother : library.find other otherFile = .ok found)
    (hpassed : passedArguments item reference = .ok passed)
    (hotherPassed : passedArguments otherItem other = .ok passed)
    (hcall : library.call file reference item = .ok call) :
    library.call otherFile other otherItem = .ok call := by
  obtain ⟨source, declared, own, hown, hread, hdeclared, hownPassed, harguments⟩ := call_eq_ok hcall
  obtain rfl : found = (call.path, source) := Except.ok.inj (hfile.symm.trans hown)
  obtain rfl : passed = own := Except.ok.inj (hpassed.symm.trans hownPassed)
  have hotherRead := readTemplate_of_ok other hread
  have hotherArguments := bindParameters_of_ok other harguments
  simp only [Library.call, hother, hotherRead, hdeclared, hotherPassed, hotherArguments, bind,
    Except.bind, pure, Except.pure]

end References

/-- What came out of a reference comes out of every reference to the same file with the same
parameters, on every stack that refuses nothing. -/
theorem Library.expandReference_sameUnlessRefused [Yaml.Codec] {library : Library} {level : Level}
    {reference other : String} {item otherItem : Yaml.Value} {caller otherCaller : Scope}
    {found : String × String} {passed : Arguments}
    (hfile : library.find reference caller.file = .ok found)
    (hother : library.find other otherCaller.file = .ok found)
    (hpassed : passedArguments item reference = .ok passed)
    (hotherPassed : passedArguments otherItem other = .ok passed)
    {stack : Stack} {nodes : List Yaml.Value}
    (hnodes : library.expandReference stack level reference item caller = .ok nodes)
    (otherStack : Stack) :
    SameUnlessRefused stack otherStack
      (library.expandReference otherStack level other otherItem otherCaller) nodes := by
  obtain ⟨inclusion, hinstance, hnodes⟩ := bind_eq_ok_iff.mp hnodes
  obtain ⟨call, hcall, henter, rfl⟩ := instantiate_eq_ok hinstance
  obtain ⟨body, hbody, hnodes⟩ := bind_eq_ok_iff.mp hnodes
  have hresolve : resolve library (call.frame :: stack) level call.path body = .ok nodes :=
    mapError_eq_ok_iff.mp hnodes
  obtain ⟨trail, hexpansion⟩ := exists_expansion library (call.frame :: stack) call.path
    (.nodes level body)
  have hinner := hexpansion.sameUnlessRefused nodes hresolve (call.frame :: otherStack)
  have hotherCall := call_of_same_file hfile hother hpassed hotherPassed hcall
  exact expandReference_of_call otherCaller hotherCall henter (sectionItems_of_ok other hbody)
    hinner

/-- The expansion of a reference is independent of its context.  Two references mean the same file
and pass the same parameters; their callers have any parameters and loop variables.

* If both are expanded, on any two stacks, they give the same nodes.
* What is expanded on a stack is also expanded on every part of it, to the same nodes.
* On any other stack the only other outcome is a cycle.
* So a reference that is expanded once can be repeated among its siblings. -/
theorem inclusion_is_context_independent [Yaml.Codec] {library : Library} {level : Level}
    {reference other : String} {item otherItem : Yaml.Value} {caller otherCaller : Scope}
    {found : String × String} {passed : Arguments}
    (hfile : library.find reference caller.file = .ok found)
    (hother : library.find other otherCaller.file = .ok found)
    (hpassed : passedArguments item reference = .ok passed)
    (hotherPassed : passedArguments otherItem other = .ok passed) :
    (∀ stack otherStack nodes otherNodes,
      library.expandReference stack level reference item caller = .ok nodes →
      library.expandReference otherStack level other otherItem otherCaller = .ok otherNodes →
      nodes = otherNodes) ∧
    (∀ stack sub nodes, library.expandReference stack level reference item caller = .ok nodes →
      sub.Sublist stack →
      library.expandReference sub level other otherItem otherCaller = .ok nodes) ∧
    (∀ stack otherStack nodes,
      library.expandReference stack level reference item caller = .ok nodes →
      library.expandReference otherStack level other otherItem otherCaller = .ok nodes ∨
        ∃ error, library.expandReference otherStack level other otherItem otherCaller =
          .error error ∧ error.problem.kind = .cycle) ∧
    ∀ stack nodes count, reference? level item = some reference →
      library.expandReference stack level reference item caller = .ok nodes →
      resolve library stack level caller.file (List.replicate count item) =
        .ok (List.replicate count nodes).flatten := by
  have hsame : ∀ stack otherStack nodes,
      library.expandReference stack level reference item caller = .ok nodes →
      SameUnlessRefused stack otherStack
        (library.expandReference otherStack level other otherItem otherCaller) nodes :=
    fun _ otherStack _ hnodes => Library.expandReference_sameUnlessRefused hfile hother hpassed
      hotherPassed hnodes otherStack
  refine ⟨?_, ?_, ?_, ?_⟩
  · intro stack otherStack nodes otherNodes hnodes hotherNodes
    rcases hsame stack otherStack nodes hnodes with hequal | ⟨-, error, herror, -⟩
    · rw [hotherNodes] at hequal
      exact (Except.ok.inj hequal).symm
    · rw [hotherNodes] at herror
      cases herror
  · intro stack sub nodes hnodes hsub
    exact (hsame stack sub nodes hnodes).resolve_right fun hrefused => hrefused.1 hsub
  · intro stack otherStack nodes hnodes
    exact (hsame stack otherStack nodes hnodes).imp_right And.right
  · intro stack nodes count hreference hnodes
    induction count with
    | zero => exact resolve.eq_1 ..
    | succ count ih =>
        rw [List.replicate_succ, resolve_cons_of_reference caller _ hreference, hnodes, ih]
        rfl

/-! ## A template that is shared -/

namespace Shared

def source : String :=
  "steps:\n- script: run $\x7b\x7b variables.tool \x7d\x7d\n"

/-- The pipeline has a literal variable. -/
def library : Library where
  files := { entries := [(["ci"], .directory), (["shared"], .directory),
    (["shared", "lint.yml"], .file source)] }
  repository := "/"
  vars := [("tool", "ruff")]

def item (reference : String) : Yaml.Value :=
  .mapping [(.string "template", .string reference)]

/-- The scope of the pipeline itself. -/
def root : Scope where
  context := {}
  file := "/pipeline.yml"

/-- A scope in another directory, in a loop whose variable is called like the variables. -/
def nested : Scope where
  context := { locals := [("variables", .null)] }
  file := "/ci/build.yml"

def stack : Stack := [⟨"/ci/build.yml", "{}\n"⟩, ⟨"/pipeline.yml", "{}\n"⟩]

def call : Call where
  path := "/shared/lint.yml"
  entries := [(.string "steps", .sequence [.mapping [(.string "script",
    .string "run $\x7b\x7b variables.tool \x7d\x7d")]])]
  arguments := []

def nodes : List Yaml.Value := [.mapping [(.string "script", .string "run ruff")]]

/-- The template is expanded for the loop. -/
theorem expandReference_nested :
    library.expandReference stack .steps "../shared/lint.yml" (item "../shared/lint.yml") nested =
      .ok nodes := by
  have hcall : library.call nested.file "../shared/lint.yml" (item "../shared/lint.yml") =
      .ok call := eq_ok_of_toOption (by decide +kernel)
  have henter : stack.enter call.frame = .ok (call.frame :: stack) :=
    eq_ok_of_toOption (by decide +kernel)
  have hbody : sectionItems .steps call.entries (library.scope call.arguments call.path)
      "../shared/lint.yml" = .ok nodes := eq_ok_of_toOption (by decide +kernel)
  have hinner : resolve library (call.frame :: stack) .steps call.path nodes = .ok nodes := by
    rw [nodes, resolve_cons_of_node [] (by decide), resolve.eq_1, Piece.outcome_node,
      show Level.children .steps = [] from rfl, resolveLists.eq_1]
    rfl
  rw [Library.expandReference, Library.instantiate_eq, hcall]
  simp only [bind, Except.bind, henter, pure, Except.pure, hbody]
  rw [show (library.scope call.arguments call.path).file = call.path from rfl, hinner]
  rfl

end Shared

/-- The pipeline refers to the template by another path and from outside the loop, and gets the same
steps, also twice in a row. -/
theorem inclusion_is_context_independent_shared :
    Shared.library.expandReference Shared.stack .steps "../shared/lint.yml"
      (Shared.item "../shared/lint.yml") Shared.nested = .ok Shared.nodes ∧
    Shared.library.expandReference [⟨"/pipeline.yml", "{}\n"⟩] .steps "shared/lint.yml"
      (Shared.item "shared/lint.yml") Shared.root = .ok Shared.nodes ∧
    resolve Shared.library Shared.stack .steps "/ci/build.yml"
      [Shared.item "../shared/lint.yml", Shared.item "../shared/lint.yml"] =
      .ok (Shared.nodes ++ Shared.nodes) := by
  have hfile : Shared.library.find "../shared/lint.yml" Shared.nested.file =
      .ok ("/shared/lint.yml", Shared.source) := eq_ok_of_toOption (by decide +kernel)
  have hother : Shared.library.find "shared/lint.yml" Shared.root.file =
      .ok ("/shared/lint.yml", Shared.source) := eq_ok_of_toOption (by decide +kernel)
  have hpassed : passedArguments (Shared.item "../shared/lint.yml") "../shared/lint.yml" = .ok [] :=
    rfl
  have hotherPassed : passedArguments (Shared.item "shared/lint.yml") "shared/lint.yml" = .ok [] :=
    rfl
  obtain ⟨-, hpart, -, hsiblings⟩ :=
    inclusion_is_context_independent hfile hother hpassed hotherPassed
  have hnested := Shared.expandReference_nested
  have hsub : List.Sublist [⟨"/pipeline.yml", "{}\n"⟩] Shared.stack := by decide
  refine ⟨hnested, hpart _ _ _ hnested hsub, ?_⟩
  exact hsiblings _ _ 2 (by decide) hnested

end BuildPipeline.Template
