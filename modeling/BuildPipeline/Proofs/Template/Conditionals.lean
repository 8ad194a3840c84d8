import BuildPipeline.Proofs.Template.Collections

/-!
# Chains of conditions

An `if`, the `elseif`s behind it and a last `else` are expanded together: one of their bodies at
most, in the place of them all.

* `Conditional` is such a chain among the elements of a collection.  `Scope.choose` goes through its
  conditions up to the first one that holds, and `Scope.Chooses` says what the choice is.
* `Pass.result_conditional` shows that a pass makes this choice, whatever chain stands before it.
* `Pass.result_orphan`: a directive that goes on with a chain is an error where there is none.
* `one_branch_is_expanded` puts this together for sequences and mappings.
-/

namespace BuildPipeline.Template

open Expression

/-! ## Choosing a branch -/

section Choice

variable {α : Type} {scope : Scope} {before branches : List (String × α)} {otherwise : Option α}

/-- The first element whose condition holds, or else the last resort. -/
def Scope.choose (scope : Scope) (branches : List (String × α)) (otherwise : Option α) :
    Except Error (Option α) := do
  let taken ← branches.findM? fun branch => scope.holds branch.1
  return (taken.map Prod.snd).or otherwise

/-- The choice depends on the conditions up to the first that holds or has no value, and on nothing
behind it. -/
structure Scope.Chooses (scope : Scope) (branches : List (String × α)) (otherwise : Option α)
    (choice : Except Error (Option α)) : Prop where
  /-- The first element whose condition holds is chosen. -/
  holding : ∀ before branch after, branches = before ++ branch :: after →
    (∀ passed ∈ before, scope.holds passed.1 = .ok false) → scope.holds branch.1 = .ok true →
      choice = .ok (some branch.2)
  /-- A condition without a value in front of that is an error. -/
  failing : ∀ before branch after error, branches = before ++ branch :: after →
    (∀ passed ∈ before, scope.holds passed.1 = .ok false) → scope.holds branch.1 = .error error →
      choice = .error error
  /-- Where no condition holds, the last resort is chosen. -/
  remaining : (∀ passed ∈ branches, scope.holds passed.1 = .ok false) → choice = .ok otherwise

@[simp]
theorem Scope.choose_nil : scope.choose [] otherwise = .ok otherwise :=
  rfl

theorem Scope.choose_cons (branch : String × α) :
    scope.choose (branch :: branches) otherwise =
      scope.holds branch.1 >>= fun holds =>
        if holds then .ok (some branch.2) else scope.choose branches otherwise := by
  rw [choose, List.findM?, bind_assoc]
  refine bind_congr fun holds => ?_
  cases holds <;> rfl

/-- Conditions that do not hold are passed. -/
theorem Scope.choose_append (hpassed : ∀ passed ∈ before, scope.holds passed.1 = .ok false) :
    scope.choose (before ++ branches) otherwise = scope.choose branches otherwise := by
  induction before with
  | nil => rfl
  | cons branch before ih =>
      obtain ⟨hbranch, hlater⟩ := List.forall_mem_cons.mp hpassed
      rw [List.cons_append, choose_cons, hbranch]
      exact ih hlater

theorem Scope.chooses_choose (scope : Scope) (branches : List (String × α))
    (otherwise : Option α) :
    scope.Chooses branches otherwise (scope.choose branches otherwise) where
  holding before branch after hsplit hpassed hholds := by
    rw [hsplit, choose_append hpassed, choose_cons, hholds]
    rfl
  failing before branch after error hsplit hpassed hfails := by
    rw [hsplit, choose_append hpassed, choose_cons, hfails]
    rfl
  remaining hpassed := by
    rw [← List.append_nil branches, choose_append hpassed, choose_nil]

end Choice

/-! ## Chains -/

/-- Whether a directive leaves a chain behind it that may go on. -/
def Directive.leavesOpen : Directive → Bool
  | .onlyIf _ | .elseIf _ => true
  | .otherwise | .each _ _ => false

/-- A chain of directives: an `if`, any number of `elseif`s and perhaps an `else`. -/
structure Conditional {α : Type} (directive? : α → Option Directive) where
  condition : String
  first : α
  elseIfs : List (String × α)
  otherwise : Option α
  isIf : directive? first = some (.onlyIf condition)
  areElseIfs : ∀ branch ∈ elseIfs, directive? branch.2 = some (.elseIf branch.1)
  isElse : ∀ last ∈ otherwise, directive? last = some .otherwise

namespace Conditional

variable {α : Type} {directive? : α → Option Directive}

/-- The elements with conditions. -/
def branches (chain : Conditional directive?) : List (String × α) :=
  (chain.condition, chain.first) :: chain.elseIfs

/-- The elements of the chain in their order. -/
def elements (chain : Conditional directive?) : List α :=
  chain.branches.map Prod.snd ++ chain.otherwise.toList

end Conditional

namespace Pass

variable {α β σ : Type} {pass : Pass α β σ} {scope : Scope} {target : σ}

/-- The last element is a directive that leaves a chain open. -/
def LeavesOpen (pass : Pass α β σ) (elements : List α) : Prop :=
  ∃ last ∈ elements.getLast?, ∃ directive ∈ pass.directive? last, directive.leavesOpen = true

/-- The result with the body of a chosen element, if one is chosen. -/
def add (pass : Pass α β σ) (scope : Scope) (target : σ) (chosen : Option α) : Except Error σ :=
  pass.merge target <$> chosen.elim (pure []) (pass.branch scope)

@[simp]
theorem add_none (scope : Scope) (target : σ) : pass.add scope target none = .ok target :=
  congrArg Except.ok (pass.merge_nil target)

/-! ## Steps along a chain -/

section Steps

variable {element : α} {condition : String}

/-- An element of a chain of which no branch was taken yet. -/
def tryBranch (pass : Pass α β σ) (scope : Scope) (target : σ) (condition : String) (element : α) :
    Except Error (σ × Chain) := do
  if ← scope.holds condition then
    return (pass.merge target (← pass.branch scope element), some true)
  else return (target, some false)

theorem map_runDirective_onlyIf (chain : Chain) (element : α) (condition : String) :
    Prod.map (pass.merge target) id <$>
        (scope.runDirective chain (.onlyIf condition) fun scope => pass.branch scope element) =
      pass.tryBranch scope target condition element := by
  simp only [Scope.runDirective, tryBranch, map_bind]
  refine bind_congr fun holds => ?_
  cases holds <;> simp [pass.merge_nil]

theorem step_onlyIf (hdirective : pass.directive? element = some (.onlyIf condition))
    (chain : Chain) :
    pass.step scope (target, chain) element = pass.tryBranch scope target condition element := by
  rw [step_directive _ hdirective, ← map_runDirective_onlyIf chain]

/-- Where no branch was taken yet, an `elseif` is like an `if`. -/
theorem step_elseIf_untaken (hdirective : pass.directive? element = some (.elseIf condition)) :
    pass.step scope (target, some false) element =
      pass.tryBranch scope target condition element := by
  rw [step_directive _ hdirective, ← map_runDirective_onlyIf none]
  rfl

/-- Behind a branch that was taken the condition is not looked at. -/
theorem step_elseIf_taken (hdirective : pass.directive? element = some (.elseIf condition)) :
    pass.step scope (target, some true) element = .ok (target, some true) := by
  rw [step_directive _ hdirective]
  change Except.ok (pass.merge target [], some true) = _
  rw [pass.merge_nil]

theorem step_else_untaken (hdirective : pass.directive? element = some .otherwise) :
    pass.step scope (target, some false) element =
      (·, none) <$> pass.add scope target (some element) := by
  have hrun : (scope.runDirective (some false) .otherwise fun scope => pass.branch scope element) =
      (·, none) <$> pass.branch scope element := by
    rw [map_eq_pure_bind]
    rfl
  rw [step_directive _ hdirective, hrun]
  simp [add]

theorem step_else_taken (hdirective : pass.directive? element = some .otherwise) :
    pass.step scope (target, some true) element = .ok (target, none) := by
  rw [step_directive _ hdirective]
  change Except.ok (pass.merge target [], none) = _
  rw [pass.merge_nil]

end Steps

/-! ## Whole chains -/

section Chains

variable {elseIfs : List (String × α)} {otherwise : Option α} {rest : List α}

/-- Behind a branch that was taken the rest of the chain adds nothing. -/
theorem result_taken (hends : otherwise = none → ¬ pass.GoesOn rest)
    (helseIfs : ∀ branch ∈ elseIfs, pass.directive? branch.2 = some (.elseIf branch.1))
    (helse : ∀ last ∈ otherwise, pass.directive? last = some .otherwise) (target : σ) :
    pass.result scope (target, some true) (elseIfs.map Prod.snd ++ (otherwise.toList ++ rest)) =
      pass.result scope (target, none) rest := by
  induction elseIfs with
  | nil =>
      cases otherwise with
      | none => exact result_congr (hends rfl) target (some true) none
      | some last =>
          change pass.result scope (target, some true) (last :: rest) = _
          rw [result_cons, step_else_taken (helse last rfl)]
          rfl
  | cons branch elseIfs ih =>
      obtain ⟨hbranch, hlater⟩ := List.forall_mem_cons.mp helseIfs
      rw [List.map_cons, List.cons_append, result_cons, step_elseIf_taken hbranch]
      exact ih hlater

/-- Trying a branch makes the choice between it and the rest of the chain. -/
theorem tryBranch_bind (hends : otherwise = none → ¬ pass.GoesOn rest)
    (helseIfs : ∀ branch ∈ elseIfs, pass.directive? branch.2 = some (.elseIf branch.1))
    (helse : ∀ last ∈ otherwise, pass.directive? last = some .otherwise)
    (hlater : pass.result scope (target, some false)
        (elseIfs.map Prod.snd ++ (otherwise.toList ++ rest)) =
      scope.choose elseIfs otherwise >>= fun chosen =>
        pass.add scope target chosen >>= fun target => pass.result scope (target, none) rest)
    (branch : String × α) :
    (pass.tryBranch scope target branch.1 branch.2 >>= fun next =>
        pass.result scope next (elseIfs.map Prod.snd ++ (otherwise.toList ++ rest))) =
      scope.choose (branch :: elseIfs) otherwise >>= fun chosen =>
        pass.add scope target chosen >>= fun target => pass.result scope (target, none) rest := by
  rw [Scope.choose_cons, tryBranch, bind_assoc, bind_assoc]
  refine bind_congr fun holds => ?_
  -- A branch that is not taken leaves the chain to the others, and one that is taken ends it.
  cases holds with
  | false => exact hlater
  | true =>
      change (pass.branch scope branch.2 >>= fun values =>
        pure (pass.merge target values, some true)) >>= _ =
          pass.merge target <$> pass.branch scope branch.2 >>= _
      rw [bind_assoc, bind_map_left]
      refine bind_congr fun values => ?_
      exact result_taken hends helseIfs helse (pass.merge target values)

theorem result_untaken (hends : otherwise = none → ¬ pass.GoesOn rest)
    (helseIfs : ∀ branch ∈ elseIfs, pass.directive? branch.2 = some (.elseIf branch.1))
    (helse : ∀ last ∈ otherwise, pass.directive? last = some .otherwise) (scope : Scope)
    (target : σ) :
    pass.result scope (target, some false) (elseIfs.map Prod.snd ++ (otherwise.toList ++ rest)) =
      scope.choose elseIfs otherwise >>= fun chosen =>
        pass.add scope target chosen >>= fun target => pass.result scope (target, none) rest := by
  induction elseIfs with
  | nil =>
      cases otherwise with
      | none =>
          have hnothing : (pass.add scope target none >>= fun target =>
              pass.result scope (target, none) rest) = pass.result scope (target, none) rest := by
            rw [add_none]
            rfl
          exact (result_congr (hends rfl) target (some false) none).trans hnothing.symm
      | some last =>
          change pass.result scope (target, some false) (last :: rest) = _
          rw [result_cons, step_else_untaken (helse last rfl), bind_map_left]
          rfl
  | cons branch elseIfs ih =>
      obtain ⟨hbranch, hlater⟩ := List.forall_mem_cons.mp helseIfs
      rw [List.map_cons, List.cons_append, result_cons, step_elseIf_untaken hbranch]
      exact tryBranch_bind hends hlater helse (ih hlater) branch

/-- A pass adds the body of the chosen element, whatever chain stands before, and goes on behind
the chain with none. -/
theorem result_conditional (pass : Pass α β σ) (chain : Conditional pass.directive?)
    (hends : chain.otherwise = none → ¬ pass.GoesOn rest) (target : σ) (state : Chain) :
    pass.result scope (target, state) (chain.elements ++ rest) =
      scope.choose chain.branches chain.otherwise >>= fun chosen =>
        pass.add scope target chosen >>= fun target => pass.result scope (target, none) rest := by
  -- An `if` starts anew, so the state before it is lost, and no branch of what follows has been
  -- taken yet.
  have hlater := result_untaken hends chain.areElseIfs chain.isElse scope target
  rw [Conditional.elements, List.append_assoc, Conditional.branches, List.map_cons,
    List.cons_append, result_cons, step_onlyIf chain.isIf]
  exact tryBranch_bind hends chain.areElseIfs chain.isElse hlater (chain.condition, chain.first)

end Chains

/-! ## Directives without a chain -/

/-- Only an `if` and an `elseif` leave a chain behind them. -/
theorem run_chain_eq_none {elements : List α} {next : σ × Chain}
    (hopen : ¬ pass.LeavesOpen elements)
    (hrun : pass.run scope (target, none) elements = .ok next) : next.2 = none := by
  rcases List.eq_nil_or_concat elements with rfl | ⟨front, last, rfl⟩
  · cases hrun
    rfl
  · -- The chain behind the last element is what this element made of it.
    rw [List.concat_eq_append, run, List.foldlM_append] at hrun
    obtain ⟨state, -, hlast⟩ := bind_eq_ok_iff.mp hrun
    rw [List.foldlM_cons] at hlast
    obtain ⟨after, hstep, hend⟩ := bind_eq_ok_iff.mp hlast
    obtain rfl : after = next := Except.ok.inj hend
    cases hdirective : pass.directive? last with
    | none =>
        rw [step_plain _ hdirective] at hstep
        obtain ⟨result, -, rfl⟩ := exists_of_map_eq_ok hstep
        rfl
    | some directive =>
        rw [step_directive _ hdirective] at hstep
        obtain ⟨⟨values, chain⟩, hvalues, rfl⟩ := exists_of_map_eq_ok hstep
        cases directive with
        | onlyIf condition => exact absurd ⟨last, by simp, _, hdirective, rfl⟩ hopen
        | elseIf condition => exact absurd ⟨last, by simp, _, hdirective, rfl⟩ hopen
        | otherwise =>
            obtain ⟨taken, -, hbody⟩ := bind_eq_ok_iff.mp hvalues
            split at hbody
            case isTrue => cases hbody; rfl
            case isFalse =>
                obtain ⟨results, -, hbody⟩ := bind_eq_ok_iff.mp hbody
                cases hbody
                rfl
        | each name collection =>
            obtain ⟨bindings, -, hbody⟩ := bind_eq_ok_iff.mp hvalues
            obtain ⟨results, -, hbody⟩ := bind_eq_ok_iff.mp hbody
            cases hbody
            rfl

theorem step_orphan {element : α} {directive : Directive} {word : String}
    (hdirective : pass.directive? element = some directive)
    (hword : directive.chainWord? = some word) :
    pass.step scope (target, none) element = scope.fail (.unchainedDirective word) := by
  rw [step_directive _ hdirective]
  cases directive with
  | onlyIf condition => cases hword
  | each name collection => cases hword
  | elseIf condition => cases hword; rfl
  | otherwise => cases hword; rfl

/-- Where no chain is open, a directive that goes on with one is an error, unless there is an error
before it. -/
theorem result_orphan (pass : Pass α β σ) {before : List α} {element : α}
    {directive : Directive} {word : String}
    (hdirective : pass.directive? element = some directive)
    (hword : directive.chainWord? = some word) (hopen : ¬ pass.LeavesOpen before)
    (target : σ) (after : List α) :
    ∃ error, pass.result scope (target, none) (before ++ element :: after) = .error error ∧
      ∀ found, pass.result scope (target, none) before = .ok found →
        error = ⟨.unchainedDirective word, some scope.file⟩ := by
  rw [result_append]
  cases hrun : pass.run scope (target, none) before with
  | error error =>
      refine ⟨error, rfl, fun found hfound => ?_⟩
      rw [result, hrun] at hfound
      cases hfound
  | ok next =>
      obtain ⟨found, chain⟩ := next
      obtain rfl : chain = none := run_chain_eq_none hopen hrun
      refine ⟨⟨.unchainedDirective word, some scope.file⟩, ?_, fun _ _ => rfl⟩
      change pass.result scope (found, none) (element :: after) = _
      rw [result_cons, step_orphan hdirective hword]
      rfl

end Pass

/-! ## The body of an item -/

/-- A body stands for a list of items: a list for its own, null for none, anything else for one. -/
def bodyItems : Yaml.Value → List Yaml.Value
  | .null => []
  | .sequence items => items
  | body => [body]

/-- The items under the only key of an item. -/
def itemsUnder (item : Yaml.Value) : List Yaml.Value :=
  match item.entries? with
  | some [(_, body)] => bodyItems body
  | _ => []

theorem evaluateOnly_eq (scope : Scope) (entries : Yaml.Entries) :
    evaluateOnly scope entries = evaluateBranch scope (.mapping entries) := by
  rcases entries with _ | ⟨⟨key, body⟩, _ | ⟨second, others⟩⟩ <;> rfl

theorem evaluateItems_singleton (scope : Scope) (item : Yaml.Value) :
    evaluateItems scope none [item] =
      match Directive.ofItem? item with
      | some directive =>
        Prod.fst <$> scope.runDirective none directive fun scope => evaluateBranch scope item
      | none => evaluateItem scope item := by
  have hnothing (values : List Yaml.Value) (chain : Chain) :
      (evaluateItems scope chain [] >>= fun others => pure (values ++ others)) = .ok values := by
    rw [evaluateItems]
    exact congrArg Except.ok (List.append_nil values)
  rw [evaluateItems]
  cases Directive.ofItem? item <;> simp only [hnothing, pure_bind, map_eq_pure_bind]
  case some directive => rfl
  case none => exact bind_pure (evaluateItem scope item)

/-- A body is expanded as a sequence of its own. -/
theorem evaluateBody_eq (scope : Scope) (body : Yaml.Value) :
    evaluateBody scope body = evaluateItems scope none (bodyItems body) := by
  cases body with
  | sequence items => rw [evaluateBody, bodyItems]
  | mapping entries =>
      change _ = evaluateItems scope none [.mapping entries]
      rw [evaluateBody, evaluateItems_singleton]
      cases Directive.ofItem? (.mapping entries) <;> simp [evaluateOnly_eq, evaluateItem]
  | tagged tag content =>
      change _ = evaluateItems scope none [.tagged tag content]
      rw [evaluateBody, evaluateItems_singleton]
      cases Directive.ofItem? (.tagged tag content) <;> simp [evaluateBranch, evaluateItem]
  | string text =>
      have hplain : Directive.ofItem? (.string text) = none := rfl
      change _ = evaluateItems scope none [.string text]
      rw [evaluateBody, evaluateItems_singleton, hplain, evaluateItem]
  | null => rfl
  | bool value => rfl
  | int value => rfl
  | float value => rfl

theorem evaluateBranch_eq (scope : Scope) (item : Yaml.Value) :
    evaluateBranch scope item = evaluateItems scope none (itemsUnder item) := by
  induction item using Yaml.Value.untagged.induct with
  | case1 tag content ih => rw [evaluateBranch, ih]; rfl
  | case2 item htag =>
      cases item with
      | tagged tag content => exact absurd rfl (htag tag content)
      | mapping entries =>
          rcases entries with _ | ⟨⟨key, body⟩, _ | ⟨second, others⟩⟩
          · rfl
          · exact evaluateBody_eq scope body
          · rfl
      | _ => rfl

/-! ## The result -/

/-- Of a chain of conditions one element is chosen at most: the first whose condition holds, or the
`else` if none does.  The chain contributes the body of that element as if it stood there alone, and
neither the conditions behind it nor the other bodies make any difference.  This is so of the items
of a sequence and of the entries of a mapping, whatever stands before the chain.  An `elseif` or an
`else` that stands behind anything but an `if` or an `elseif` is an error in any case, and it is the
one that is reported if there is none before it. -/
theorem one_branch_is_expanded (scope : Scope) :
    (∀ chain : Conditional Directive.ofItem?,
      ∃ choice, scope.Chooses chain.branches chain.otherwise choice ∧
        ∀ state rest, (chain.otherwise = none → ¬ itemsPass.GoesOn rest) →
          evaluateItems scope state (chain.elements ++ rest) = do
            let chosen ← choice
            let values ← chosen.elim (pure []) fun item =>
              evaluateItems scope none (itemsUnder item)
            let others ← evaluateItems scope none rest
            return values ++ others) ∧
      (∀ chain : Conditional fun entry : Yaml.Value × Yaml.Value => Directive.ofYamlKey? entry.1,
        ∃ choice, scope.Chooses chain.branches chain.otherwise choice ∧
          ∀ state target rest, (chain.otherwise = none → ¬ entriesPass.GoesOn rest) →
            evaluateEntries scope state target (chain.elements ++ rest) = do
              let chosen ← choice
              let entries ← chosen.elim (pure []) fun entry => evaluateMerged scope entry.2
              evaluateEntries scope none (setAll target entries) rest) ∧
      (∀ before item after directive word, Directive.ofItem? item = some directive →
        directive.chainWord? = some word → ¬ itemsPass.LeavesOpen before →
          ∃ error, evaluateItems scope none (before ++ item :: after) = .error error ∧
            ∀ values, evaluateItems scope none before = .ok values →
              error = ⟨.unchainedDirective word, some scope.file⟩) ∧
      ∀ before entry after directive word, Directive.ofYamlKey? entry.1 = some directive →
        directive.chainWord? = some word → ¬ entriesPass.LeavesOpen before → ∀ target,
          ∃ error, evaluateEntries scope none target (before ++ entry :: after) = .error error ∧
            ∀ entries, evaluateEntries scope none target before = .ok entries →
              error = ⟨.unchainedDirective word, some scope.file⟩ := by
  refine ⟨fun chain => ?items, fun chain => ?entries, ?orphanItem, ?orphanEntry⟩
  case items =>
      refine ⟨_, scope.chooses_choose chain.branches chain.otherwise, fun state rest hends => ?_⟩
      have hadd (chosen : Option Yaml.Value) : itemsPass.add scope [] chosen =
          chosen.elim (pure []) fun item => evaluateItems scope none (itemsUnder item) := by
        simp only [← evaluateBranch_eq]
        exact id_map _
      rw [evaluateItems_eq]
      refine (itemsPass.result_conditional chain hends [] state).trans (bind_congr fun chosen => ?_)
      simp only [hadd, result_itemsPass, map_eq_pure_bind]
  case entries =>
      refine ⟨_, scope.chooses_choose chain.branches chain.otherwise,
        fun state target rest hends => ?_⟩
      rw [← result_entriesPass]
      refine (entriesPass.result_conditional chain hends target state).trans
        (bind_congr fun chosen => ?_)
      simp only [Pass.add, result_entriesPass, bind_map_left]
      rfl
  case orphanItem =>
      intro before item after directive word hdirective hword hopen
      obtain ⟨error, herror, hfirst⟩ :=
        itemsPass.result_orphan hdirective hword hopen [] after
      rw [← evaluateItems_eq] at herror hfirst
      exact ⟨error, herror, hfirst⟩
  case orphanEntry =>
      intro before entry after directive word hdirective hword hopen target
      obtain ⟨error, herror, hfirst⟩ :=
        entriesPass.result_orphan hdirective hword hopen target after
      rw [result_entriesPass] at herror hfirst
      exact ⟨error, herror, hfirst⟩

namespace Modes

/-- Two parameters, of which the second one is set. -/
def scope : Scope :=
  ⟨{ parameters := [("full", .bool false), ("fast", .bool true)] }, "pipeline.yml"⟩

/-- A step under a directive. -/
def branch (directive command : String) : Yaml.Value :=
  .mapping [(.string (writeExpansion directive), .sequence [plainStep command])]

/-- The second condition holds, and the third is no expression. -/
def steps : Conditional Directive.ofItem? where
  condition := "parameters.full"
  first := branch "if parameters.full" "full"
  elseIfs := [("parameters.fast", branch "elseif parameters.fast" "fast"),
    ("eq(", branch "elseif eq(" "broken")]
  otherwise := some (branch "else" "slow")
  isIf := by decide +kernel
  areElseIfs := by decide +kernel
  isElse := by rintro last ⟨⟩; decide +kernel

/-- A field under a directive. -/
def field (directive name : String) : Yaml.Value × Yaml.Value :=
  (.string (writeExpansion directive), .mapping [(.string name, .bool true)])

/-- The condition does not hold. -/
def fields : Conditional fun entry : Yaml.Value × Yaml.Value => Directive.ofYamlKey? entry.1 where
  condition := "parameters.full"
  first := field "if parameters.full" "strict"
  elseIfs := []
  otherwise := some (field "else" "lenient")
  isIf := by decide +kernel
  areElseIfs := by simp
  isElse := by rintro last ⟨⟩; decide +kernel

theorem holds_full : scope.holds "parameters.full" = .ok false :=
  eq_ok_of_toOption (by decide +kernel)

theorem holds_fast : scope.holds "parameters.fast" = .ok true :=
  eq_ok_of_toOption (by decide +kernel)

theorem evaluateMerged_lenient :
    evaluateMerged scope (field "else" "lenient").2 = .ok [(.string "lenient", .bool true)] := by
  have hname : scope.evaluateKey (.string "lenient") = .ok (.string "lenient") :=
    eq_ok_of_toOption (by decide +kernel)
  have hdirective : Directive.ofYamlKey? (.string "lenient") = none := by decide +kernel
  simp only [field, evaluateMerged, evaluateEntries, hdirective, hname, evaluate]
  rfl

end Modes

/-- The third condition and the other bodies are not looked at, the `else` of a mapping is taken
where its `if` does not hold, and an `else` behind a step is an error. -/
theorem one_branch_is_expanded_modes :
    evaluateItems Modes.scope none (Modes.steps.elements ++ [plainStep "always"]) =
        .ok [plainStep "fast", plainStep "always"] ∧
      evaluateEntries Modes.scope none [] Modes.fields.elements =
        .ok [(.string "lenient", .bool true)] ∧
      Directive.ofItem? (Modes.branch "else" "slow") = some .otherwise ∧
      Directive.otherwise.chainWord? = some "else" ∧
      ¬ itemsPass.LeavesOpen [plainStep "always"] ∧
      evaluateItems Modes.scope none [plainStep "always", Modes.branch "else" "slow"] =
        .error ⟨.unchainedDirective "else", some "pipeline.yml"⟩ := by
  have hstep (command : String) (hplain : hasExpansion command = false) :=
    evaluateItems_plainStep Modes.scope command hplain
  have hopen : ¬ itemsPass.LeavesOpen [plainStep "always"] := by
    rintro ⟨last, hlast, directive, hdirective, -⟩
    obtain rfl : plainStep "always" = last := Option.some.inj hlast
    cases (ofItem?_plainStep "always").symm.trans hdirective
  have helse : Directive.ofItem? (Modes.branch "else" "slow") = some .otherwise := by
    decide +kernel
  obtain ⟨hitems, hentries, horphan, -⟩ := one_branch_is_expanded Modes.scope
  refine ⟨?_, ?_, helse, rfl, hopen, ?_⟩
  · obtain ⟨choice, hchooses, hexpand⟩ := hitems Modes.steps
    have hchoice : choice = .ok (some (Modes.branch "elseif parameters.fast" "fast")) :=
      hchooses.holding [("parameters.full", _)] ("parameters.fast", _) [("eq(", _)] rfl
        (by simpa using Modes.holds_full) Modes.holds_fast
    rw [hexpand none _ nofun, hchoice]
    change (evaluateItems Modes.scope none [plainStep "fast"] >>= _) = _
    rw [hstep "fast" (by decide +kernel), hstep "always" (by decide +kernel)]
    rfl
  · obtain ⟨choice, hchooses, hexpand⟩ := hentries Modes.fields
    have hchoice : choice = .ok (some (Modes.field "else" "lenient")) :=
      hchooses.remaining (by simpa [Conditional.branches, Modes.fields] using Modes.holds_full)
    have hempty := hexpand none [] [] nofun
    rw [List.append_nil, hchoice] at hempty
    rw [hempty]
    change (evaluateMerged Modes.scope (Modes.field "else" "lenient").2 >>= _) = _
    rw [Modes.evaluateMerged_lenient]
    rfl
  · obtain ⟨error, herror, hfirst⟩ :=
      horphan [plainStep "always"] (Modes.branch "else" "slow") [] _ _ helse rfl hopen
    rw [hfirst _ (hstep "always" (by decide +kernel))] at herror
    exact herror

end BuildPipeline.Template
