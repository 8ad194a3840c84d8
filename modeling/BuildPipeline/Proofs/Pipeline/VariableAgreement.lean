import BuildPipeline.Proofs.Pipeline.VariableSections
import BuildPipeline.Proofs.Run.Declarations
import BuildPipeline.Proofs.Template.LiteralVariables

/-!
# Variables before and after an expansion

The expressions of a document see its variables as they are written, and a run sees them as they
come out of the expansion.  This module follows a literal definition from the document to the
environment of the run.

* `resolve_append`, `exists_of_evaluateItems_append` and `lookUp?_of_resolveLists` find the
  definition again after each of the steps that a section goes through.
* `Root.Keeps` is what has to hold on the way: nothing replaces the section, the definition or the
  variable.
* `Root.definesLast_of_listed` and `Root.definesLast_of_mapped` are the two ways in which variables
  are written.
* `literal_variables_keep_their_value` joins this with the reading of literal variables and with the
  declarations of a run; `included_definition_replaces_literal_value` is a document in which a
  template gets in the way.
-/

namespace BuildPipeline

open Yaml (Entries)
open Yaml.Value (lookUp? OpensNothing RefersToNothing HasDistinctKeys KeysDiffer
  EntriesAreTransparent AreTransparent)

namespace Template

open Expression (parse)

/-! ## Resolving -/

/-- Nodes are put in front of what follows, one list after the other. -/
theorem append_outcomes_assoc (first nodes others : Except Error (List Yaml.Value)) :
    (first >>= fun front => (nodes >>= fun nodes => others.map (nodes ++ ·)).map (front ++ ·)) =
      (first >>= fun front => nodes.map (front ++ ·)) >>= fun nodes =>
        others.map (nodes ++ ·) := by
  cases first <;> cases nodes <;> cases others <;> simp [bind, Except.bind, Except.map]

/-- A list may be cut anywhere: its parts are resolved one after the other. -/
theorem resolve_append [Yaml.Codec] {library : Library} {stack : Stack} {level : Level}
    {file : String} (items rest : List Yaml.Value) :
    resolve library stack level file (items ++ rest) =
      resolve library stack level file items >>= fun nodes =>
        (resolve library stack level file rest).map (nodes ++ ·) := by
  induction items with
  | nil =>
      rw [List.nil_append, resolve.eq_1]
      cases resolve library stack level file rest <;> rfl
  | cons item items ih =>
      rw [List.cons_append]
      cases hreference : reference? level item with
      | some reference =>
          have hcons (rest : List Yaml.Value) : resolve library stack level file (item :: rest) =
              library.expandReference stack level reference item ⟨{}, file⟩ >>= fun nodes =>
                (resolve library stack level file rest).map (nodes ++ ·) :=
            resolve_cons_of_reference ⟨{}, file⟩ rest hreference
          rw [hcons, hcons, ih, append_outcomes_assoc]
      | none =>
          by_cases hmapping : ∃ entries, item = .mapping entries
          · obtain ⟨entries, rfl⟩ := hmapping
            rw [resolve_cons_of_node _ hreference, resolve_cons_of_node _ hreference, ih,
              append_outcomes_assoc]
          · have hcons (rest : List Yaml.Value) : resolve library stack level file (item :: rest) =
                (resolve library stack level file rest).map (item :: ·) :=
              resolve_cons_of_leaf rest hreference (not_exists.mp hmapping)
            rw [hcons, hcons, ih]
            exact append_outcomes_assoc (.ok [item]) _ _

section Resolving

variable {library : Library} {stack : Stack} {file name : String} {levels : List Level}
  {entries resolved : Entries}

/-- Resolving the lists of some levels leaves all other entries alone. -/
theorem lookUp?_of_resolveLists [Yaml.Codec] (hdistinct : levels.Nodup)
    (hname : ∀ level ∈ levels, level.sectionName ≠ name)
    (hresolved : resolveLists library stack file levels entries = .ok resolved) :
    lookUp? name resolved = lookUp? name entries := by
  obtain ⟨trail, hexpansion⟩ := exists_expansion library stack file (.node levels entries)
  have houtcome : (Piece.node levels entries).outcome library stack file =
      .ok [.mapping resolved] := by
    rw [Piece.outcome_node, hresolved]
    rfl
  obtain ⟨_, hsame, -, hkept⟩ := hexpansion.resolvesTo _ houtcome hdistinct
  cases hsame
  exact hkept name hname

/-- There are no lists in the nodes of a list of variables. -/
theorem resolve_vars_cons [Yaml.Codec] (rest : List Yaml.Value)
    (hreference : reference? .vars (.mapping entries) = none) :
    resolve library stack .vars file (.mapping entries :: rest) =
      (resolve library stack .vars file rest).map (.mapping entries :: ·) := by
  rw [resolve_cons_of_node rest hreference, Piece.outcome_node, Level.children, resolveLists.eq_1]
  rfl

/-- A node that refers to nothing, between what the nodes before it and behind it resolve to. -/
theorem exists_split_of_resolve_vars [Yaml.Codec] {front behind nodes : List Yaml.Value}
    (hrefers : RefersToNothing entries)
    (hnodes : resolve library stack .vars file (front ++ .mapping entries :: behind) = .ok nodes) :
    ∃ before after, nodes = before ++ .mapping entries :: after ∧
      resolve library stack .vars file behind = .ok after := by
  rw [resolve_append] at hnodes
  obtain ⟨before, -, hnodes⟩ := bind_eq_ok_iff.mp hnodes
  obtain ⟨_, hrest, rfl⟩ := exists_of_map_eq_ok hnodes
  rw [resolve_vars_cons behind (reference?_of_refersToNothing .vars rfl hrefers)] at hrest
  obtain ⟨after, hafter, rfl⟩ := exists_of_map_eq_ok hrest
  exact ⟨before, after, rfl, hafter⟩

theorem exists_vars_of_resolveLists [Yaml.Codec] {items : List Yaml.Value}
    (hvars : lookUp? "variables" entries = some (.sequence items))
    (hresolved : resolveLists library stack file rootLevels entries = .ok resolved) :
    ∃ nodes, resolve library stack .vars file items = .ok nodes ∧
      lookUp? "variables" resolved = some (.sequence nodes) := by
  have hlist : lookUp? Level.vars.sectionName entries = some (.sequence items) := hvars
  rw [rootLevels, resolveLists_of_list hlist] at hresolved
  obtain ⟨nodes, hnodes, hresolved⟩ := bind_eq_ok_iff.mp hresolved
  refine ⟨nodes, hnodes, ?_⟩
  rw [lookUp?_of_resolveLists (by decide) (by decide) hresolved]
  exact Yaml.Value.lookUp?_insert_self ..

/-- Variables that are no list stay. -/
theorem lookUp?_vars_of_resolveLists [Yaml.Codec]
    (hvars : ∀ items, lookUp? "variables" entries ≠ some (.sequence items))
    (hresolved : resolveLists library stack file rootLevels entries = .ok resolved) :
    lookUp? "variables" resolved = lookUp? "variables" entries := by
  have hnoList : ∀ items, lookUp? Level.vars.sectionName entries ≠ some (.sequence items) := hvars
  rw [rootLevels, resolveLists_of_noList hnoList] at hresolved
  exact lookUp?_of_resolveLists (by decide) (by decide) hresolved

end Resolving

/-! ## Evaluating -/

section Evaluating

variable {scope : Scope}

theorem evaluate_of_scalarText? {value : Yaml.Value} {text : String}
    (htext : value.scalarText? = some text) (hplain : OpensNothing text) :
    evaluate scope value = .ok value := by
  cases value with
  | string content =>
      cases htext
      rw [evaluate, scope.evaluateText_of_unopened hplain]
  | sequence | mapping | tagged => cases htext
  | _ => rfl

theorem text?_of_evaluate {value result : Yaml.Value} (htext : value.text? = none)
    (hresult : evaluate scope value = .ok result) : result.text? = none := by
  cases value with
  | string content => cases htext
  | sequence items =>
      rw [evaluate] at hresult
      obtain ⟨_, -, hresult⟩ := bind_eq_ok_iff.mp hresult
      cases hresult
      rfl
  | mapping entries =>
      rw [evaluate] at hresult
      obtain ⟨_, -, hresult⟩ := bind_eq_ok_iff.mp hresult
      cases hresult
      rfl
  | _ => cases hresult; exact htext

/-- What is the same as a scalar that is no text is no text either. -/
theorem text?_of_same {key other : Yaml.Value} {name : String} (htext : key.text? = none)
    (hname : key.scalarText? = some name) (hsame : key.same other = true) : other.text? = none := by
  cases key with
  | string => cases htext
  | sequence | mapping | tagged => cases hname
  | null | bool | int | float =>
      cases other with
      | string | tagged => simp [Yaml.Value.same] at hsame
      | _ => rfl

theorem eq_mapping_of_entries? {value : Yaml.Value} {entries : Entries}
    (htransparent : value.IsTransparent) (hentries : value.entries? = some entries) :
    value = .mapping entries := by
  rw [Yaml.Value.entries?, htransparent.untagged] at hentries
  cases value with
  | mapping _ => cases hentries; rfl
  | _ => cases hentries

theorem eq_string_of_text? {value : Yaml.Value} {text : String}
    (htransparent : value.IsTransparent) (htext : value.text? = some text) :
    value = .string text := by
  rw [Yaml.Value.text?, htransparent.untagged] at htext
  cases value with
  | string _ => cases htext; rfl
  | _ => cases htext

theorem refersToNothing_evaluateEntries {entries result : Entries}
    (hkeys : ∀ entry ∈ entries, entry.1.IsConcrete) (hdistinct : HasDistinctKeys entries)
    (hrefers : RefersToNothing entries)
    (hresult : evaluateEntries scope none [] entries = .ok result) : RefersToNothing result := by
  obtain ⟨hmissing, hfound⟩ := lookUp?_evaluateEntries_plain hkeys hdistinct hresult "template"
  rw [RefersToNothing] at hrefers ⊢
  cases hsource : lookUp? "template" entries with
  | none =>
      rw [hmissing hsource]
      rfl
  | some source =>
      obtain ⟨evaluated, hevaluated, hsame⟩ := hfound source hsource
      rw [hsource] at hrefers
      rw [hsame]
      exact text?_of_evaluate hrefers hevaluated

/-- What evaluating leaves alone stays under its name. -/
theorem lookUp?_evaluateEntries_of_fixed {entries result : Entries} {name : String}
    {value : Yaml.Value} (hkeys : ∀ entry ∈ entries, entry.1.IsConcrete)
    (hdistinct : HasDistinctKeys entries)
    (hresult : evaluateEntries scope none [] entries = .ok result)
    (hvalue : lookUp? name entries = some value) (hfixed : evaluate scope value = .ok value) :
    lookUp? name result = some value := by
  obtain ⟨evaluated, hevaluated, hfound⟩ :=
    (lookUp?_evaluateEntries_plain hkeys hdistinct hresult name).2 value hvalue
  cases hfixed.symm.trans hevaluated
  exact hfound

/-- The fields of a literal definition mean the same after they are evaluated. -/
theorem eq_definition_of_evaluateEntries {fields node : Entries} {label source : Yaml.Value}
    {name value : String} {var : Variable} (htransparent : EntriesAreTransparent fields)
    (hkeys : ∀ field ∈ fields, field.1.IsConcrete) (hdistinct : HasDistinctKeys fields)
    (hrefers : RefersToNothing fields)
    (hlabel : lookUp? "name" fields = some label) (hname : label.scalarText? = some name)
    (hsource : lookUp? "value" fields = some source) (hvalue : source.scalarText? = some value)
    (hplainName : OpensNothing name) (hplainValue : OpensNothing value)
    (hnode : evaluateEntries scope none [] fields = .ok node)
    (hgives : Variable.reader.Gives (.mapping node) var) :
    ∃ lock, var = .definition name value lock ∧
      (lookUp? "readonly" fields = some (.bool true) → lock = true) := by
  have hfixed {key : String} {content : Yaml.Value} (hcontent : lookUp? key fields = some content)
      (hsame : evaluate scope content = .ok content) : lookUp? key node = some content :=
    lookUp?_evaluateEntries_of_fixed hkeys hdistinct hnode hcontent hsame
  obtain ⟨lock, rfl, hlock⟩ := Variable.eq_definition
    (entriesAreTransparent_evaluateEntries scope none [] fields htransparent trivial hnode)
    (refersToNothing_evaluateEntries hkeys hdistinct hrefers hnode)
    (hfixed hlabel (evaluate_of_scalarText? hname hplainName)) hname
    (hfixed hsource (evaluate_of_scalarText? hvalue hplainValue)) hvalue hgives
  exact ⟨lock, rfl, fun hreadonly => hlock (hfixed hreadonly rfl)⟩

/-- An item that is no directive, between what comes of the items before it and behind it. -/
theorem exists_of_evaluateItems_append {before after values : List Yaml.Value} {item : Yaml.Value}
    (hplain : Directive.ofItem? item = none)
    (hvalues : evaluateItems scope none (before ++ item :: after) = .ok values) :
    ∃ front inner others, evaluateItem scope item = .ok inner ∧
      evaluateItems scope none after = .ok others ∧ values = front ++ (inner ++ others) := by
  rw [evaluateItems_eq, Pass.result_append_of_fresh (Pass.not_goesOn_of_plain after hplain),
    ← evaluateItems_eq] at hvalues
  obtain ⟨front, -, hvalues⟩ := bind_eq_ok_iff.mp hvalues
  rw [Pass.result_plain hplain] at hvalues
  obtain ⟨target, htarget, hvalues⟩ := bind_eq_ok_iff.mp hvalues
  obtain ⟨inner, hinner, hsame⟩ := exists_of_map_eq_ok htarget
  cases hsame
  rw [result_itemsPass] at hvalues
  obtain ⟨others, hothers, hsame⟩ := exists_of_map_eq_ok hvalues
  cases hsame
  exact ⟨front, inner, others, hinner, hothers, List.append_assoc ..⟩

/-- A scalar key that is no text is still there in the end. -/
theorem exists_mem_of_evaluateEntries {before after entries : Entries} {key content : Yaml.Value}
    {name : String} (htext : key.text? = none) (hname : key.scalarText? = some name)
    (hentries : evaluateEntries scope none [] (before ++ (key, content) :: after) = .ok entries) :
    ∃ entry ∈ entries, entry.1.text? = none := by
  have hconcrete : key.IsConcrete := by
    cases key with
    | string => cases htext
    | sequence | mapping | tagged => cases hname
    | _ => trivial
  obtain ⟨front, evaluated, -, hrest⟩ := exists_of_evaluateEntries_append
    (ofYamlKey?_of_isConcrete hconcrete) (evaluateKey_of_isConcrete scope hconcrete) hentries
  refine evaluateEntries_keeps (p := fun entries => ∃ entry ∈ entries, entry.1.text? = none) ?_ ?_
    hrest
  · rintro entries key value ⟨entry, hmem, hkey⟩
    obtain ⟨new, hnew, hsame⟩ := Yaml.Value.exists_mem_insert hmem key value
    exact ⟨new, hnew, by rw [hsame, hkey]⟩
  · obtain ⟨entry, hmem, hkey⟩ := Yaml.Value.exists_mem_insert_self key evaluated front
    refine ⟨entry, hmem, ?_⟩
    rcases hkey with hkey | hsame
    · rw [hkey, htext]
    · exact text?_of_same htext hname hsame

end Evaluating

/-! ## The section of variables -/

namespace Root

/-- The scope of the document. -/
def scope (root : Root) : Scope :=
  root.library.scope root.arguments root.file

/-- What a part of a section comes to, with its directives and its templates, sets the variable. -/
def Defines [Yaml.Codec] (root : Root) (name : String) : Yaml.Value → Prop
  | .sequence items =>
    ∃ values nodes, evaluateItems root.scope none items = .ok values ∧
      resolve root.library root.stack .vars root.file values = .ok nodes ∧
        ∃ node ∈ nodes, ∃ value lock, Variable.reader.Gives node (.definition name value lock)
  | .mapping entries => root.scope.Sets name entries
  | _ => False

/-- Nothing changes the definition of a variable on its way into the pipeline.  It has these fields,
and stands in the section `body`, with `behind` behind it. -/
structure Keeps [Yaml.Codec] (root : Root) (name : String) (body : Yaml.Value) (fields : Entries)
    (behind : Yaml.Value) : Prop where
  transparent : body.IsTransparent
  plainKeys : ∀ field ∈ fields, field.1.IsConcrete
  noReference : RefersToNothing fields
  /-- The section is not replaced by what stands behind it in the document. -/
  stays : ∀ front rest, root.document = front ++ (.string "variables", body) :: rest →
    ¬ root.scope.Sets "variables" rest
  last : ¬ root.Defines name behind ∨ lookUp? "readonly" fields = some (.bool true)

variable {root : Root} {name value : String} {evaluated resolved : Entries} {pipeline : Pipeline}

/-- The variable has the definition among the others, and no definition behind it counts. -/
def DefinesLast (name value : String) (vars : List Variable) : Prop :=
  ∃ earlier lock later, vars = earlier ++ .definition name value lock :: later ∧
    (lock = true ∨ ∀ other lock, .definition name other lock ∉ later)

theorem definesLast_of_listed [Yaml.Codec] {before after values : List Yaml.Value}
    {item : Yaml.Value} {fields : Entries} (hfields : item.entries? = some fields)
    (hliteral : literalDefinition? item = some (name, value))
    (hplainName : OpensNothing name) (hplainValue : OpensNothing value)
    (hkeeps : root.Keeps name (.sequence (before ++ item :: after)) fields (.sequence after))
    (hdistinct : (Yaml.Value.sequence (before ++ item :: after)).KeysDiffer)
    (hvalues : evaluateItems root.scope none (before ++ item :: after) = .ok values)
    (hvars : lookUp? "variables" evaluated = some (.sequence values))
    (hresolved : resolveLists root.library root.stack root.file rootLevels evaluated = .ok resolved)
    (hgives : Pipeline.reader.Gives (.mapping resolved) pipeline) :
    DefinesLast name value pipeline.vars := by
  have hmem : item ∈ before ++ item :: after := List.mem_append_right _ List.mem_cons_self
  have htransparent := Yaml.Value.areTransparent_iff.mp hkeeps.transparent item hmem
  obtain rfl : item = .mapping fields := eq_mapping_of_entries? htransparent hfields
  obtain ⟨_, label, source, hsame, hlabel, hname, hsource, hvalue⟩ :=
    exists_of_literalDefinition? hliteral
  cases hsame
  have hkeys : HasDistinctKeys fields :=
    (Yaml.Value.everywhereInItems_iff.mp hdistinct _ hmem).1
  -- The item stays where it is when the section is evaluated, and when it is resolved.
  have hplain : Directive.ofItem? (.mapping fields) = none := ofItem?_of_keys fun _ hsame =>
    Option.some.inj hsame ▸ hkeeps.plainKeys
  obtain ⟨front, inner, others, hinner, hothers, rfl⟩ :=
    exists_of_evaluateItems_append hplain hvalues
  rw [evaluateItem] at hinner
  obtain ⟨node, hnode, hinner⟩ := bind_eq_ok_iff.mp hinner
  cases hinner
  obtain ⟨nodes, hnodes, hlist⟩ := exists_vars_of_resolveLists hvars hresolved
  have hrefers := refersToNothing_evaluateEntries hkeeps.plainKeys hkeys hkeeps.noReference hnode
  obtain ⟨before, behind, rfl, hbehind⟩ := exists_split_of_resolve_vars hrefers hnodes
  obtain ⟨earlier, var, later, hsplit, hvar, hlater⟩ :=
    Variable.exists_split_of_list (Pipeline.gives_vars hgives hlist)
  obtain ⟨lock, rfl, hlock⟩ := eq_definition_of_evaluateEntries htransparent hkeeps.plainKeys hkeys
    hkeeps.noReference hlabel hname hsource hvalue hplainName hplainValue hnode hvar
  refine ⟨earlier, lock, later, hsplit, ?_⟩
  rcases hkeeps.last with hundefined | hreadonly
  · refine .inr fun other lock hdefinition => hundefined ?_
    obtain ⟨item, hitem, hread⟩ := hlater _ hdefinition
    exact ⟨others, behind, hothers, hbehind, item, hitem, other, lock, hread⟩
  · exact .inl (hlock hreadonly)

/-- A mapping is read as variables only if its keys are texts, so a scalar key is one. -/
theorem eq_string_of_vars {before after entries : Entries} {key content : Yaml.Value}
    {vars : List Variable} (hname : key.scalarText? = some name)
    (hentries : evaluateEntries root.scope none [] (before ++ (key, content) :: after) =
      .ok entries)
    (hgives : Variable.listReader.Gives (.mapping entries) vars) : key = .string name := by
  cases htext : key.text? with
  | some text =>
      cases key with
      | string _ => cases hname; rfl
      | tagged => cases hname
      | _ => cases htext
  | none =>
      obtain ⟨entry, hmem, hkey⟩ := exists_mem_of_evaluateEntries htext hname hentries
      obtain ⟨front, behind, rfl⟩ := List.append_of_mem hmem
      obtain ⟨_, _, _, -, ⟨_, _, htext, -⟩, -⟩ := Variable.exists_split_of_mapping hgives
      cases hkey.symm.trans htext

theorem definesLast_of_mapped [Yaml.Codec] {before after entries : Entries}
    {key content : Yaml.Value} (hliteral : literalEntry? (key, content) = some (name, value))
    (hplainName : OpensNothing name) (hplainValue : OpensNothing value)
    (hkeeps : root.Keeps name (.mapping (before ++ (key, content) :: after))
      [(.string "name", key), (.string "value", content)] (.mapping after))
    (hentries : evaluateEntries root.scope none [] (before ++ (key, content) :: after) =
      .ok entries)
    (hvars : lookUp? "variables" evaluated = some (.mapping entries))
    (hresolved : resolveLists root.library root.stack root.file rootLevels evaluated = .ok resolved)
    (hgives : Pipeline.reader.Gives (.mapping resolved) pipeline) :
    DefinesLast name value pipeline.vars := by
  obtain ⟨hname, hvalue⟩ := scalarTexts_of_literalEntry? hliteral
  have hmapping : lookUp? "variables" resolved = some (.mapping entries) := by
    have hlist : ∀ items, lookUp? "variables" evaluated ≠ some (.sequence items) := by
      intro items hitems
      cases hvars.symm.trans hitems
    rw [lookUp?_vars_of_resolveLists hlist hresolved, hvars]
  have hread := Pipeline.gives_vars hgives hmapping
  obtain rfl := eq_string_of_vars hname hentries hread
  -- The entry has its value, at one place in the mapping.
  have hopen : lookUp? "readonly" [(.string "name", .string name), (.string "value", content)] =
      none := rfl
  have hsets : ¬ root.scope.Sets name after :=
    hkeeps.last.resolve_right (by rw [hopen]; intro hsame; cases hsame)
  obtain ⟨_, hcontent, hfound⟩ := lookUp?_evaluateEntries_last hplainName hsets hentries
  cases (evaluate_of_scalarText? hvalue hplainValue).symm.trans hcontent
  have hdistinct : HasDistinctKeys entries :=
    evaluateEntries_keeps (fun key value hbefore => hbefore.insert key value) List.Pairwise.nil
      hentries
  have hvisible : EntriesAreTransparent entries :=
    entriesAreTransparent_evaluateEntries _ none [] _ hkeeps.transparent trivial hentries
  obtain ⟨front, behind, rfl⟩ := Yaml.Value.exists_split_of_lookUp? hfound
  obtain ⟨earlier, var, later, hsplit, hvar, hlater⟩ := Variable.exists_split_of_mapping hread
  obtain ⟨_, _, hsame, hscalar, rfl⟩ := hvar
  cases hsame
  cases hvalue.symm.trans hscalar
  refine ⟨earlier, false, later, hsplit, .inr fun other lock hdefinition => ?_⟩
  obtain ⟨entry, hmem, _, _, htext, -, hsame⟩ := hlater _ hdefinition
  cases hsame
  have htransparent : entry.1.IsTransparent :=
    (Yaml.Value.entriesAreTransparent_iff.mp hvisible entry
      (List.mem_append_right _ (List.mem_cons_of_mem _ hmem))).1.2
  have hkey : entry.1 = .string name := eq_string_of_text? htransparent htext
  have hdiffers := List.rel_of_pairwise_cons (List.pairwise_append.mp hdistinct).2.1 hmem
  rw [hkey] at hdiffers
  simp [Yaml.Value.same] at hdiffers

theorem vars_of_prepare [Yaml.Codec] {files : Files} {repository source origin : String}
    {supplied : Arguments}
    (hroot : Root.prepare files repository source origin supplied = .ok root) :
    root.library.vars = literalVariables (lookUp? "variables" root.document) := by
  obtain ⟨_, -, hroot⟩ := bind_eq_ok_iff.mp hroot
  obtain ⟨_, -, hroot⟩ := bind_eq_ok_iff.mp hroot
  obtain ⟨_, -, hroot⟩ := bind_eq_ok_iff.mp hroot
  cases hroot
  rfl

theorem keysDiffer_of_lookUp? [Yaml.Codec] (hkeys : Yaml.Codec.TellsKeysApart)
    {files : Files} {repository source origin : String} {supplied : Arguments} {body : Yaml.Value}
    (hroot : Root.prepare files repository source origin supplied = .ok root)
    (hbody : lookUp? name root.document = some body) : body.KeysDiffer := by
  obtain ⟨-, document, hdocument, hsame⟩ := Root.prepare_eq_ok hroot
  obtain ⟨front, behind, hsplit⟩ := Yaml.Value.exists_split_of_lookUp? hbody
  have htaken : (.string name, body) ∈ Yaml.Value.takeOut "parameters" document := by
    rw [← hsame, hsplit]
    exact List.mem_append_right _ List.mem_cons_self
  have hmem := Yaml.Value.mem_of_mem_takeOut htaken
  unfold rootEntries at hdocument
  split at hdocument
  case h_1 entries hread =>
      cases hdocument
      exact (Yaml.Value.everywhereInEntries_iff.mp (hkeys source _ hread).2 _ hmem).2
  case h_2 =>
      cases hdocument
      cases hmem
  case h_3 => cases hdocument
  case h_4 => cases hdocument

theorem definesLast_of_expand [Yaml.Codec] (hkeys : Yaml.Codec.TellsKeysApart)
    {files : Files} {repository source origin : String}
    {supplied : Arguments} {expanded : Expanded} {body behind : Yaml.Value} {fields : Entries}
    (hroot : Root.prepare files repository source origin supplied = .ok root)
    (hexpand : expand files repository source origin supplied = .ok expanded)
    (hbody : lookUp? "variables" root.document = some body)
    (hliteral : LastLiteral name value body fields behind)
    (hplainName : OpensNothing name) (hplainValue : OpensNothing value)
    (hkeeps : root.Keeps name body fields behind) :
    DefinesLast name value expanded.pipeline.vars := by
  have hdistinct := keysDiffer_of_lookUp? hkeys hroot hbody
  rw [Root.expand_eq, hroot] at hexpand
  obtain ⟨_, hsame, hexpand⟩ := bind_eq_ok_iff.mp hexpand
  cases hsame
  obtain ⟨evaluated, hevaluated, hexpand⟩ := bind_eq_ok_iff.mp hexpand
  obtain ⟨resolved, hresolved, hexpand⟩ := bind_eq_ok_iff.mp hexpand
  unfold Root.read at hexpand
  split at hexpand
  case h_2 => cases hexpand
  case h_1 pipeline hread =>
      cases hexpand
      have hgives := Yaml.Reader.gives_of_readHeld hread
      change DefinesLast name value pipeline.vars
      -- Nothing behind the section replaces it, so the pipeline has what it is evaluated to.
      obtain ⟨front, rest, hdocument⟩ := Yaml.Value.exists_split_of_lookUp? hbody
      have hentries : evaluateEntries root.scope none []
          (front ++ (.string "variables", body) :: rest) = .ok evaluated := hdocument ▸ hevaluated
      obtain ⟨result, hresult, hvars⟩ :=
        lookUp?_evaluateEntries_last (by decide) (hkeeps.stays front rest hdocument) hentries
      cases hliteral with
      | listed hfields hliteral hlast =>
          rw [evaluate] at hresult
          obtain ⟨values, hvalues, hresult⟩ := bind_eq_ok_iff.mp hresult
          cases hresult
          exact definesLast_of_listed hfields hliteral hplainName hplainValue hkeeps hdistinct
            hvalues hvars hresolved hgives
      | mapped hliteral hlast =>
          rw [evaluate] at hresult
          obtain ⟨entries, hentries, hresult⟩ := bind_eq_ok_iff.mp hresult
          cases hresult
          exact definesLast_of_mapped hliteral hplainName hplainValue hkeeps hentries hvars
            hresolved hgives

end Root

/-! ## The two readings -/

/-- A literal variable of a document has the value of its last literal definition in every scope of
the expansion.  If nothing changes that definition on its way into the pipeline and nothing behind
it sets the variable again, the pipeline has it as the last definition of the name, or as one that
locks the name.  So the variable has the same value at run time, if there is no runtime span in the
value, and if no earlier definition fails or locks the name. -/
theorem literal_variables_keep_their_value [Yaml.Codec] (hkeys : Yaml.Codec.TellsKeysApart)
    {files : Files} {repository source origin : String} {supplied : Arguments} {root : Root}
    {expanded : Expanded} {name value : String}
    (hroot : Root.prepare files repository source origin supplied = .ok root)
    (hexpand : expand files repository source origin supplied = .ok expanded)
    (hvisible : root.library.vars.get? name = some value)
    (hplainName : OpensNothing name) (hplainValue : OpensNothing value) :
    (∀ scope, root.library.HasScope scope → ∀ text, NamesVariable scope.context text name →
      scope.evaluateText ("$\x7b\x7b" ++ text ++ "\x7d\x7d") = .ok (.string value)) ∧
    (∃ body fields behind, lookUp? "variables" root.document = some body ∧
      LastLiteral name value body fields behind) ∧
    ∀ body fields behind, lookUp? "variables" root.document = some body →
      LastLiteral name value body fields behind → root.Keeps name body fields behind →
        ∃ earlier lock later,
          expanded.pipeline.vars = earlier ++ .definition name value lock :: later ∧
          (lock = true ∨ ∀ other lock, .definition name other lock ∉ later) ∧
          ∀ base, Text.contains value "$[" = false →
            (∀ other, .definition name other true ∉ earlier) →
            (Environment.declare base {} earlier).2 = none →
              (Environment.declare base {} expanded.pipeline.vars).1.get? name = some value := by
  refine ⟨fun scope hscope text => hscope.evaluateText_variable hvisible, ?_, ?_⟩
  · rw [Root.vars_of_prepare hroot] at hvisible
    exact exists_lastLiteral hvisible
  · intro body fields behind hbody hliteral hkeeps
    obtain ⟨earlier, lock, later, hsplit, hlast⟩ :=
      Root.definesLast_of_expand hkeys hroot hexpand hbody hliteral hplainName hplainValue hkeeps
    refine ⟨earlier, lock, later, hsplit, hlast, fun base hplain hunlocked hearlier => ?_⟩
    rw [hsplit]
    exact Environment.get?_declare_of_last hearlier hunlocked hlast hplain

namespace Flavor

def source : String :=
  "variables:\n- name: flavor\n  value: docs\n- template: vars.yml\nsteps:\n" ++
    "- script: make $\x7b\x7b variables.flavor \x7d\x7d $(flavor)\n"

/-- A template that sets one variable. -/
def template (name value : String) : String :=
  "variables:\n  " ++ name ++ ": " ++ value ++ "\n"

def files (name value : String) : Files where
  entries := [(["vars.yml"], .file (template name value))]

def reference : Yaml.Value := .mapping [(.string "template", .string "vars.yml")]

def definition (name value : String) : Yaml.Value :=
  .mapping [(.string "name", .string name), (.string "value", .string value)]

def steps (command : String) : Yaml.Value × Yaml.Value :=
  (.string "steps", .sequence [.mapping [(.string "script", .string command)]])

/-- A document with these variables behind the literal one. -/
def document (behind : List Yaml.Value) (command : String) : Entries :=
  [(.string "variables", .sequence (definition "flavor" "docs" :: behind)), steps command]

def library (name value : String) : Library where
  files := files name value
  repository := "/"
  vars := [("flavor", "docs")]

def root (name value : String) : Root where
  library := library name value
  file := "/pipeline.yml"
  declared := []
  arguments := []
  document := document [reference] "make $\x7b\x7b variables.flavor \x7d\x7d $(flavor)"

def stack : Stack := [⟨"/pipeline.yml", signature []⟩]

/-- The scope of the document and, but for the file, of the template. -/
def scope (file : String) : Scope :=
  ⟨{ vars := [("flavor", .string "docs")] }, file⟩

def call (name value : String) : Template.Call where
  path := "/vars.yml"
  entries := [(.string "variables", .mapping [(.string name, .string value)])]
  arguments := []

def pipeline (name value : String) : Pipeline where
  vars := [.definition "flavor" "docs" false, .definition name value false]
  steps := [{ action := .shell .script "make docs $(flavor)" none }]

/-- How the document is read. -/
theorem readings :
    rootEntries source "/pipeline.yml" =
        .ok (document [reference] "make $\x7b\x7b variables.flavor \x7d\x7d $(flavor)") ∧
      Expression.tokenize " variables.flavor " =
        .ok [.identifier "variables", .dot, .identifier "flavor"] :=
  ⟨eq_ok_of_toOption (by decide +kernel), by decide +kernel⟩

/-- What the document and its parts come to. -/
theorem evaluations :
    evaluateEntries (scope "/pipeline.yml") none []
        (document [reference] "make $\x7b\x7b variables.flavor \x7d\x7d $(flavor)") =
        .ok (document [reference] "make docs $(flavor)") ∧
      evaluateEntries (scope "/pipeline.yml") none []
        [steps "make $\x7b\x7b variables.flavor \x7d\x7d $(flavor)"] =
        .ok [steps "make docs $(flavor)"] ∧
      evaluateItems (scope "/pipeline.yml") none [reference] = .ok [reference] :=
  ⟨eq_ok_of_toOption (by decide +kernel), eq_ok_of_toOption (by decide +kernel),
    eq_ok_of_toOption (by decide +kernel)⟩

/-- What the template comes to where it sets another variable, and where it sets the same. -/
theorem templates :
    (library "tool" "ruff").call "/pipeline.yml" "vars.yml" reference = .ok (call "tool" "ruff") ∧
      sectionItems .vars (call "tool" "ruff").entries (scope "/vars.yml") "vars.yml" =
        .ok [definition "tool" "ruff"] ∧
      (library "flavor" "api").call "/pipeline.yml" "vars.yml" reference =
        .ok (call "flavor" "api") ∧
      sectionItems .vars (call "flavor" "api").entries (scope "/vars.yml") "vars.yml" =
        .ok [definition "flavor" "api"] :=
  ⟨eq_ok_of_toOption (by decide +kernel), eq_ok_of_toOption (by decide +kernel),
    eq_ok_of_toOption (by decide +kernel), eq_ok_of_toOption (by decide +kernel)⟩

section Included

variable {name value : String}

theorem prepare_source :
    Root.prepare (files name value) "/" source "/pipeline.yml" [] = .ok (root name value) := by
  have hdocument : rootEntries source "/pipeline.yml" = .ok (root name value).document :=
    readings.1
  rw [Root.prepare, hdocument]
  rfl

/-- What the reference comes to. -/
theorem resolve_reference
    (hcall : (library name value).call "/pipeline.yml" "vars.yml" reference =
      .ok (call name value))
    (hbody : sectionItems .vars (call name value).entries (scope "/vars.yml") "vars.yml" =
      .ok [definition name value]) :
    resolve (library name value) stack .vars "/pipeline.yml" [reference] =
      .ok [definition name value] := by
  have henter : stack.enter ⟨"/vars.yml", signature []⟩ =
      .ok (⟨"/vars.yml", signature []⟩ :: stack) :=
    eq_ok_of_toOption (by decide +kernel)
  have hinstance : (library name value).instantiate stack "/pipeline.yml" "vars.yml" reference =
      .ok ⟨(call name value).entries, scope "/vars.yml", ⟨"/vars.yml", signature []⟩ :: stack⟩ := by
    rw [Library.instantiate_eq, hcall]
    simp only [bind, Except.bind, pure, Except.pure]
    rw [show (call name value).frame = ⟨"/vars.yml", signature []⟩ from rfl, henter]
    rfl
  have hinner : resolve (library name value) (⟨"/vars.yml", signature []⟩ :: stack) .vars
      "/vars.yml" [definition name value] = .ok [definition name value] :=
    resolve_of_node rfl (resolveLists.eq_1 ..)
  rw [resolve_of_included rfl hinstance, hbody]
  simp only [bind, Except.bind]
  rw [show (scope "/vars.yml").file = "/vars.yml" from rfl, hinner, resolve.eq_1]
  rfl

theorem expand_source
    (hresolve : resolve (library name value) stack .vars "/pipeline.yml" [reference] =
      .ok [definition name value])
    (hread : Yaml.readHeld Pipeline.reader
      (.mapping (document [definition name value] "make docs $(flavor)")) =
        .ok (pipeline name value)) :
    expand (files name value) "/" source "/pipeline.yml" [] = .ok ⟨pipeline name value, []⟩ := by
  have hvars : resolve (library name value) stack .vars "/pipeline.yml"
      [definition "flavor" "docs", reference] =
        .ok [definition "flavor" "docs", definition name value] := by
    rw [definition, resolve_vars_cons _ rfl, hresolve]
    rfl
  have hsteps : resolve (library name value) stack .steps "/pipeline.yml"
      [.mapping [(.string "script", .string "make docs $(flavor)")]] =
        .ok [.mapping [(.string "script", .string "make docs $(flavor)")]] :=
    resolve_of_node rfl (resolveLists.eq_1 ..)
  have hlists : resolveLists (library name value) stack "/pipeline.yml" rootLevels
      (document [reference] "make docs $(flavor)") =
        .ok (document [definition name value] "make docs $(flavor)") := by
    rw [rootLevels, resolveLists_of_list rfl, hvars]
    simp only [Except.bind]
    rw [resolveLists_of_noList (by intro items hitems; cases hitems),
      resolveLists_of_noList (by intro items hitems; cases hitems), resolveLists_of_list rfl,
      hsteps]
    exact resolveLists.eq_1 ..
  rw [Root.expand_eq, prepare_source]
  simp only [Except.bind]
  rw [show (root name value).evaluated = _ from evaluations.1]
  dsimp only
  rw [show resolveLists (root name value).library (root name value).stack (root name value).file
    [.vars, .stages, .jobs, .steps] _ = _ from hlists]
  simp only [Root.read, hread]
  rfl

end Included

/-- Blanks and all, as it stands in the document. -/
theorem namesVariable (context : Expression.Context) :
    NamesVariable context " variables.flavor " "flavor" := by
  obtain ⟨-, htokens⟩ := readings
  have hparse : parse " variables.flavor " =
      .ok (.reference "variables" [.property "flavor"]) := by
    rw [parse, htokens]
    rfl
  exact ⟨_, _, ["flavor"], hparse, by decide, rfl, List.cons_ne_nil _ _, by decide⟩

theorem lastLiteral :
    LastLiteral "flavor" "docs" (.sequence [definition "flavor" "docs", reference])
      [(.string "name", .string "flavor"), (.string "value", .string "docs")]
      (.sequence [reference]) :=
  @LastLiteral.listed _ _ [] [reference] _ _ rfl rfl rfl

/-- A template that sets another variable leaves this one alone. -/
theorem keeps_of_resolve
    (hresolve : resolve (library "tool" "ruff") stack .vars "/pipeline.yml" [reference] =
      .ok [definition "tool" "ruff"]) :
    (root "tool" "ruff").Keeps "flavor"
      (.sequence [definition "flavor" "docs", reference])
      [(.string "name", .string "flavor"), (.string "value", .string "docs")]
      (.sequence [reference]) where
  transparent := by
    simp [definition, reference, Yaml.Value.IsTransparent, AreTransparent, EntriesAreTransparent]
  plainKeys := by decide
  noReference := by decide
  stays := by
    rintro front rest hdocument ⟨others, hothers, hset⟩
    cases front with
    | nil =>
        obtain ⟨-, hsteps, -⟩ := evaluations
        rw [← (List.cons.inj hdocument).2] at hothers
        cases hsteps.symm.trans hothers
        exact hset rfl
    | cons first front =>
        -- Only the steps stand behind the first entry.
        have hmem : (.string "variables", .sequence [definition "flavor" "docs", reference]) ∈
            [steps "make $\x7b\x7b variables.flavor \x7d\x7d $(flavor)"] := by
          rw [(List.cons.inj hdocument).2]
          exact List.mem_append_right _ List.mem_cons_self
        simp [steps] at hmem
  last := by
    refine .inl ?_
    rintro ⟨values, nodes, hvalues, hnodes, node, hnode, content, lock, hgives⟩
    obtain ⟨-, -, hitems⟩ := evaluations
    cases hitems.symm.trans hvalues
    cases hresolve.symm.trans hnodes
    cases List.mem_singleton.mp hnode
    have hname := Variable.definition.inj (Option.some.inj hgives.form)
    exact absurd hname.1 (by decide)

end Flavor

theorem literal_variables_keep_their_value_flavor :
    ∃ root expanded,
      Root.prepare (Flavor.files "tool" "ruff") "/" Flavor.source "/pipeline.yml" [] = .ok root ∧
      expand (Flavor.files "tool" "ruff") "/" Flavor.source "/pipeline.yml" [] = .ok expanded ∧
      root.library.vars.get? "flavor" = some "docs" ∧
      OpensNothing "flavor" ∧ OpensNothing "docs" ∧
      (∃ body fields behind, lookUp? "variables" root.document = some body ∧
        LastLiteral "flavor" "docs" body fields behind ∧
        root.Keeps "flavor" body fields behind) ∧
      (root.library.scope [] "/vars.yml").evaluateText
        ("$\x7b\x7b" ++ " variables.flavor " ++ "\x7d\x7d") = .ok (.string "docs") ∧
      expanded.pipeline.vars =
        [.definition "flavor" "docs" false, .definition "tool" "ruff" false] ∧
      (Environment.declare {} {} expanded.pipeline.vars).1.get? "flavor" = some "docs" := by
  obtain ⟨hcall, hbody, -⟩ := Flavor.templates
  have hresolve := Flavor.resolve_reference hcall hbody
  have hkeeps := Flavor.keeps_of_resolve hresolve
  have hexpand := Flavor.expand_source hresolve rfl
  have hvalue : (Flavor.root "tool" "ruff").library.vars.get? "flavor" = some "docs" := rfl
  have hplainName : OpensNothing "flavor" := by decide
  have hplainValue : OpensNothing "docs" := by decide
  obtain ⟨hspans, -, hpipeline⟩ := literal_variables_keep_their_value Yaml.tellsKeysApart
    Flavor.prepare_source hexpand hvalue hplainName hplainValue
  obtain ⟨earlier, lock, later, hsplit, -, hrun⟩ :=
    hpipeline _ _ _ rfl Flavor.lastLiteral hkeeps
  have hfirst : earlier = [] := by
    cases earlier with
    | nil => rfl
    | cons first earlier =>
        have hmem : .definition "flavor" "docs" lock ∈
            [Variable.definition "tool" "ruff" false] := by
          rw [(List.cons.inj hsplit).2]
          exact List.mem_append_right _ List.mem_cons_self
        simp at hmem
  subst hfirst
  have hscope : (Flavor.library "tool" "ruff").HasScope (Flavor.scope "/vars.yml") :=
    .document [] "/vars.yml"
  refine ⟨_, _, Flavor.prepare_source, hexpand, hvalue, hplainName, hplainValue,
    ⟨_, _, _, rfl, Flavor.lastLiteral, hkeeps⟩, hspans _ hscope _ (Flavor.namesVariable _), rfl, ?_⟩
  exact hrun {} (by decide) (fun _ => List.not_mem_nil) rfl

/-- A template that is included behind the literal definition sets the variable once more: when the
pipeline runs it has another value than the expressions had. -/
theorem included_definition_replaces_literal_value :
    ∃ root expanded,
      Root.prepare (Flavor.files "flavor" "api") "/" Flavor.source "/pipeline.yml" [] = .ok root ∧
      expand (Flavor.files "flavor" "api") "/" Flavor.source "/pipeline.yml" [] = .ok expanded ∧
      root.library.vars.get? "flavor" = some "docs" ∧
      root.scope.evaluateText ("$\x7b\x7b" ++ " variables.flavor " ++ "\x7d\x7d") =
        .ok (.string "docs") ∧
      expanded.pipeline.steps.map (·.action) = [.shell .script "make docs $(flavor)" none] ∧
      (Environment.declare {} {} expanded.pipeline.vars).2 = none ∧
      (Environment.declare {} {} expanded.pipeline.vars).1.get? "flavor" = some "api" ∧
      Text.contains "api" "$[" = false := by
  obtain ⟨-, -, hcall, hbody⟩ := Flavor.templates
  have hexpand := Flavor.expand_source (Flavor.resolve_reference hcall hbody) rfl
  have hscope : (Flavor.library "flavor" "api").HasScope (Flavor.root "flavor" "api").scope :=
    .document [] "/pipeline.yml"
  refine ⟨_, _, Flavor.prepare_source, hexpand, rfl,
    hscope.evaluateText_variable rfl (Flavor.namesVariable _), rfl, ?_, ?_, ?_⟩
  · decide
  · decide
  · decide

end Template

end BuildPipeline
