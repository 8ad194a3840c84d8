import BuildPipeline.Proofs.Template.Transparency

/-!
# What the replacement of references leaves

* `Resolved` is a node that refers to no template, with all lists inside it that are found.
* `Expansion.resolvesTo` follows the course of an expansion: its nodes are resolved, whatever the
  document and the templates are.  In a node the lists are replaced one after the other; each keeps
  what was set for the ones before, since their names differ.
* `Expansion.areTransparent`: the nodes are transparent if the document and the templates are.  Only
  then does `Resolved` speak of all lists there are.
* `exists_entries_of_expand` says it of the entries that the pipeline is read from in the end.
-/

namespace BuildPipeline

open Yaml (Entries)
open Yaml.Value (lookUp? AreTransparent EntriesAreTransparent areTransparent_iff
  entriesAreTransparent_iff)

/-! ## Entries under a name -/

namespace Yaml.Value

variable {name other : String} {value : Value} {entries : Entries}

theorem same_string (name : String) (key : Value) :
    (Value.string name).same key = key.isKey name := by
  cases key with
  | string text => rw [same, isKey, Bool.beq_comm]
  | _ => simp [same, isKey]

theorem lookUp?_cons (key value : Value) (entries : Entries) :
    lookUp? name ((key, value) :: entries) =
      if key.isKey name then some value else lookUp? name entries := by
  rw [lookUp?, List.find?_cons]
  cases key.isKey name <;> rfl

theorem lookUp?_insert_self :
    lookUp? name (insert (.string name) value entries) = some value := by
  induction entries with
  | nil => rw [insert, lookUp?_cons, isKey, beq_self_eq_true, if_pos rfl]
  | cons entry entries ih =>
      rw [insert, same_string]
      split
      case isTrue hkey => rw [lookUp?_cons, if_pos hkey]
      case isFalse hkey => rw [lookUp?_cons, if_neg hkey, ih]

theorem isKey_false_of_isKey {key : Value} (hother : other ≠ name) (hkey : key.isKey name = true) :
    key.isKey other = false := by
  cases key with
  | string text =>
      obtain rfl : text = name := eq_of_beq hkey
      exact beq_false_of_ne hother.symm
  | _ => rfl

/-- Setting one name leaves the others alone. -/
theorem lookUp?_insert_of_ne (hother : other ≠ name) :
    lookUp? other (insert (.string name) value entries) = lookUp? other entries := by
  have hfalse : (Value.string name).isKey other = false := beq_false_of_ne hother.symm
  induction entries with
  | nil => rw [insert, lookUp?_cons, hfalse, if_neg Bool.false_ne_true]
  | cons entry entries ih =>
      rw [insert, same_string, lookUp?_cons]
      split
      case isTrue hkey =>
          rw [lookUp?_cons, isKey_false_of_isKey hother hkey, if_neg Bool.false_ne_true]
          rfl
      case isFalse => rw [lookUp?_cons, ih]

/-- What is not the entry that is taken out stays. -/
theorem mem_takeOut {entry : Value × Value} (hmem : entry ∈ entries)
    (hkey : entry.1.isKey name = false) : entry ∈ takeOut name entries := by
  unfold takeOut
  split
  case h_1 => exact hmem
  case h_2 place hplace =>
      split
      case h_1 => exact hmem
      case h_2 last hlast =>
          obtain ⟨index, hindex, rfl⟩ := List.mem_iff_getElem.mp hmem
          obtain ⟨hbound, htaken, -⟩ := List.findIdx?_eq_some_iff_getElem.mp hplace
          have hdiffers : place ≠ index := by
            rintro rfl
            rw [hkey] at htaken
            cases htaken
          rw [List.mem_iff_getElem]
          rcases Nat.lt_or_ge index (entries.length - 1) with hbefore | hend
          · refine ⟨index, by simpa using hbefore, ?_⟩
            rw [List.getElem_dropLast, List.getElem_set_ne hdiffers]
          · -- The last entry moves to the place that is free.
            have hlength : index = entries.length - 1 := by omega
            have hplaceLt : place < entries.length - 1 := by omega
            refine ⟨place, by simpa using hplaceLt, ?_⟩
            rw [List.getElem_dropLast, List.getElem_set_self]
            rw [List.getLast?_eq_getElem?, ← hlength, List.getElem?_eq_getElem hindex] at hlast
            exact (Option.some.inj hlast).symm

end Yaml.Value

namespace Template

/-! ## Resolved nodes -/

namespace Level

theorem sectionName_injective {level other : Level}
    (hsame : level.sectionName = other.sectionName) : level = other := by
  cases level <;> cases other <;> first | rfl | exact absurd hsame (by decide)

theorem sectionName_ne_of_not_mem {level : Level} {levels : List Level} (hnew : level ∉ levels) :
    ∀ other ∈ levels, other.sectionName ≠ level.sectionName :=
  fun _ hother hsame => hnew (sectionName_injective hsame ▸ hother)

theorem sectionName_ne_template (level : Level) : level.sectionName ≠ "template" := by
  cases level <;> decide

theorem sectionName_ne_parameters (level : Level) : level.sectionName ≠ "parameters" := by
  cases level <;> decide

theorem sectionName_ne_nameKey {level other : Level} {key : String}
    (hkey : other.nameKey? = some key) : level.sectionName ≠ key := by
  cases other <;> cases hkey <;> cases level <;> decide

theorem children_nodup (level : Level) : level.children.Nodup := by
  cases level <;> decide

end Level

/-- A node that refers to no template; nor do the nodes in the lists inside it. -/
inductive Resolved : Level → Yaml.Value → Prop
  | intro {level : Level} {item : Yaml.Value} (hreference : reference? level item = none)
      (hlists : ∀ entries, item = .mapping entries → ∀ child ∈ level.children, ∀ nodes,
        lookUp? child.sectionName entries = some (.sequence nodes) →
          ∀ node ∈ nodes, Resolved child node) :
      Resolved level item

/-- The nodes in the lists of these levels are resolved. -/
def ListsResolved (levels : List Level) (entries : Entries) : Prop :=
  ∀ level ∈ levels, ∀ nodes, lookUp? level.sectionName entries = some (.sequence nodes) →
    ∀ node ∈ nodes, Resolved level node

namespace Resolved

variable {level : Level} {item : Yaml.Value} {entries : Entries}

theorem reference (hresolved : Resolved level item) : reference? level item = none := by
  cases hresolved with
  | intro hreference _ => exact hreference

theorem lists (hresolved : Resolved level (.mapping entries)) :
    ListsResolved level.children entries := by
  cases hresolved with
  | intro _ hlists => exact hlists entries rfl

end Resolved

/-- A reference is read from the entries with two names. -/
theorem reference?_mapping_congr {level : Level} {entries others : Entries}
    (htemplate : lookUp? "template" others = lookUp? "template" entries)
    (hname : ∀ key, level.nameKey? = some key → lookUp? key others = lookUp? key entries) :
    reference? level (.mapping others) = reference? level (.mapping entries) := by
  simp only [reference?, Yaml.Value.entries?, Yaml.Value.untagged, bind, Option.bind, htemplate]
  cases hkey : level.nameKey? with
  | none => rfl
  | some key => simp only [hname key hkey]

/-- What the expansion of a piece comes to. -/
def Piece.ResolvesTo (nodes : List Yaml.Value) : Piece → Prop
  | .nodes level _ => ∀ node ∈ nodes, Resolved level node
  | .node levels entries => levels.Nodup → ∃ resolved, nodes = [.mapping resolved] ∧
      ListsResolved levels resolved ∧
      ∀ name, (∀ level ∈ levels, level.sectionName ≠ name) →
        lookUp? name resolved = lookUp? name entries

/-- No reference is left in what comes out of an expansion. -/
theorem Expansion.resolvesTo [Yaml.Codec] {library : Library} {stack : Stack} {file : String}
    {piece : Piece} {outcome : Except Error (List Yaml.Value)} {trail : List Stack}
    (hexpansion : Expansion library stack file piece outcome trail) :
    ∀ nodes, outcome = .ok nodes → piece.ResolvesTo nodes := by
  induction hexpansion with
  | refused | bodiless | includedError | nodeError | listError =>
      exact fun _ houtcome => nomatch houtcome
  | empty level =>
      rintro _ ⟨⟩
      exact fun _ hmem => absurd hmem List.not_mem_nil
  | included hreference hinstance hbody hinner hrest ih ihRest =>
      intro nodes houtcome
      obtain ⟨after, rfl, rfl⟩ := exists_of_map_eq_ok houtcome
      exact List.forall_mem_append.mpr ⟨ih _ rfl, ihRest after rfl⟩
  | @node stack file level entries inner rest outcome _ _ hreference hinner hrest ih ihRest =>
      intro nodes houtcome
      obtain ⟨after, rfl, rfl⟩ := exists_of_map_eq_ok houtcome
      obtain ⟨resolved, rfl, hlists, hkept⟩ := ih _ rfl level.children_nodup
      -- References and names stand under keys that are no lists, so they are the same as before.
      have hresolved : reference? level (.mapping resolved) = none := by
        rw [← hreference]
        refine reference?_mapping_congr (hkept _ fun child _ => child.sectionName_ne_template) ?_
        exact fun key hkey => hkept key fun child _ => Level.sectionName_ne_nameKey hkey
      have hnode : Resolved level (.mapping resolved) :=
        .intro hresolved fun _ heq => Yaml.Value.mapping.inj heq ▸ hlists
      exact List.forall_mem_cons.mpr ⟨hnode, ihRest after rfl⟩
  | @leaf stack file level item rest outcome _ hreference hleaf hrest ih =>
      intro nodes houtcome
      obtain ⟨after, rfl, rfl⟩ := exists_of_map_eq_ok houtcome
      have hitem : Resolved level item :=
        .intro hreference fun entries heq => absurd heq (hleaf entries)
      exact List.forall_mem_cons.mpr ⟨hitem, ih after rfl⟩
  | complete entries =>
      rintro _ ⟨⟩ -
      exact ⟨entries, rfl, fun _ hmem => absurd hmem List.not_mem_nil, fun _ _ => rfl⟩
  | @list stack file level levels entries items inner outcome _ _ hlist hinner hrest ih ihRest =>
      intro nodes houtcome hdistinct
      obtain ⟨hnew, hdistinct⟩ := List.nodup_cons.mp hdistinct
      obtain ⟨resolved, rfl, hlists, hkept⟩ := ihRest nodes houtcome hdistinct
      -- The lists of the other levels have other names, so this one stays as it was set.
      have hown : lookUp? level.sectionName resolved = some (.sequence inner) := by
        rw [hkept _ (Level.sectionName_ne_of_not_mem hnew), Yaml.Value.lookUp?_insert_self]
      refine ⟨resolved, rfl, List.forall_mem_cons.mpr ⟨?_, hlists⟩, ?_⟩
      · intro found hfound
        cases hown.symm.trans hfound
        exact ih inner rfl
      · intro name hname
        obtain ⟨hself, hothers⟩ := List.forall_mem_cons.mp hname
        rw [hkept name hothers, Yaml.Value.lookUp?_insert_of_ne hself.symm]
  | noList hlist hrest ih =>
      intro nodes houtcome hdistinct
      obtain ⟨hnew, hdistinct⟩ := List.nodup_cons.mp hdistinct
      obtain ⟨resolved, rfl, hlists, hkept⟩ := ih nodes houtcome hdistinct
      refine ⟨resolved, rfl, List.forall_mem_cons.mpr ⟨?_, hlists⟩, ?_⟩
      · intro found hfound
        rw [hkept _ (Level.sectionName_ne_of_not_mem hnew)] at hfound
        exact absurd hfound (hlist found)
      · intro name hname
        exact hkept name (List.forall_mem_cons.mp hname).2

/-! ## Transparent documents -/

/-- Apart from the declaration of parameters, nothing in the document is hidden. -/
def IsTransparentText [Yaml.Codec] (source : String) : Prop :=
  ∀ entries, Yaml.Codec.read source = .ok (.mapping entries) →
    EntriesAreTransparent (Yaml.Value.takeOut "parameters" entries)

/-- All files are transparent documents. -/
def HasTransparentFiles [Yaml.Codec] (files : Files) : Prop :=
  ∀ location text, (location, FileEntry.file text) ∈ files.entries → IsTransparentText text

theorem IsTransparentText.of_section [Yaml.Codec] {source reference : String} {entries : Entries}
    {level : Level} {body : Yaml.Value} (hsource : IsTransparentText source)
    (hread : readTemplate reference source = .ok entries)
    (hbody : lookUp? level.sectionName entries = some body) : body.IsTransparent := by
  unfold readTemplate at hread
  split at hread
  case h_1 found hfound =>
      cases hread
      obtain ⟨entry, hentry, rfl⟩ := Option.map_eq_some_iff.mp hbody
      -- A section is none of the declarations that are taken out.
      have hname : entry.1.isKey level.sectionName = true := by
        simpa using List.find?_some hentry
      have hother := Yaml.Value.isKey_false_of_isKey level.sectionName_ne_parameters.symm hname
      have hmem := Yaml.Value.mem_takeOut (List.mem_of_find?_eq_some hentry) hother
      exact (entriesAreTransparent_iff.mp (hsource entries hfound) entry hmem).2
  case h_2 => cases hread
  case h_3 => cases hread

theorem HasTransparentFiles.find [Yaml.Codec] {library : Library}
    {reference file path source : String} (hfiles : HasTransparentFiles library.files)
    (hfind : library.find reference file = .ok (path, source)) : IsTransparentText source := by
  simp only [Library.find] at hfind
  split at hfind
  case h_2 => cases hfind
  case h_1 found hsome =>
      cases hfind
      obtain ⟨candidate, -, hfile⟩ := List.exists_of_findSome?_eq_some hsome
      unfold Files.file? at hfile
      split at hfile
      case h_1 => cases hfile
      case h_2 location _ =>
          split at hfile
          case h_2 => cases hfile
          case h_1 text hitem =>
              cases hfile
              unfold Files.item? at hitem
              split at hitem
              case isTrue => cases hitem
              case isFalse => exact hfiles location source (Table.mem_of_lookup_eq_some hitem)

theorem areTransparent_definitions {entries : Entries} (hentries : EntriesAreTransparent entries) :
    AreTransparent (definitions entries) := by
  refine areTransparent_iff.mpr (List.forall_mem_map.mpr fun entry hmem => ?_)
  obtain ⟨hname, hvalue⟩ := entriesAreTransparent_iff.mp hentries entry hmem
  exact ⟨Yaml.Value.isTransparentKey_string _, hname.2, Yaml.Value.isTransparentKey_string _,
    hvalue, trivial⟩

/-- The nodes of a template's section are as transparent as the section. -/
theorem areTransparent_sectionItems {level : Level} {entries : Entries} {scope : Scope}
    {reference : String} {items : List Yaml.Value}
    (hentries : ∀ body, lookUp? level.sectionName entries = some body → body.IsTransparent)
    (hitems : sectionItems level entries scope reference = .ok items) : AreTransparent items := by
  unfold sectionItems at hitems
  split at hitems
  case h_1 => cases hitems
  case h_2 body hbody =>
      obtain ⟨value, hvalue, hitems⟩ := bind_eq_ok_iff.mp hitems
      have htransparent := isTransparent_evaluate scope body (hentries body hbody) hvalue
      split at hitems
      case h_1 => cases hitems; exact htransparent
      case h_2 => cases hitems; trivial
      case h_3 => cases hitems; exact areTransparent_definitions htransparent
      case h_4 => cases hitems

/-- The value, or the values, of a piece. -/
def Piece.IsTransparent : Piece → Prop
  | .nodes _ items => AreTransparent items
  | .node _ entries => EntriesAreTransparent entries

/-- Nothing is hidden by an expansion whose templates hide nothing. -/
theorem Expansion.areTransparent [Yaml.Codec] {library : Library} {stack : Stack} {file : String}
    {piece : Piece} {outcome : Except Error (List Yaml.Value)} {trail : List Stack}
    (hexpansion : Expansion library stack file piece outcome trail)
    (hfiles : HasTransparentFiles library.files) :
    ∀ nodes, outcome = .ok nodes → piece.IsTransparent → AreTransparent nodes := by
  induction hexpansion with
  | refused | bodiless | includedError | nodeError | listError =>
      exact fun _ houtcome => nomatch houtcome
  | empty level =>
      rintro _ ⟨⟩ hpiece
      exact hpiece
  | included hreference hinstance hbody hinner hrest ih ihRest =>
      rintro nodes houtcome ⟨-, hafter⟩
      obtain ⟨after, rfl, rfl⟩ := exists_of_map_eq_ok houtcome
      obtain ⟨call, hcall, -, rfl⟩ := Library.instantiate_eq_ok hinstance
      obtain ⟨source, -, -, hfind, hread, -⟩ := Library.call_eq_ok hcall
      have hitems := areTransparent_sectionItems
        (fun _ hsection => (hfiles.find hfind).of_section hread hsection) hbody
      exact (ih _ rfl hitems).append (ihRest after rfl hafter)
  | node hreference hinner hrest ih ihRest =>
      rintro nodes houtcome ⟨hnode, hafter⟩
      obtain ⟨after, rfl, rfl⟩ := exists_of_map_eq_ok houtcome
      exact (ih _ rfl hnode).append (ihRest after rfl hafter)
  | leaf hreference hleaf hrest ih =>
      rintro nodes houtcome ⟨hitem, hafter⟩
      obtain ⟨after, rfl, rfl⟩ := exists_of_map_eq_ok houtcome
      exact ⟨hitem, ih after rfl hafter⟩
  | complete entries =>
      rintro _ ⟨⟩ hentries
      exact ⟨hentries, trivial⟩
  | list hlist hinner hrest ih ihRest =>
      intro nodes houtcome hentries
      have hnodes := ih _ rfl (hentries.lookUp? hlist)
      exact ihRest nodes houtcome
        (hentries.insert (Yaml.Value.isTransparentKey_string _) hnodes)
  | noList hlist hrest ih => exact ih

/-! ## Whole documents -/

theorem Root.prepare_eq_ok [Yaml.Codec] {files : Files} {repository source origin : String}
    {supplied : Arguments} {root : Root}
    (hroot : Root.prepare files repository source origin supplied = .ok root) :
    root.library.files = files ∧ ∃ document, rootEntries source origin = .ok document ∧
      root.document = Yaml.Value.takeOut "parameters" document := by
  obtain ⟨document, hdocument, hroot⟩ := bind_eq_ok_iff.mp hroot
  obtain ⟨declared, -, hroot⟩ := bind_eq_ok_iff.mp hroot
  obtain ⟨arguments, -, hroot⟩ := bind_eq_ok_iff.mp hroot
  cases hroot
  exact ⟨rfl, document, hdocument, rfl⟩

theorem isTransparentText_iff [Yaml.Codec] {source origin : String} {document : Entries}
    (hdocument : rootEntries source origin = .ok document) :
    IsTransparentText source ↔
      EntriesAreTransparent (Yaml.Value.takeOut "parameters" document) := by
  constructor
  · intro hsource
    unfold rootEntries at hdocument
    split at hdocument
    case h_1 entries hread => cases hdocument; exact hsource document hread
    case h_2 => cases hdocument; trivial
    case h_3 => cases hdocument
    case h_4 => cases hdocument
  · intro htransparent entries hread
    rw [rootEntries, hread] at hdocument
    cases hdocument
    exact htransparent

/-- The levels of the lists in a document. -/
def rootLevels : List Level := [.vars, .stages, .jobs, .steps]

/-- An expanded pipeline is read from entries in which no list refers to a template, and which hide
nothing if the documents do not. -/
theorem exists_entries_of_expand [Yaml.Codec] {files : Files} {repository source origin : String}
    {supplied : Arguments} {expanded : Expanded}
    (hexpand : expand files repository source origin supplied = .ok expanded) :
    ∃ entries pipeline, Yaml.readHeld Pipeline.reader (.mapping entries) = .ok pipeline ∧
      (∃ declared, expanded.pipeline = { pipeline with parameters := declared }) ∧
      ListsResolved rootLevels entries ∧
      (IsTransparentText source → HasTransparentFiles files → EntriesAreTransparent entries) := by
  rw [Root.expand_eq] at hexpand
  obtain ⟨root, hroot, hexpand⟩ := bind_eq_ok_iff.mp hexpand
  obtain ⟨evaluated, hevaluated, hexpand⟩ := bind_eq_ok_iff.mp hexpand
  obtain ⟨entries, hentries, hexpand⟩ := bind_eq_ok_iff.mp hexpand
  obtain ⟨trail, hexpansion⟩ :=
    exists_expansion root.library root.stack root.file (.node rootLevels evaluated)
  have houtcome : (Piece.node rootLevels evaluated).outcome root.library root.stack root.file =
      .ok [.mapping entries] := by
    rw [Piece.outcome_node, rootLevels, hentries]
    rfl
  obtain ⟨resolved, hsame, hlists, -⟩ :=
    hexpansion.resolvesTo _ houtcome (by decide)
  cases hsame
  unfold Root.read at hexpand
  split at hexpand
  case h_2 => cases hexpand
  case h_1 pipeline hread =>
      cases hexpand
      refine ⟨entries, pipeline, hread, ⟨_, rfl⟩, hlists, fun hsource hfiles => ?_⟩
      obtain ⟨rfl, document, hdocument, hbody⟩ := Root.prepare_eq_ok hroot
      have htransparent := entriesAreTransparent_evaluateEntries _ none [] root.document
        (hbody ▸ (isTransparentText_iff hdocument).mp hsource) trivial hevaluated
      exact (hexpansion.areTransparent hfiles _ houtcome htransparent).1

end Template

end BuildPipeline
