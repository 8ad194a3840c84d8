import Mathlib.Data.Bool.AllAny
import BuildPipeline.Run.Outcome
import BuildPipeline.Proofs.Expression.Verbatim
import BuildPipeline.Proofs.Files.PathTexts
import BuildPipeline.Proofs.Text.Casing
import BuildPipeline.Proofs.Text.Lines

/-!
# Variables in the output of a step

A step sets variables by printing lines, and what is printed is read back.

* `Property.Prints` says how one property of an update is printed and `SettingLine` how the whole
  update is: the letter case of the words, the order of the properties and the indentation are free.
* `applyProperty_of_prints` reads one property, `ofLine?_of_settingLine` a line.
* `Logs` mixes such lines with lines that are no commands, and `Logs.filterMap_ofLine?` reads
  them all.
* `logged_updates_come_back` is the round trip for whole outputs.
-/

namespace BuildPipeline

/-! ## Cutting a text -/

namespace Text

theorem splitOnce?_singleton {c : Char} {before : List Char} (hbefore : c ∉ before)
    (after : List Char) : splitOnce? [c] (before ++ c :: after) = some (before, after) := by
  induction before with
  | nil => simp [splitOnce?, stripStart?]
  | cons d rest ih =>
      obtain ⟨hd, hrest⟩ := List.ne_and_not_mem_of_not_mem_cons hbefore
      rw [List.cons_append, splitOnce?, stripStart?, if_neg hd, ih hrest]
      rfl

theorem dropWhile_isBlank_eq_self {text : List Char}
    (hhead : ∀ c ∈ text.head?, isBlank c = false) : text.dropWhile isBlank = text := by
  cases text with
  | nil => rfl
  | cons c rest => exact List.dropWhile_cons_of_neg (by simp [hhead c rfl])

/-- Trimming takes nothing off a text exactly if it has no blank at its ends. -/
theorem trimChars_eq_self_iff {text : List Char} :
    trimChars text = text ↔
      (∀ c ∈ text.head?, isBlank c = false) ∧ ∀ c ∈ text.getLast?, isBlank c = false := by
  constructor
  · intro htrim
    refine ⟨fun c hc => ?_, fun c hc => ?_⟩
    · obtain ⟨rest, hrest⟩ := List.head?_eq_some_iff.mp hc
      exact Expression.isBlank_head_trimChars (htrim.trans hrest)
    · have hlast := List.head?_dropWhile_not isBlank (trimStartChars text).reverse
      rw [← htrim, trimChars, trimEndChars, List.getLast?_reverse] at hc
      rw [hc] at hlast
      exact hlast
  · rintro ⟨hhead, hlast⟩
    rw [trimChars, trimStartChars, dropWhile_isBlank_eq_self hhead, trimEndChars,
      dropWhile_isBlank_eq_self (by rwa [List.head?_reverse]), List.reverse_reverse]

end Text

namespace LoggingCommand

open Text

/-! ## Printing -/

/-- The text is this word in some letter case. -/
def Spells (word : String) (text : List Char) : Prop :=
  lowerChars text = lowerChars word.toList

instance (word : String) (text : List Char) : Decidable (Spells word text) :=
  inferInstanceAs (Decidable (_ = _))

/-- The properties of a command that sets a variable. -/
inductive Property where
  | name
  | output
  | readonly
  deriving DecidableEq

namespace Property

def key : Property → String
  | name => "variable"
  | output => "isOutput"
  | readonly => "isReadOnly"

/-- The name stands for itself; a flag is a word in any letter case. -/
def Shows (update : VariableUpdate) : Property → List Char → Prop
  | name, value => value = update.name.toList
  | output, value => Spells (toString update.isOutput) value
  | readonly, value => Spells (toString update.isReadonly) value

/-- The text is the property of the update with its key, which may be in any letter case. -/
inductive Prints (update : VariableUpdate) (property : Property) : List Char → Prop
  | pair {key value : List Char} (hkey : Spells property.key key)
      (hvalue : property.Shows update value) : Prints update property (key ++ '=' :: value)

/-- The target with this property of the source. -/
def give (source target : VariableUpdate) : Property → VariableUpdate
  | name => { target with name := source.name }
  | output => { target with isOutput := source.isOutput }
  | readonly => { target with isReadonly := source.isReadonly }

end Property

/-- What can be printed: the name has no blank at its ends and no character that ends it, and the
value does not reach beyond its line. -/
structure IsPrintable (update : VariableUpdate) : Prop where
  name_ne_nil : update.name.toList ≠ []
  name_trimmed : trimChars update.name.toList = update.name.toList
  name_unended : ∀ c ∈ [']', ';', '\n'], c ∉ update.name.toList
  value_unbroken : '\n' ∉ update.value.toList
  value_getLast? : update.value.toList.getLast? ≠ some '\r'

/-- The line sets the update, with the properties in some order. -/
inductive SettingLine (update : VariableUpdate) : List Char → Prop
  | line {indentation command : List Char} {order : List Property} {text : Property → List Char}
      (hblank : AllBlank indentation) (hunbroken : '\n' ∉ indentation)
      (hcommand : Spells "task.setvariable" command)
      (horder : order.Perm [.name, .output, .readonly])
      (hprints : ∀ property : Property, property.Prints update (text property)) :
      SettingLine update
        (indentation ++ (opening ++ (command ++ ' ' :: [';'].intercalate (order.map text) ++
          ']' :: update.value.toList)))

/-- The lines set these updates in order, and between them are lines without any command. -/
inductive Logs : List VariableUpdate → List (List Char) → Prop
  | nil : Logs [] []
  | setting {update : VariableUpdate} {updates : List VariableUpdate} {line : List Char}
      {lines : List (List Char)} (hprintable : IsPrintable update)
      (hline : SettingLine update line) (hrest : Logs updates lines) :
      Logs (update :: updates) (line :: lines)
  | other {updates : List VariableUpdate} {line : List Char} {lines : List (List Char)}
      (hunbroken : '\n' ∉ line) (hother : ¬ opening <+: trimStartChars line)
      (hrest : Logs updates lines) : Logs updates (line :: lines)

/-! ## Reading a property -/

theorem Spells.notMem {word : String} {text : List Char} (hspells : Spells word text) {c : Char}
    (hc : c.toLower ∉ lowerChars word.toList) : c ∉ text := by
  intro hmem
  rw [← hspells] at hc
  exact hc (List.mem_map_of_mem hmem)

theorem Spells.notBlank {word : String} {text : List Char} (hspells : Spells word text)
    (hword : ∀ c ∈ lowerChars word.toList, isBlank c = false) : ∀ c ∈ text, isBlank c = false := by
  intro c hmem
  rw [← isBlank_toLower]
  exact hword _ (hspells ▸ List.mem_map_of_mem hmem)

theorem Spells.ne_nil {word : String} {text : List Char} (hspells : Spells word text)
    (hword : lowerChars word.toList ≠ []) : text ≠ [] := by
  rintro rfl
  exact hword hspells.symm

/-- No word of a command holds a blank or a character that cuts the command. -/
theorem key_plain (property : Property) :
    (∀ c ∈ lowerChars property.key.toList, isBlank c = false) ∧
      ∀ c ∈ ['=', ']', ';', '\n'], c.toLower ∉ lowerChars property.key.toList := by
  cases property <;>
    exact ⟨List.all_iff_forall_prop.mp (by decide), List.all_iff_forall_prop.mp (by decide)⟩

theorem flag_plain (flag : Bool) :
    (∀ c ∈ lowerChars (toString flag).toList, isBlank c = false) ∧
      ∀ c ∈ ['=', ']', ';', '\n'], c.toLower ∉ lowerChars (toString flag).toList := by
  cases flag <;>
    exact ⟨List.all_iff_forall_prop.mp (by decide), List.all_iff_forall_prop.mp (by decide)⟩

section Printed

variable {update : VariableUpdate} (hprintable : IsPrintable update) {property : Property}
  {text : List Char}

include hprintable

theorem Property.Shows.trimmed (hshows : property.Shows update text) :
    text ≠ [] ∧ trimChars text = text := by
  have hflag {flag : Bool} (hspells : Spells (toString flag) text) :
      text ≠ [] ∧ trimChars text = text :=
    ⟨hspells.ne_nil (by cases flag <;> decide),
      trimChars_of_forall (hspells.notBlank (flag_plain flag).1)⟩
  cases property with
  | name =>
      rw [show text = update.name.toList from hshows]
      exact ⟨hprintable.name_ne_nil, hprintable.name_trimmed⟩
  | output => exact hflag hshows
  | readonly => exact hflag hshows

theorem Property.Shows.notMem (hshows : property.Shows update text) {c : Char}
    (hc : c ∈ [']', ';', '\n']) : c ∉ text := by
  have hflag {flag : Bool} (hspells : Spells (toString flag) text) : c ∉ text :=
    hspells.notMem ((flag_plain flag).2 c (List.mem_cons_of_mem _ hc))
  cases property with
  | name => exact (show text = update.name.toList from hshows) ▸ hprintable.name_unended c hc
  | output => exact hflag hshows
  | readonly => exact hflag hshows

theorem Property.Prints.notMem (hprints : property.Prints update text) {c : Char}
    (hc : c ∈ [']', ';', '\n']) : c ∉ text := by
  obtain ⟨hkey, hvalue⟩ := hprints
  have hequals : c ≠ '=' := by
    rintro rfl
    revert hc
    decide
  rw [List.mem_append, List.mem_cons, not_or, not_or]
  exact ⟨hkey.notMem ((key_plain property).2 c (List.mem_cons_of_mem _ hc)), hequals,
    hvalue.notMem hprintable hc⟩

/-- A property is cut at the first equals sign, which is the one after the key. -/
theorem applyProperty_of_prints (hprints : property.Prints update text) (target : VariableUpdate) :
    applyProperty target text = property.give update target := by
  obtain @⟨key, value, hkey, hvalue⟩ := hprints
  have hkeyBlank := hkey.notBlank (key_plain property).1
  obtain ⟨hvalueNe, hvalueTrim⟩ := hvalue.trimmed hprintable
  have hkeyNe : key ≠ [] := hkey.ne_nil (by cases property <;> decide)
  have htrim : trimChars (key ++ '=' :: value) = key ++ '=' :: value := by
    refine trimChars_eq_self_iff.mpr ⟨fun c hc => ?_, fun c hc => ?_⟩
    · rw [List.head?_append_of_ne_nil _ hkeyNe] at hc
      exact hkeyBlank c (List.mem_of_mem_head? hc)
    · rw [List.getLast?_append_cons, List.getLast?_cons_of_ne_nil hvalueNe] at hc
      exact (trimChars_eq_self_iff.mp hvalueTrim).2 c hc
  have hcut : splitOnce? ['='] (key ++ '=' :: value) = some (key, value) :=
    splitOnce?_singleton (hkey.notMem ((key_plain property).2 _ List.mem_cons_self)) value
  rw [applyProperty, htrim, hcut]
  dsimp only
  rw [hvalueTrim, trimChars_of_forall hkeyBlank, show lowerChars key = _ from hkey]
  have hflag {flag : Bool} (hspells : Spells (toString flag) value) :
      (lowerChars value == "true".toList) = flag := by
    rw [show lowerChars value = _ from hspells]
    cases flag <;> decide
  cases property with
  | name =>
      rw [show value = update.name.toList from hvalue, String.ofList_toList]
      rfl
  | output => rw [hflag hvalue]; rfl
  | readonly => rw [hflag hvalue]; rfl

end Printed

/-! ## Reading a line -/

theorem Property.give_comm (source target : VariableUpdate) (p q : Property) :
    q.give source (p.give source target) = p.give source (q.give source target) := by
  cases p <;> cases q <;> rfl

/-- The properties of a whole command, in any order, make up the update. -/
theorem foldl_give_of_perm {order : List Property} (horder : order.Perm [.name, .output, .readonly])
    (update : VariableUpdate) :
    order.foldl (Property.give update) { name := "", value := update.value } = update := by
  rw [horder.foldl_eq' fun p _ q _ target => Property.give_comm update target p q]
  rfl

theorem notMem_intercalate {c separator : Char} {pieces : List (List Char)} (hne : c ≠ separator)
    (hpieces : ∀ piece ∈ pieces, c ∉ piece) : c ∉ [separator].intercalate pieces := by
  induction pieces with
  | nil => simp
  | cons piece others ih =>
      obtain ⟨hpiece, hothers⟩ := List.forall_mem_cons.mp hpieces
      cases others with
      | nil => rwa [List.intercalate_singleton]
      | cons next others =>
          rw [List.intercalate_cons_cons, List.mem_append, List.mem_append, List.mem_singleton]
          exact not_or.mpr ⟨not_or.mpr ⟨hpiece, hne⟩, ih hothers⟩

section Line

variable {update : VariableUpdate} (hprintable : IsPrintable update)

include hprintable

/-- What stands before the bracket has neither this bracket nor a newline. -/
theorem notMem_command {command : List Char} (hcommand : Spells "task.setvariable" command)
    (order : List Property) {text : Property → List Char}
    (hprints : ∀ property : Property, property.Prints update (text property)) {c : Char}
    (hc : c ∈ [']', '\n']) : c ∉ command ++ ' ' :: [';'].intercalate (order.map text) := by
  have hplain : ∀ c ∈ [']', '\n'], c.toLower ∉ lowerChars "task.setvariable".toList ∧
      c ≠ ' ' ∧ c ≠ ';' ∧ c ∈ [']', ';', '\n'] := List.all_iff_forall_prop.mp (by decide)
  obtain ⟨hword, hspace, hsemicolon, hmem⟩ := hplain c hc
  rw [List.mem_append, List.mem_cons, not_or, not_or]
  refine ⟨hcommand.notMem hword, hspace, notMem_intercalate hsemicolon ?_⟩
  exact List.forall_mem_map.mpr fun property _ => (hprints property).notMem hprintable hmem

theorem foldl_applyProperty {order : List Property}
    (horder : order.Perm [.name, .output, .readonly]) {text : Property → List Char}
    (hprints : ∀ property : Property, property.Prints update (text property)) :
    (order.map text).foldl applyProperty { name := "", value := update.value } = update := by
  have hgive : (fun target property => applyProperty target (text property)) =
      Property.give update :=
    funext₂ fun target property => applyProperty_of_prints hprintable (hprints property) target
  rw [List.foldl_map, hgive, foldl_give_of_perm horder]

theorem ofLine?_of_settingLine {line : List Char} (hline : SettingLine update line) :
    ofLine? line = some update := by
  obtain @⟨indentation, command, order, text, hblank, -, hcommand, horder, hprints⟩ := hline
  have hstart : trimStartChars (indentation ++ (opening ++ (command ++
      ' ' :: [';'].intercalate (order.map text) ++ ']' :: update.value.toList))) =
      opening ++
        (command ++ ' ' :: [';'].intercalate (order.map text) ++ ']' :: update.value.toList) := by
    rw [trimStartChars_append_of_allBlank hblank]
    exact dropWhile_isBlank_eq_self (by rintro c ⟨⟩; decide)
  have hcut := splitOnce?_singleton
    (notMem_command hprintable hcommand order hprints List.mem_cons_self)
    update.value.toList
  have hword : ∀ c ∈ command, (!isBlank c) = true := fun c hmem => by
    rw [hcommand.notBlank (List.all_iff_forall_prop.mp (by decide)) c hmem]
    rfl
  have hpieces : splitAt ';' ([';'].intercalate (order.map text)) = order.map text := by
    rw [splitAt_eq_splitOn]
    refine List.splitOn_intercalate _ (List.forall_mem_map.mpr fun property _ => ?_) ?_
    · exact (hprints property).notMem hprintable (by decide)
    · rintro hnone
      rw [List.map_eq_nil_iff.mp hnone] at horder
      cases horder.length_eq
  have hname : update.name ≠ "" := fun hempty =>
    hprintable.name_ne_nil (by rw [hempty]; rfl)
  rw [ofLine?, hstart, stripStart?_eq_some_iff.mpr rfl]
  simp only [Option.bind_eq_bind, Option.bind_some, hcut]
  rw [List.takeWhile_append_of_pos hword, List.dropWhile_append_of_pos hword,
    List.takeWhile_cons_of_neg (by decide), List.dropWhile_cons_of_neg (by decide),
    List.append_nil, List.drop_one, List.tail_cons, hpieces, String.ofList_toList,
    foldl_applyProperty hprintable horder hprints,
    if_neg (not_not.mpr (show lowerChars command = setVariable from hcommand)), if_neg hname]

theorem SettingLine.getLast?_ne {line : List Char} (hline : SettingLine update line) :
    line.getLast? ≠ some '\r' := by
  obtain ⟨-, -, -, -, -⟩ := hline
  simp only [← List.append_assoc, List.getLast?_append_cons]
  cases hvalue : update.value.toList with
  | nil => decide
  | cons c rest =>
      rw [List.getLast?_cons_cons, ← hvalue]
      exact hprintable.value_getLast?

theorem SettingLine.notMem_newline {line : List Char} (hline : SettingLine update line) :
    '\n' ∉ line := by
  obtain @⟨_, _, order, _, -, hunbroken, hcommand, -, hprints⟩ := hline
  have hhead := notMem_command hprintable hcommand order hprints
    (List.mem_cons_of_mem _ List.mem_cons_self)
  rw [List.mem_append, List.mem_append, List.mem_append, List.mem_cons]
  exact not_or.mpr ⟨hunbroken, not_or.mpr ⟨by decide, not_or.mpr ⟨hhead,
    not_or.mpr ⟨by decide, hprintable.value_unbroken⟩⟩⟩⟩

end Line

/-! ## Reading the output -/

theorem ofLine?_eq_none_of_unopened {line : List Char}
    (hother : ¬ opening <+: trimStartChars line) : ofLine? line = none := by
  have hstrip : stripStart? opening (trimStartChars line) = none := by
    rw [Option.eq_none_iff_forall_ne_some]
    exact fun rest hrest => hother ⟨rest, (stripStart?_eq_some_iff.mp hrest).symm⟩
  rw [ofLine?, hstrip]
  rfl

/-- The ending of a line does not change what it commands. -/
theorem ofLine?_dropCarriageReturn_eq_none {line : List Char}
    (hother : ¬ opening <+: trimStartChars line) : ofLine? (dropCarriageReturn line) = none := by
  refine ofLine?_eq_none_of_unopened fun hfound => hother (hfound.trans ?_)
  obtain ⟨ending, hline⟩ := dropCarriageReturn_isPrefix line
  rw [trimStartChars, trimStartChars, ← congrArg (List.dropWhile isBlank) hline,
    List.dropWhile_append]
  split
  case isTrue hnothing =>
      rw [List.isEmpty_iff.mp hnothing]
      exact List.nil_prefix
  case isFalse => exact List.prefix_append _ _

namespace Logs

variable {updates : List VariableUpdate} {lines : List (List Char)}

theorem filterMap_ofLine? (hlogs : Logs updates lines) : lines.filterMap ofLine? = updates := by
  induction hlogs with
  | nil => rfl
  | setting hprintable hline _ ih =>
      rw [List.filterMap_cons_some (ofLine?_of_settingLine hprintable hline), ih]
  | other _ hother _ ih => rw [List.filterMap_cons_none (ofLine?_eq_none_of_unopened hother), ih]

theorem notMem_newline (hlogs : Logs updates lines) : ∀ line ∈ lines, '\n' ∉ line := by
  induction hlogs with
  | nil => simp
  | setting hprintable hline _ ih =>
      exact List.forall_mem_cons.mpr ⟨hline.notMem_newline hprintable, ih⟩
  | other hunbroken _ _ ih => exact List.forall_mem_cons.mpr ⟨hunbroken, ih⟩

theorem ofLine?_dropCarriageReturn (hlogs : Logs updates lines) :
    ∀ line ∈ lines, ofLine? (dropCarriageReturn line) = ofLine? line := by
  induction hlogs with
  | nil => simp
  | setting hprintable hline _ ih =>
      refine List.forall_mem_cons.mpr ⟨?_, ih⟩
      rw [dropCarriageReturn_of_getLast?_ne (hline.getLast?_ne hprintable)]
  | other _ hother _ ih =>
      refine List.forall_mem_cons.mpr ⟨?_, ih⟩
      rw [ofLine?_dropCarriageReturn_eq_none hother, ofLine?_eq_none_of_unopened hother]

end Logs

/-- Whatever variables a step prints as commands, among other lines that are none, are read back
from its output, each with its name, its value and its flags, in the order in which they were
printed. -/
theorem logged_updates_come_back {updates : List VariableUpdate} {lines : List (List Char)}
    (hlogs : Logs updates lines) :
    commandedUpdates (String.ofList (['\n'].intercalate lines)) = updates := by
  have hread := filterMap_lineChars_intercalate rfl hlogs.notMem_newline
    hlogs.ofLine?_dropCarriageReturn
  rw [commandedUpdates, Text.lines, String.toList_ofList, List.filterMap_map]
  simp only [Function.comp_def, String.toList_ofList]
  rw [hread, hlogs.filterMap_ofLine?]

/-! ## An output with one variable -/

namespace Release

/-- A name and a value with characters that cut a command elsewhere. -/
def update : VariableUpdate where
  name := "tool=ruff lint"
  value := "[0.6;beta] "
  isOutput := true

/-- The properties in letter cases of their own. -/
def text : Property → List Char
  | .name => "VARIABLE".toList ++ '=' :: update.name.toList
  | .output => "isoutput".toList ++ '=' :: "True".toList
  | .readonly => "IsReadOnly".toList ++ '=' :: "FALSE".toList

def line : List Char :=
  ("\t##vso[task.SetVariable isoutput=True;VARIABLE=tool=ruff lint;IsReadOnly=FALSE]" ++
    "[0.6;beta] ").toList

def lines : List (List Char) :=
  ["resolving tools".toList, line, "done ##vso[task.setvariable variable=late]1".toList]

theorem isPrintable : IsPrintable update :=
  ⟨by decide, by decide, List.all_iff_forall_prop.mp (by decide), by decide, by decide⟩

theorem prints (property : Property) : property.Prints update (text property) := by
  cases property with
  | name => exact .pair (by decide) rfl
  | output => exact .pair (by decide) (show Spells "true" _ by decide)
  | readonly => exact .pair (by decide) (show Spells "false" _ by decide)

theorem settingLine : SettingLine update line := by
  have hline : line = ['\t'] ++ (opening ++ ("task.SetVariable".toList ++
      ' ' :: [';'].intercalate ([.output, .name, .readonly].map text) ++
      ']' :: update.value.toList)) := by
    decide +kernel
  rw [hline]
  exact .line (by simp [AllBlank]; decide) (by decide) (by decide) (by decide) prints

theorem logs : Logs [update] lines :=
  .other (by decide) (by decide) (.setting isPrintable settingLine
    (.other (by decide) (by decide) .nil))

end Release

theorem logged_updates_come_back_release : Logs [Release.update] Release.lines ∧
    commandedUpdates (String.ofList (['\n'].intercalate Release.lines)) = [Release.update] :=
  ⟨Release.logs, logged_updates_come_back Release.logs⟩

end LoggingCommand

end BuildPipeline
