import BuildPipeline.Text.Search
import Mathlib.Data.List.Basic

/-!
# Lines of a text

The lines of a text, followed from one newline to the next.

* `lineInduction`: a text is one line without a newline, or such a line, a newline and a text.
* `lineChars_append_newline` and `lineChars_of_notMem`: what the two cases mean for the lines.
* `lineChars_append_cons`: a newline between two texts keeps their lines apart.
* `filterMap_lineChars_intercalate`: lines that are joined by newlines are found again.
* `length_lineChars_append_newline`: a text that a newline ends has one line for each newline.
-/

namespace BuildPipeline.Text

/-- A text is one line, or a line with its newline before the rest of the text. -/
@[elab_as_elim]
theorem lineInduction {motive : List Char → Prop}
    (last : ∀ line, '\n' ∉ line → motive line)
    (terminated : ∀ line rest, '\n' ∉ line → motive rest → motive (line ++ '\n' :: rest))
    (text : List Char) : motive text := by
  by_cases hnewline : '\n' ∈ text
  · obtain ⟨line, rest, htext, hline⟩ := List.eq_append_cons_of_mem hnewline
    exact htext ▸ terminated line rest hline (lineInduction last terminated rest)
  · exact last text hnewline
termination_by text.length
decreasing_by
  simp only [htext, List.length_append, List.length_cons]
  omega

/-! ## Carriage returns -/

theorem stripStart?_singleton (c : Char) (text : List Char) :
    stripStart? [c] text = if text.head? = some c then some text.tail else none := by
  cases text with
  | nil => rfl
  | cons d rest =>
      simp only [stripStart?, List.head?_cons, List.tail_cons, Option.some.injEq, eq_comm]

/-- Only a carriage return at the end belongs to the ending of a line. -/
theorem dropCarriageReturn_eq (line : List Char) :
    dropCarriageReturn line = if line.getLast? = some '\r' then line.dropLast else line := by
  rw [dropCarriageReturn, stripEnd?, List.reverse_singleton, stripStart?_singleton,
    List.head?_reverse]
  split
  case isTrue => simp
  case isFalse => rfl

theorem dropCarriageReturn_of_getLast?_ne {line : List Char} (hlast : line.getLast? ≠ some '\r') :
    dropCarriageReturn line = line := by
  rw [dropCarriageReturn_eq, if_neg hlast]

theorem dropCarriageReturn_isPrefix (line : List Char) : dropCarriageReturn line <+: line := by
  rw [dropCarriageReturn_eq]
  split
  case isTrue => exact List.dropLast_prefix line
  case isFalse => exact List.prefix_refl line

/-! ## From one newline to the next -/

theorem terminatedLines_of_notMem {line : List Char} (hline : '\n' ∉ line) :
    terminatedLines line = ([], line) := by
  induction line with
  | nil => rfl
  | cons c rest ih =>
      obtain ⟨hc, hrest⟩ := List.ne_and_not_mem_of_not_mem_cons hline
      rw [terminatedLines, ih hrest]
      dsimp only
      rw [if_neg hc.symm]

theorem terminatedLines_append_newline {line : List Char} (hline : '\n' ∉ line)
    (text : List Char) :
    terminatedLines (line ++ '\n' :: text) =
      (line :: (terminatedLines text).1, (terminatedLines text).2) := by
  induction line with
  | nil => rfl
  | cons c rest ih =>
      obtain ⟨hc, hrest⟩ := List.ne_and_not_mem_of_not_mem_cons hline
      rw [List.cons_append, terminatedLines, ih hrest]
      dsimp only
      rw [if_neg hc.symm]

@[simp]
theorem lineChars_nil : lineChars [] = [] := rfl

theorem lineChars_of_notMem {line : List Char} (hline : '\n' ∉ line) :
    lineChars line = if line = [] then [] else [line] := by
  rw [lineChars, terminatedLines_of_notMem hline]
  rfl

theorem lineChars_append_newline {line : List Char} (hline : '\n' ∉ line) (text : List Char) :
    lineChars (line ++ '\n' :: text) = dropCarriageReturn line :: lineChars text := by
  rw [lineChars, terminatedLines_append_newline hline]
  rfl

theorem notMem_of_mem_lineChars {line text : List Char} (hmem : line ∈ lineChars text) :
    '\n' ∉ line := by
  induction text using lineInduction with
  | last whole hwhole =>
      rw [lineChars_of_notMem hwhole] at hmem
      split at hmem
      · cases hmem
      · rwa [List.mem_singleton.mp hmem]
  | terminated first rest hfirst ih =>
      rw [lineChars_append_newline hfirst] at hmem
      rcases List.mem_cons.mp hmem with rfl | hlater
      · exact fun hnewline => hfirst ((dropCarriageReturn_isPrefix first).subset hnewline)
      · exact ih hlater

/-- A newline between two texts keeps their lines apart. -/
theorem lineChars_append_cons (text after : List Char) :
    lineChars (text ++ '\n' :: after) = lineChars (text ++ ['\n']) ++ lineChars after := by
  induction text using lineInduction with
  | last line hline =>
      rw [lineChars_append_newline hline, lineChars_append_newline hline, lineChars_nil,
        List.singleton_append]
  | terminated line rest hline ih =>
      simp only [List.append_assoc, List.cons_append, lineChars_append_newline hline, ih]

/-- Where nothing depends on the endings of the lines, joined lines are found again. -/
theorem filterMap_lineChars_intercalate {α : Type} {read : List Char → Option α}
    {lines : List (List Char)} (hempty : read [] = none) (hunbroken : ∀ line ∈ lines, '\n' ∉ line)
    (hending : ∀ line ∈ lines, read (dropCarriageReturn line) = read line) :
    (lineChars (['\n'].intercalate lines)).filterMap read = lines.filterMap read := by
  induction lines with
  | nil => rfl
  | cons line others ih =>
      obtain ⟨hline, hrest⟩ := List.forall_mem_cons.mp hunbroken
      obtain ⟨hread, hreads⟩ := List.forall_mem_cons.mp hending
      cases others with
      | nil =>
          rw [List.intercalate_singleton, lineChars_of_notMem hline]
          split
          case isTrue hnone => rw [hnone, List.filterMap_cons_none hempty, List.filterMap_nil]
          case isFalse => rfl
      | cons next further =>
          rw [List.intercalate_cons_cons, List.append_assoc, List.singleton_append,
            lineChars_append_newline hline, List.filterMap_cons, List.filterMap_cons, hread,
            ih hrest hreads]

theorem length_lineChars_append_newline (text : List Char) :
    (lineChars (text ++ ['\n'])).length = text.count '\n' + 1 := by
  induction text using lineInduction with
  | last line hline =>
      rw [lineChars_append_newline hline, List.count_eq_zero_of_not_mem hline]
      rfl
  | terminated line rest hline ih =>
      rw [List.append_assoc, List.cons_append, lineChars_append_newline hline, List.length_cons, ih,
        List.count_append, List.count_eq_zero_of_not_mem hline, List.count_cons_self, Nat.zero_add]

end BuildPipeline.Text
