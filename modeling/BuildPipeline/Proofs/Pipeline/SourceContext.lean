import BuildPipeline.Pipeline.DocumentError
import BuildPipeline.Proofs.Run.StatusTree
import BuildPipeline.Proofs.Text.Lines

/-!
# The lines around an error

An error shows the source lines around its own, each as a row with its number, and a caret in a row
below.

* `ContextRow` is such a row, and `writtenRows` what is written of some of them; rows hold no
  newline, so they are found again in the text (`splitOn_writtenRows`).
* `contextFrom_eq` and `window_eq` say which lines are written: those whose numbers are near enough,
  whether the distance reaches over the first line, over the last one, or over both.
* `getElem?_rowsOf_eq_caret_iff`: the row with the caret is the one below the line with the error.
* `source_context_is_window` puts this together.
-/

namespace BuildPipeline

namespace DocumentError

/-! ## Rows -/

/-- A row of the lines around an error. -/
inductive ContextRow where
  /-- A source line with its number. -/
  | source (marked : Bool) (number : Nat) (text : String)
  /-- A caret behind so many blanks. -/
  | caret (offset : Nat)
  deriving DecidableEq

namespace ContextRow

def text : ContextRow → String
  | source marked number text =>
    (if marked then ">" else " ") ++ " " ++ Text.padLeft 4 (toString number) ++ " | " ++ text
  | caret offset => "       | " ++ String.ofList (List.replicate offset ' ') ++ "^"

/-- The line of the source that a row shows, with its number. -/
def shown? : ContextRow → Option (String × Nat)
  | source _ number text => some (text, number)
  | caret _ => none

theorem notMem_newline_text {row : ContextRow}
    (hrow : ∀ line number, row.shown? = some (line, number) → '\n' ∉ line.toList) :
    '\n' ∉ row.text.toList := by
  cases row with
  | source marked number line =>
      have hline := hrow line number rfl
      cases marked <;> simp [text, Text.padLeft, notMem_newline_toDigits, hline]
  | caret offset => simp [text]

end ContextRow

/-- What is written of some rows, a newline behind each. -/
def writtenRows (rows : List ContextRow) : String :=
  String.join (rows.map fun row => row.text ++ "\n")

theorem writtenRows_append (rows further : List ContextRow) :
    writtenRows (rows ++ further) = writtenRows rows ++ writtenRows further := by
  rw [writtenRows, List.map_append, String.join_append, writtenRows, writtenRows]

theorem splitOn_writtenRows {rows : List ContextRow}
    (hrows : ∀ row ∈ rows, '\n' ∉ row.text.toList) :
    (writtenRows rows).toList.splitOn '\n' = rows.map (·.text.toList) ++ [[]] := by
  induction rows with
  | nil => rfl
  | cons row rows ih =>
      obtain ⟨hrow, hrest⟩ := List.forall_mem_cons.mp hrows
      have htext : (writtenRows (row :: rows)).toList =
          row.text.toList ++ '\n' :: (writtenRows rows).toList := by
        simp [writtenRows]
      rw [htext, List.splitOn_append_cons_self, List.splitOn_eq_singleton hrow, ih hrest,
        List.map_cons, List.singleton_append, List.cons_append]

/-- The row of a source line, and a caret below it if it is the line with the error and the column
is known. -/
def rowsAt (line column : Nat) (entry : String × Nat) : List ContextRow :=
  .source (entry.2 == line) entry.2 entry.1 ::
    if entry.2 = line ∧ 0 < column then [.caret (column - 1)] else []

def rowsOf (line column : Nat) (entries : List (String × Nat)) : List ContextRow :=
  entries.flatMap (rowsAt line column)

theorem writtenRows_rowsAt (line column number : Nat) (text : String) :
    writtenRows (rowsAt line column (text, number)) =
      contextLine line number text ++
        if number = line ∧ 0 < column then caretRow column else "" := by
  have hend (front : String) : front ++ "^" ++ "\n" = front ++ "^\n" :=
    String.append_assoc
  rw [rowsAt, writtenRows, List.map_cons, String.join_cons, contextLine]
  dsimp only
  split
  case isTrue hcaret => simp [ContextRow.text, hcaret.1, caretRow, hend]
  case isFalse => simp [ContextRow.text]

/-! ## Lines that are near enough -/

theorem contextFrom_eq (line column last number : Nat) (texts : List String) :
    contextFrom line column last number texts =
      writtenRows (rowsOf line column
        ((texts.zipIdx number).filter fun entry => entry.2 ≤ last)) := by
  induction texts generalizing number with
  | nil => rfl
  | cons text rest ih =>
      rw [contextFrom]
      split
      case isTrue hbehind =>
          -- Numbers only grow, so nothing further is near enough.
          have hnothing :
              ((text :: rest).zipIdx number).filter (fun entry => entry.2 ≤ last) = [] := by
            rw [List.filter_eq_nil_iff]
            rintro ⟨other, place⟩ hmem
            have hplace := (List.mem_zipIdx hmem).1
            simp only [decide_eq_true_eq]
            omega
          rw [hnothing]
          rfl
      case isFalse hnear =>
          rw [List.zipIdx_cons, List.filter_cons_of_pos (by simpa using hnear), ih, rowsOf, rowsOf,
            List.flatMap_cons, writtenRows_append, writtenRows_rowsAt]

/-- The lines behind the first `skipped` ones have the numbers that are greater. -/
theorem window_eq {α : Type} (items : List α) (skipped last : Nat) :
    ((items.drop skipped).zipIdx (skipped + 1)).filter (fun entry => entry.2 ≤ last) =
      (items.zipIdx 1).filter fun entry => skipped < entry.2 ∧ entry.2 ≤ last := by
  by_cases hall : items.length ≤ skipped
  · have hnone : (items.zipIdx 1).filter
        (fun entry => skipped < entry.2 ∧ entry.2 ≤ last) = [] := by
      rw [List.filter_eq_nil_iff]
      rintro ⟨item, number⟩ hmem
      have hnumber := (List.mem_zipIdx hmem).2.1
      simp only [decide_eq_true_eq]
      omega
    rw [hnone, List.drop_of_length_le hall]
    rfl
  · have hlength : (items.take skipped).length = skipped := by
      rw [List.length_take]
      omega
    have hfront : ((items.take skipped).zipIdx 1).filter
        (fun entry => skipped < entry.2 ∧ entry.2 ≤ last) = [] := by
      rw [List.filter_eq_nil_iff]
      rintro ⟨item, number⟩ hmem
      have hnumber := (List.mem_zipIdx hmem).2.1
      simp only [decide_eq_true_eq]
      omega
    conv_rhs => rw [← List.take_append_drop skipped items, List.zipIdx_append, List.filter_append,
      hfront, List.nil_append, hlength, Nat.add_comm 1]
    refine List.filter_congr ?_
    rintro ⟨item, number⟩ hmem
    have hnumber := (List.mem_zipIdx hmem).1
    simp only [decide_eq_decide]
    omega

/-! ## Where the rows stand -/

section Rows

variable {line column : Nat} {entries : List (String × Nat)}

theorem filterMap_shown?_rowsOf (line column : Nat) (entries : List (String × Nat)) :
    (rowsOf line column entries).filterMap ContextRow.shown? = entries := by
  induction entries with
  | nil => rfl
  | cons entry rest ih =>
      rw [rowsOf, List.flatMap_cons, List.filterMap_append, ← rowsOf, ih, rowsAt]
      split <;> rfl

theorem marked_of_mem_rowsOf {marked : Bool} {number : Nat} {text : String}
    (hmem : .source marked number text ∈ rowsOf line column entries) :
    marked = (number == line) := by
  obtain ⟨entry, -, hrow⟩ := List.mem_flatMap.mp hmem
  rcases List.mem_cons.mp hrow with hsource | hcaret
  · cases hsource
    rfl
  · split at hcaret <;> simp at hcaret

/-- A caret stands below the line with the error, if the column is known, and nowhere else. -/
theorem getElem?_rowsOf_eq_caret_iff (line column : Nat) (entries : List (String × Nat))
    (place offset : Nat) :
    (rowsOf line column entries)[place]? = some (.caret offset) ↔
      0 < column ∧ offset = column - 1 ∧ ∃ above text, place = above + 1 ∧
        (rowsOf line column entries)[above]? = some (.source true line text) := by
  induction entries generalizing place with
  | nil => simp [rowsOf]
  | cons entry rest ih =>
      obtain ⟨text, number⟩ := entry
      have hrows : rowsOf line column ((text, number) :: rest) =
          rowsAt line column (text, number) ++ rowsOf line column rest := rfl
      have hfirst : (rowsOf line column rest)[0]? ≠ some (.caret offset) := by
        simp [ih 0]
      rw [hrows, rowsAt]
      by_cases hcaret : number = line ∧ 0 < column
      · rw [if_pos hcaret]
        obtain ⟨rfl, hcolumn⟩ := hcaret
        match place with
        | 0 => simp
        | 1 => simp [hcolumn, eq_comm]
        | 2 => simpa using hfirst
        | place + 3 => simpa using ih (place + 1)
      · rw [if_neg hcaret]
        match place with
        | 0 => simp
        | 1 =>
            -- The line above is not the one with the error, or its column is unknown.
            have hnot : 0 < column → number ≠ line := fun hcolumn heq => hcaret ⟨heq, hcolumn⟩
            simp only [List.cons_append, List.nil_append, List.getElem?_cons_succ, hfirst,
              false_iff]
            rintro ⟨hcolumn, -, above, other, habove, hsource⟩
            obtain rfl : above = 0 := by omega
            rw [List.getElem?_cons_zero, Option.some.injEq, ContextRow.source.injEq] at hsource
            exact hnot hcolumn hsource.2.1
        | place + 2 => simpa using ih (place + 1)

end Rows

/-! ## The lines around an error -/

/-- The lines of a source with their numbers, which count from one. -/
def numberedLines (source : String) : List (String × Nat) :=
  (Text.lines source).zipIdx 1

/-- An error whose line is known gets rows for the lines around it and is otherwise as it was.  The
rows can be read in the text, each ended by a newline.  They show exactly the lines of the source
whose numbers differ from the error's by at most `reach`, each once, in order and with its number;
the one of that number is marked; and below it, if the column is known, and nowhere else stands a
caret, behind one blank less than the column says. -/
theorem source_context_is_window (error : DocumentError) (source : String) (reach : Nat)
    (hline : 0 < error.line) :
    ∃ rows : List ContextRow,
      error.withContext source reach =
        { error with context := String.join (rows.map fun row => row.text ++ "\n") } ∧
      (error.withContext source reach).context.toList.splitOn '\n' =
        rows.map (·.text.toList) ++ [[]] ∧
      rows.filterMap ContextRow.shown? = (numberedLines source).filter (fun entry =>
        entry.2 ≤ error.line + reach ∧ error.line ≤ entry.2 + reach) ∧
      (∀ marked number text, .source marked number text ∈ rows →
        (marked = true ↔ number = error.line)) ∧
      ∀ place offset, rows[place]? = some (.caret offset) ↔
        0 < error.column ∧ offset = error.column - 1 ∧ ∃ above text, place = above + 1 ∧
          rows[above]? = some (.source true error.line text) := by
  let near := (numberedLines source).filter fun entry =>
    entry.2 ≤ error.line + reach ∧ error.line ≤ entry.2 + reach
  have hwindow : near = (((Text.lines source).drop (error.line - (reach + 1))).zipIdx
      (error.line - (reach + 1) + 1)).filter fun entry => entry.2 ≤ error.line + reach := by
    rw [window_eq]
    refine List.filter_congr ?_
    rintro ⟨text, number⟩ hmem
    have hnumber := (List.mem_zipIdx hmem).1
    simp only [decide_eq_decide]
    omega
  have hwritten : error.withContext source reach =
      { error with context := writtenRows (rowsOf error.line error.column near) } := by
    rw [withContext, if_neg (Nat.ne_of_gt hline)]
    dsimp only
    rw [contextFrom_eq, hwindow]
  have hunbroken : ∀ row ∈ rowsOf error.line error.column near, '\n' ∉ row.text.toList := by
    intro row hrow
    refine ContextRow.notMem_newline_text fun text number hshown => ?_
    have hnear : (text, number) ∈ near := by
      rw [← filterMap_shown?_rowsOf error.line error.column near]
      exact List.mem_filterMap.mpr ⟨row, hrow, hshown⟩
    have htext : text ∈ Text.lines source :=
      (List.mem_zipIdx (List.mem_of_mem_filter hnear)).2.2 ▸ List.getElem_mem _
    obtain ⟨chars, hchars, rfl⟩ := List.mem_map.mp htext
    simpa using Text.notMem_of_mem_lineChars hchars
  refine ⟨rowsOf error.line error.column near, hwritten, ?_, filterMap_shown?_rowsOf _ _ _, ?_,
    getElem?_rowsOf_eq_caret_iff _ _ _⟩
  · rw [hwritten]
    exact splitOn_writtenRows hunbroken
  · intro marked number text hmem
    rw [marked_of_mem_rowsOf hmem, beq_iff_eq]

/-- An error in the third of four lines, seven columns behind the start of the text. -/
def jobsError : DocumentError where
  message := "invalid type"
  kind := .schema
  line := 3
  column := 11

theorem source_context_is_window_jobs :
    0 < jobsError.line ∧
      ∃ rows : List ContextRow,
        (jobsError.withContext "name: ci\nstages:\n    jobs: 3\n  - stage: Test" 1).context =
          String.join (rows.map fun row => row.text ++ "\n") ∧
        rows.filterMap ContextRow.shown? =
          [("stages:", 2), ("    jobs: 3", 3), ("  - stage: Test", 4)] ∧
        ∃ place, rows[place]? = some (.source true 3 "    jobs: 3") ∧
          rows[place + 1]? = some (.caret 10) := by
  have hline : 0 < jobsError.line := by decide
  obtain ⟨rows, hcontext, -, hshown, hmarked, hcaret⟩ := source_context_is_window jobsError
    "name: ci\nstages:\n    jobs: 3\n  - stage: Test" 1 hline
  have hwindow : rows.filterMap ContextRow.shown? =
      [("stages:", 2), ("    jobs: 3", 3), ("  - stage: Test", 4)] :=
    hshown.trans (by decide +kernel)
  have hthird : ("    jobs: 3", 3) ∈ rows.filterMap ContextRow.shown? := by simp [hwindow]
  obtain ⟨row, hrow, hthis⟩ := List.mem_filterMap.mp hthird
  cases row with
  | caret offset => cases hthis
  | source marked number text =>
      cases hthis
      obtain rfl : marked = true := (hmarked _ _ _ hrow).mpr rfl
      obtain ⟨place, hplace⟩ := List.mem_iff_getElem?.mp hrow
      exact ⟨hline, rows, congrArg DocumentError.context hcontext, hwindow, place, hplace,
        (hcaret _ _).mpr ⟨by decide, rfl, place, _, rfl, hplace⟩⟩

end DocumentError

end BuildPipeline
