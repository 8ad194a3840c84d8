import BuildPipeline.Files.Path
import BuildPipeline.Proofs.Expression.Spans

/-!
# The pieces of a path

What joining and taking the parent, which work on texts, do to the pieces between slashes.

* `exists_pieces_join`: a name that is joined to a path is its last piece.
* `exists_parent?`: the parent has the pieces before the last one, if those that lead nowhere are
  not counted.  That they are dropped needs some care with absolute paths, whose first piece is
  empty as well.
-/

namespace BuildPipeline

theorem Text.splitAt_eq_splitOn (separator : Char) (text : List Char) :
    splitAt separator text = text.splitOn separator := by
  induction text with
  | nil => rfl
  | cons c text ih =>
      rw [splitAt, List.splitOn, List.splitOnP_cons_eq_if_modifyHead, ← List.splitOn, ← ih]
      by_cases hsame : c = separator
      · simp [hsame]
      · rw [if_neg hsame, if_neg (by simpa using hsame)]
        cases hpieces : splitAt separator text with
        | nil => exact absurd (ih ▸ hpieces) (List.splitOn_ne_nil separator text)
        | cons piece pieces => rfl

theorem Text.notMem_of_mem_splitAt {separator : Char} {text piece : List Char}
    (hpiece : piece ∈ splitAt separator text) : separator ∉ piece := by
  induction text generalizing piece with
  | nil =>
      rw [List.mem_singleton.mp hpiece]
      exact List.not_mem_nil
  | cons c text ih =>
      rw [splitAt] at hpiece
      split at hpiece
      · rcases List.mem_cons.mp hpiece with rfl | hlater
        · exact List.not_mem_nil
        · exact ih hlater
      · next hother =>
          split at hpiece
          · rw [List.mem_singleton.mp hpiece, List.mem_singleton]
            exact Ne.symm hother
          · next first pieces hpieces =>
              rw [hpieces] at ih
              rcases List.mem_cons.mp hpiece with rfl | hlater
              · rw [List.mem_cons, not_or]
                exact ⟨Ne.symm hother, ih List.mem_cons_self⟩
              · exact ih (List.mem_cons_of_mem first hlater)

namespace Path

variable {path root name piece : String} {front : List String}

theorem pieces_eq (path : String) : pieces path = (path.toList.splitOn '/').map String.ofList := by
  rw [pieces, Text.splitAt_eq_splitOn]

theorem pieces_ne_nil (path : String) : pieces path ≠ [] := by
  rw [pieces_eq, ne_eq, List.map_eq_nil_iff]
  exact List.splitOn_ne_nil _ _

theorem pieces_of_notMem (hslash : '/' ∉ path.toList) : pieces path = [path] := by
  rw [pieces_eq, List.splitOn_eq_singleton hslash, List.map_singleton, String.ofList_toList]

theorem pieces_append (front back : String) :
    pieces (front ++ "/" ++ back) = pieces front ++ pieces back := by
  have htext : (front ++ "/" ++ back).toList = front.toList ++ '/' :: back.toList := by simp
  rw [pieces_eq, htext, List.splitOn_append_cons_self, List.map_append, pieces_eq, pieces_eq]

theorem pieces_intercalate {names : List String} (hnames : names ≠ [])
    (hslash : ∀ name ∈ names, '/' ∉ name.toList) : pieces ("/".intercalate names) = names := by
  have htext : ("/".intercalate names).toList = ['/'].intercalate (names.map String.toList) := by
    rw [String.toList_intercalate]
    rfl
  rw [pieces_eq, htext, List.splitOn_intercalate]
  · simp
  · simpa using hslash
  · simpa using hnames

theorem slash_notMem (hpiece : piece ∈ pieces path) : '/' ∉ piece.toList := by
  obtain ⟨text, htext, rfl⟩ := List.mem_map.mp hpiece
  rw [String.toList_ofList]
  exact Text.notMem_of_mem_splitAt htext

theorem slash_notMem_of_append (hpieces : pieces path = front ++ [name]) :
    ∀ piece ∈ front, '/' ∉ piece.toList := by
  intro piece hpiece
  have hmem : piece ∈ pieces path := by
    rw [hpieces]
    exact List.mem_append_left [name] hpiece
  exact slash_notMem hmem

theorem isAbsolute_iff : isAbsolute path = true ↔ ∃ body : String, path = "/" ++ body := by
  rw [isAbsolute, Text.startsWith_iff_prefix]
  constructor
  · rintro ⟨body, hbody⟩
    refine ⟨String.ofList body, String.toList_inj.mp ?_⟩
    rw [← hbody]
    simp
  · rintro ⟨body, rfl⟩
    exact ⟨body.toList, by simp⟩

theorem pieces_absolute (body : String) : pieces ("/" ++ body) = "" :: pieces body :=
  pieces_append "" body

/-- A path whose first piece is empty is absolute, or there is nothing in it. -/
theorem isAbsolute_of_pieces {rest : List String} (hpieces : pieces path = "" :: rest)
    (hrest : rest ≠ []) : isAbsolute path = true := by
  have htext : path.toList = ['/'].intercalate ((pieces path).map String.toList) := by
    rw [pieces_eq, List.map_map]
    simp [Function.comp_def, List.intercalate_splitOn]
  rw [hpieces] at htext
  cases rest with
  | nil => exact absurd rfl hrest
  | cons second rest =>
      rw [List.map_cons, List.map_cons, List.intercalate_cons_cons] at htext
      rw [isAbsolute, Text.startsWith_iff_prefix, htext]
      exact ⟨_, rfl⟩

/-! ## Joining -/

/-- A name that is joined to a path is the last piece, behind pieces of the path. -/
theorem exists_pieces_join (root : String) (hslash : '/' ∉ name.toList) :
    ∃ front, pieces (join root name) = front ++ [name] ∧ ∀ piece ∈ front, piece ∈ pieces root := by
  have hname := pieces_of_notMem hslash
  have hrelative : isAbsolute name = false := by
    rw [Bool.eq_false_iff, ne_eq, isAbsolute_iff]
    rintro ⟨body, rfl⟩
    exact hslash (by simp)
  unfold join
  rw [hrelative, Bool.false_or]
  split
  · exact ⟨[], hname, fun _ hmem => absurd hmem List.not_mem_nil⟩
  · split
    · next hends =>
        obtain ⟨init, hinit⟩ : ∃ init : String, root = init ++ "/" := by
          rw [Text.endsWith, Text.startsWith_iff_prefix] at hends
          obtain ⟨init, hinit⟩ := List.reverse_prefix.mp hends
          exact ⟨String.ofList init, String.toList_inj.mp (by rw [← hinit]; simp)⟩
        subst hinit
        refine ⟨pieces init, ?_, fun piece hpiece => ?_⟩
        · rw [pieces_append, hname]
        · have hroot : pieces (init ++ "/" ++ "") = pieces init ++ pieces "" :=
            pieces_append init ""
          rw [String.append_empty] at hroot
          rw [hroot]
          exact List.mem_append_left _ hpiece
    · refine ⟨pieces root, ?_, fun _ hpiece => hpiece⟩
      rw [pieces_append, hname]

/-! ## The path of the directory -/

/-- The pieces that lead somewhere. -/
def steps (pieces : List String) : List String :=
  pieces.filter fun piece => !isNoStep piece

theorem steps_dropNoSteps (absolute : Bool) (pieces : List String) :
    steps (dropNoSteps absolute pieces) = steps pieces := by
  induction pieces with
  | nil => rfl
  | cons piece rest ih =>
      rw [dropNoSteps]
      split
      · next hdrop =>
          rw [ih, steps, steps, List.filter_cons, if_neg]
          simp only [Bool.and_eq_true] at hdrop
          simp [hdrop.1]
      · rfl

theorem dropNoSteps_suffix (absolute : Bool) (pieces : List String) :
    dropNoSteps absolute pieces <:+ pieces := by
  induction pieces with
  | nil => exact List.suffix_rfl
  | cons piece rest ih =>
      rw [dropNoSteps]
      split
      · exact ih.trans (List.suffix_cons piece rest)
      · exact List.suffix_rfl

theorem steps_reverse (pieces : List String) : steps pieces.reverse = (steps pieces).reverse :=
  List.filter_reverse

/-- The text of pieces that lead somewhere has no others. -/
theorem steps_intercalate {kept : List String} (hslash : ∀ piece ∈ kept, '/' ∉ piece.toList) :
    steps (pieces ("/".intercalate kept)) = steps kept := by
  by_cases hkept : kept = []
  · subst hkept
    rfl
  · rw [pieces_intercalate hkept hslash]

theorem dropNoSteps_of_name (absolute : Bool) (hpieces : pieces path = front ++ [name])
    (hname : isNoStep name = false) :
    dropNoSteps absolute (pieces path).reverse = name :: front.reverse := by
  rw [hpieces, List.reverse_concat, dropNoSteps, if_neg]
  simp [hname]

/-- The text of what is left of the pieces in front of a name. -/
theorem steps_kept (absolute : Bool) (hslash : ∀ piece ∈ front, '/' ∉ piece.toList) :
    steps (pieces ("/".intercalate (dropNoSteps absolute front.reverse).reverse)) =
      steps front := by
  have hkept : ∀ piece ∈ (dropNoSteps absolute front.reverse).reverse, '/' ∉ piece.toList := by
    intro piece hpiece
    have hmem := (dropNoSteps_suffix absolute front.reverse).subset (List.mem_reverse.mp hpiece)
    exact hslash piece (List.mem_reverse.mp hmem)
  rw [steps_intercalate hkept, steps_reverse, steps_dropNoSteps, steps_reverse,
    List.reverse_reverse]

/-- The text of what is left does not turn a relative path into an absolute one. -/
theorem isAbsolute_kept (absolute : Bool) (hpieces : pieces path = front ++ [name])
    (hrelative : isAbsolute path = false) :
    isAbsolute ("/".intercalate (dropNoSteps absolute front.reverse).reverse) = false ∨
      (dropNoSteps absolute front.reverse).reverse = [] := by
  rw [or_iff_not_imp_right]
  intro hkept
  rw [Bool.eq_false_iff, ne_eq, isAbsolute_iff]
  rintro ⟨body, hbody⟩
  have hextends : (dropNoSteps absolute front.reverse).reverse <+: front := by
    rw [← List.reverse_suffix, List.reverse_reverse]
    exact dropNoSteps_suffix absolute front.reverse
  have hslash : ∀ piece ∈ (dropNoSteps absolute front.reverse).reverse, '/' ∉ piece.toList :=
    fun piece hpiece => slash_notMem_of_append hpieces piece (hextends.subset hpiece)
  have hfirst := pieces_intercalate hkept hslash
  rw [hbody, pieces_absolute] at hfirst
  obtain ⟨rest, hrest⟩ := hextends
  have habsolute : pieces path = "" :: (pieces body ++ rest ++ [name]) := by
    rw [hpieces, ← hrest, ← hfirst]
    simp
  cases hrelative.symm.trans (isAbsolute_of_pieces habsolute (by simp))

/-- The path of the directory leads where the pieces before a name do. -/
theorem exists_parent? (hpieces : pieces path = front ++ [name]) (hname : isNoStep name = false) :
    ∃ parent, parent? path = some parent ∧ steps (pieces parent) = steps front ∧
      (isAbsolute parent = isAbsolute path ∨ parent = "" ∧ isAbsolute path = false) := by
  have hslash := slash_notMem_of_append hpieces
  cases habsolute : isAbsolute path with
  | true =>
      -- The slash in front is taken off first and put back at the end.
      obtain ⟨body, rfl⟩ := isAbsolute_iff.mp habsolute
      rw [pieces_absolute] at hpieces
      cases front with
      | nil =>
          rw [List.nil_append, List.cons.injEq] at hpieces
          exact absurd hpieces.2 (pieces_ne_nil body)
      | cons first front =>
          obtain ⟨rfl, hbody⟩ := List.cons.inj hpieces
          have hreversed : reversedPieces ("/" ++ body) = (true, name :: front.reverse) := by
            have htext : String.ofList (("/" ++ body).toList.drop 1) = body :=
              String.toList_inj.mp (by simp)
            simp only [reversedPieces, habsolute, if_true, htext]
            rw [dropNoSteps_of_name true hbody hname]
          refine ⟨_, by rw [parent?, hreversed], ?_, .inl ?_⟩
          · rw [if_pos rfl, pieces_absolute]
            exact steps_kept true fun piece hpiece => hslash piece (List.mem_cons_of_mem _ hpiece)
          · rw [if_pos rfl]
            exact isAbsolute_iff.mpr ⟨_, rfl⟩
  | false =>
      have hreversed : reversedPieces path = (false, name :: front.reverse) := by
        simp only [reversedPieces, habsolute, Bool.false_eq_true, if_false]
        rw [dropNoSteps_of_name false hpieces hname]
      refine ⟨_, by rw [parent?, hreversed], ?_, ?_⟩
      · rw [if_neg Bool.false_ne_true]
        exact steps_kept false hslash
      · rw [if_neg Bool.false_ne_true]
        refine (isAbsolute_kept false hpieces habsolute).imp_right fun hkept => ⟨?_, rfl⟩
        rw [hkept]
        rfl

end Path
end BuildPipeline
