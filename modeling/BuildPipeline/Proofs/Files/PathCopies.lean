import BuildPipeline.Proofs.Files.Copies

/-!
# Copies between paths

A copy looks its source up by its path, makes the directories that its target needs and copies then.
What it has made can lie on the way to the source, or in the source.

* `PathCopying` is the course of such a copy, and `Copied` says how it ends well.
* `Copied.copyDone`: on a clear way, beside its source, it lays the source over the target, and the
  path of the target leads there afterwards.
* `Copied.isSome_source`, `Copied.not_inside`: it does not end well without a source, or in it.
-/

namespace BuildPipeline.Files

open BuildPipeline.Path (IsName)

variable {files made next : Files} {source target : String}

/-! ## The course of a copy -/

/-- A file is put where a path leads. -/
def placeFile (source target : String) : FileChange Unit := do
  let files ← get
  let text ← (files.read source : Except FileError String)
  let place ← (files.writable target : Except FileError Location)
  let source ← (files.locate source : Except FileError Location)
  overwrite source place text

/-- A file is put where a path leads, with the directories above it. -/
def copyFile (source target : String) : FileChange Unit := do
  match Path.parent? target with
  | some parent => if parent ≠ "" then let _ ← makeAll parent
  | none => pure ()
  placeFile source target

theorem run_copy_of_file (hsource : files.isDirectory source = false) :
    (copy source target).run files = (copyFile source target).run files := by
  rw [copy, FileChange.run_get_bind, if_neg (Bool.eq_false_iff.mp hsource), copyFile]
  cases Path.parent? target with
  | none => rfl
  | some parent =>
      dsimp only
      split <;> rfl

/-- The course of a copy between paths.  Only directories take calls that are nested. -/
inductive PathCopying (depth : Nat) (source target : String) (files : Files) :
    Except FileError Unit × Files → Prop
  /-- The directory that is to hold the copy cannot be made. -/
  | refused {error : FileError} {made : Files} (hsource : files.isDirectory source = true)
      (hmake : (makeAll target).run files = (.error error, made)) :
      PathCopying depth source target files (.error error, made)
  /-- What has been made is in the way to the source. -/
  | lost {place : Location} {error : FileError} {made : Files}
      (hsource : files.isDirectory source = true)
      (hmake : (makeAll target).run files = (.ok place, made))
      (hlocate : made.locate source = .error error) :
      PathCopying depth source target files (.error error, made)
  | directory {place origin : Location} {made : Files} {outcome : Except FileError Unit × Files}
      (hsource : files.isDirectory source = true)
      (hmake : (makeAll target).run files = (.ok place, made))
      (hlocate : made.locate source = .ok origin)
      (hcourse : Copying depth origin place none made outcome) :
      PathCopying depth source target files outcome
  | file (hsource : files.isDirectory source = false) :
      PathCopying depth source target files ((copyFile source target).run files)

/-- A copy comes to what its course says. -/
theorem PathCopying.run_copy {depth : Nat} {outcome : Except FileError Unit × Files}
    (hcourse : PathCopying depth source target files outcome) :
    (copy source target).run files = outcome := by
  cases hcourse with
  | refused hsource hmake =>
      rw [copy, FileChange.run_get_bind, if_pos hsource]
      exact FileChange.run_bind_of_error hmake
  | lost hsource hmake hlocate =>
      rw [copy, FileChange.run_get_bind, if_pos hsource, FileChange.run_bind_of_ok hmake,
        FileChange.run_get_bind, hlocate]
      rfl
  | directory hsource hmake hlocate hcourse =>
      rw [copy, FileChange.run_get_bind, if_pos hsource, FileChange.run_bind_of_ok hmake,
        FileChange.run_get_bind, hlocate]
      exact hcourse.comesTo
  | file hsource => exact run_copy_of_file hsource

/-- Every copy has a course, nested no deeper than a path is long. -/
theorem pathCopying_run (source target : String) (files : Files) :
    PathCopying (Path.longest + 1) source target files ((copy source target).run files) := by
  by_cases hsource : files.isDirectory source = true
  · rw [copy, FileChange.run_get_bind, if_pos hsource]
    rcases hmake : (makeAll target).run files with ⟨result, made⟩
    cases result with
    | error error =>
        rw [FileChange.run_bind_of_error hmake]
        exact .refused hsource hmake
    | ok place =>
        rw [FileChange.run_bind_of_ok hmake, FileChange.run_get_bind]
        cases hlocate : made.locate source with
        | error error => exact .lost hsource hmake hlocate
        | ok origin =>
            have hroom : room place ≤ Path.longest + 1 := Nat.sub_le _ _
            exact .directory hsource hmake hlocate ((copying_run origin place made).mono hroom)
  · have hfile := Bool.eq_false_iff.mpr hsource
    rw [run_copy_of_file hfile]
    exact .file hfile

/-! ## Copies that end well -/

/-- What has been made for the directory of a file. -/
inductive ParentMade (files : Files) (target : String) : Files → Prop
  | made {parent : String} {place : Location} {made : Files}
      (hparent : Path.parent? target = some parent) (hnonempty : parent ≠ "")
      (hmake : (makeAll parent).run files = (.ok place, made)) : ParentMade files target made
  | idle (hparent : ∀ parent, Path.parent? target = some parent → parent = "") :
      ParentMade files target files

/-- How a copy ends well. -/
inductive Copied (files : Files) (source target : String) : Files → Prop
  | directory {depth : Nat} {place origin : Location} {made next : Files}
      (hsource : files.isDirectory source = true)
      (hmake : (makeAll target).run files = (.ok place, made))
      (hlocate : made.locate source = .ok origin)
      (hcourse : Copying depth origin place none made (.ok (), next)) :
      Copied files source target next
  | file {place origin : Location} {made : Files} {text : String}
      (hparent : ParentMade files target made) (hread : made.read source = .ok text)
      (hwritable : made.writable target = .ok place) (hlocate : made.locate source = .ok origin) :
      Copied files source target (made.set place (.file (if origin = place then "" else text)))

theorem copied_of_placeFile (hparent : ParentMade files target made)
    (hplace : (placeFile source target).run made = (.ok (), next)) :
    Copied files source target next := by
  rw [placeFile, FileChange.run_get_bind] at hplace
  obtain ⟨text, _, hread, hplaced⟩ := FileChange.bind_eq_ok hplace
  obtain ⟨hread, rfl⟩ := FileChange.lift_eq_ok hread
  obtain ⟨place, _, hwritable, hfound⟩ := FileChange.bind_eq_ok hplaced
  obtain ⟨hwritable, rfl⟩ := FileChange.lift_eq_ok hwritable
  obtain ⟨origin, _, hlocate, hwrite⟩ := FileChange.bind_eq_ok hfound
  obtain ⟨hlocate, rfl⟩ := FileChange.lift_eq_ok hlocate
  obtain rfl := overwrite_eq_ok hwrite
  exact .file hparent hread hwritable hlocate

theorem copied_of_copyFile (hcopy : (copyFile source target).run files = (.ok (), next)) :
    Copied files source target next := by
  unfold copyFile at hcopy
  split at hcopy
  · next parent hparent =>
      split at hcopy
      · next hnonempty =>
          obtain ⟨place, made, hmake, hcopy⟩ := FileChange.bind_eq_ok hcopy
          exact copied_of_placeFile (.made hparent hnonempty hmake) hcopy
      · next hempty =>
          refine copied_of_placeFile (.idle fun other hother => ?_) hcopy
          obtain rfl := Option.some.inj (hother.symm.trans hparent)
          exact not_not.mp hempty
  · next hparent =>
      refine copied_of_placeFile (.idle fun other hother => ?_) hcopy
      cases hother.symm.trans hparent

theorem PathCopying.copied {depth : Nat} {outcome : Except FileError Unit × Files}
    (hcourse : PathCopying depth source target files outcome) (hok : outcome.1 = .ok ()) :
    Copied files source target outcome.2 := by
  cases hcourse with
  | refused => cases hok
  | lost => cases hok
  | @directory _ _ _ outcome hsource hmake hlocate hcourse =>
      obtain ⟨result, next⟩ := outcome
      obtain rfl := hok
      exact .directory hsource hmake hlocate hcourse
  | file => exact copied_of_copyFile (Prod.ext hok rfl)

/-- The directory of a file is made where the pieces before the last one lead. -/
theorem ParentMade.makes (hparent : ParentMade files target made) (hfiles : files.WellFormed)
    (hstart : files.item? (files.start target) = some .directory) {front : List String}
    {name : String} (hpieces : Path.pieces target = front ++ [name]) (hname : IsName name) :
    MakesDirectories files made (Path.way (files.start target) front) := by
  obtain ⟨parent, hfound, hsteps, habsolute⟩ := Path.exists_parent? hpieces hname.1
  cases hparent with
  | made hother hnonempty hmake =>
      obtain rfl := Option.some.inj (hfound.symm.trans hother)
      have hsame := habsolute.resolve_right fun hempty => hnonempty hempty.1
      have horigin : files.start parent = files.start target := by rw [start, start, hsame]
      obtain ⟨-, -, -, hmakes⟩ := makeAll_eq_ok hfiles (horigin ▸ hstart) hmake
      refine hmakes.congr fun place => ?_
      rw [way, horigin, ← Path.mem_way_steps, ← hsteps, Path.mem_way_steps]
  | idle hidle =>
      obtain rfl := hidle parent hfound
      have hfront : Path.steps front = [] := hsteps.symm
      have hstill : MakesDirectories files files [files.start target] :=
        ⟨hfiles, rfl, List.forall_mem_singleton.mpr hstart, fun _ _ => rfl,
          List.forall_mem_singleton.mpr (.inr hstart)⟩
      refine hstill.congr fun place => ?_
      rw [← Path.mem_way_steps, hfront]
      exact Iff.rfl

theorem isDirectory_eq_true (hfiles : files.WellFormed)
    (hdirectory : files.isDirectory source = true) :
    files.item? (files.goal source) = some .directory := by
  unfold isDirectory at hdirectory
  split at hdirectory
  · next location hlocate =>
      rw [← (locate_eq_ok hfiles hlocate).1]
      exact isDirectoryAt_iff.mp hdirectory
  · cases hdirectory

theorem read_eq_ok (hfiles : files.WellFormed) {text : String}
    (hread : files.read source = .ok text) :
    files.item? (files.goal source) = some (.file text) := by
  unfold read at hread
  cases hlocate : files.locate source with
  | error error =>
      rw [hlocate] at hread
      cases hread
  | ok location =>
      simp only [hlocate, bind, Except.bind] at hread
      obtain ⟨rfl, -⟩ := locate_eq_ok hfiles hlocate
      split at hread
      · next hitem =>
          split at hread
          · cases hread
          · cases hread
            exact hitem
      · cases hread
      · cases hread

/-- A file is about to be put where its path leads. -/
structure Placing (files made : Files) (source target text : String) (front : List String)
    (name : String) : Prop where
  pieces : Path.pieces target = front ++ [name]
  isName : IsName name
  length : target.utf8ByteSize ≤ Path.longest
  fits : name.utf8ByteSize ≤ Path.longestName
  short : Short front
  makes : MakesDirectories files made (Path.way (files.start target) front)
  item : made.item? (files.goal source) = some (.file text)
  plain : made.item? (files.goal target) ≠ some .directory

/-- That is so when the file could be read and its place could be written. -/
theorem ParentMade.exists_placing {place origin : Location} {text : String}
    (hparent : ParentMade files target made) (hfiles : files.WellFormed)
    (hstart : files.item? (files.start target) = some .directory)
    (hread : made.read source = .ok text) (hwritable : made.writable target = .ok place)
    (hlocate : made.locate source = .ok origin) :
    place = files.goal target ∧ origin = files.goal source ∧
      ∃ front name, Placing files made source target text front name := by
  obtain ⟨front, name, parent, hpieces, hname, hlength, hfits, hwalk, rfl, hdirectory, hplain⟩ :=
    writable_eq_ok hwritable
  have hmakes := hparent.makes hfiles hstart hpieces hname
  have hworking := hmakes.workingDirectory
  have hgoal : files.goal target = Path.goal (files.start target) front ++ [name] := by
    rw [goal, hpieces, Path.goal_concat hname]
  rw [start_congr hworking] at hwalk
  have hbegin : (made.item? (files.start target)).isSome := by
    rw [hmakes.made _ Path.mem_way_start]
    rfl
  obtain ⟨rfl, -⟩ := walk_eq_ok hmakes.wellFormed hbegin hwalk
  have horigin := (locate_eq_ok hmakes.wellFormed hlocate).1
  have hitem := read_eq_ok hmakes.wellFormed hread
  rw [goal_congr hworking] at horigin hitem
  rw [← hgoal] at hplain ⊢
  exact ⟨rfl, horigin, front, name, hpieces, hname, hlength, hfits, short_of_walk hwalk, hmakes,
    hitem, hplain⟩

namespace Placing

variable {text name : String} {front : List String}
  (hplacing : Placing files made source target text front name)

include hplacing

theorem goal : files.goal target = Path.goal (files.start target) front ++ [name] := by
  rw [Files.goal, hplacing.pieces, Path.goal_concat hplacing.isName]

theorem parent : made.item? (Path.goal (files.start target) front) = some .directory :=
  hplacing.makes.made _ Path.goal_mem_way

theorem mem_way {passed : Location} (hpassed : passed ∈ Path.way (files.start target) front) :
    passed ∈ files.way target := by
  rw [way, hplacing.pieces, Path.mem_way_append]
  exact .inl hpassed

/-- The file was there before its place was made. -/
theorem item_source : files.item? (files.goal source) = some (.file text) := by
  by_cases hmem : files.goal source ∈ Path.way (files.start target) front
  · cases (hplacing.makes.made _ hmem).symm.trans hplacing.item
  · rw [← hplacing.makes.others _ hmem, hplacing.item]

end Placing

/-! ## What is copied -/

/-- What a copy comes to: the source is laid over the target, which the path then leads to, and
elsewhere directories are made on the way. -/
structure CopyDone (files next : Files) (source target : String) : Prop where
  wellFormed : next.WellFormed
  workingDirectory : next.workingDirectory = files.workingDirectory
  copied : ∀ rest, next.item? (files.goal target ++ rest) =
    (files.item? (files.goal source ++ rest)).or (files.item? (files.goal target ++ rest))
  others : ∀ place, ¬ files.goal target <+: place → next.item? place = files.item? place ∨
    files.item? place = none ∧ next.item? place = some .directory ∧ place ∈ files.way target
  locate : next.locate target = .ok (files.goal target)

/-- Where the directories above the target have been made, nothing is left to do but the target. -/
theorem Overlays.item?_beside {origin place passed : Location}
    (hoverlays : Overlays made next origin place) (hmade : made.WellFormed)
    (hparent : made.item? place.dropLast = some .directory) (houtside : ¬ place <+: passed) :
    next.item? passed = made.item? passed := by
  rw [hoverlays.others passed houtside]
  split
  · next hextends =>
      have hproper : passed ≠ place := fun heq => houtside (heq ▸ List.prefix_rfl)
      by_cases hsame : passed = place.dropLast
      · rw [hsame, hparent]
      · have habove := prefix_dropLast hextends hproper
        exact (hmade.directory_of_prefix (by rw [hparent]; rfl) habove hsame).symm
  · rfl

section Clear

variable (hfiles : files.WellFormed) (hclear : files.HasClearWay (files.goal source) target)
  (hapart : Apart (files.goal source) (files.goal target))

include hclear hapart

/-- What was made on a clear way does not matter for the copy. -/
theorem Overlays.copied_of_clear {entry : FileEntry} {places : List Location}
    (hoverlays : Overlays made next (files.goal source) (files.goal target))
    (hitem : files.item? (files.goal source) = some entry)
    (hmakes : MakesDirectories files made places)
    (hplaces : ∀ place ∈ places, place ∈ files.way target) (rest : Location) :
    next.item? (files.goal target ++ rest) =
      (files.item? (files.goal source ++ rest)).or (files.item? (files.goal target ++ rest)) := by
  rw [hoverlays.copied rest, hclear.item?_of_source hmakes hplaces hapart.1]
  cases rest with
  | nil => simp [hitem]
  | cons name rest => rw [hclear.item?_below_goal hmakes hplaces (List.cons_ne_nil name rest)]

include hfiles

/-- A directory is copied. -/
theorem copyDone_of_tree {place origin : Location} (hsource : files.isDirectory source = true)
    (hmake : (makeAll target).run files = (.ok place, made))
    (hlocate : made.locate source = .ok origin) {depth : Nat}
    (hcourse : Copying depth origin place none made (.ok (), next)) :
    CopyDone files next source target := by
  have hdirectory := isDirectory_eq_true hfiles hsource
  obtain ⟨rfl, hlength, hshort, hmakes⟩ := makeAll_eq_ok hfiles hclear.start.1 hmake
  obtain ⟨rfl, -⟩ := locate_eq_ok hmakes.wellFormed hlocate
  rw [goal_congr hmakes.workingDirectory] at hcourse
  have hplace : made.item? (files.goal target) = some .directory :=
    hmakes.made _ Path.goal_mem_way
  have hnames := hmakes.wellFormed.names (by rw [hplace]; rfl)
  obtain ⟨hnext, hworking⟩ := hcourse.wellFormed hmakes.wellFormed hnames
    (fun _ hmem => absurd hmem List.not_mem_nil) rfl
  have hlaid : Overlays made next (files.goal source) (files.goal target) :=
    hcourse.lays hmakes.wellFormed hnames (fun _ hmem => absurd hmem List.not_mem_nil) hapart rfl
  have hcopied := hlaid.copied_of_clear hclear hapart hdirectory hmakes fun _ hmem => hmem
  have hbeside : ∀ passed, ¬ files.goal target <+: passed →
      next.item? passed = made.item? passed := fun _ =>
    hlaid.item?_beside hmakes.wellFormed (hmakes.wellFormed.dropLast hplace)
  have hworking := hworking.trans hmakes.workingDirectory
  refine ⟨hnext, hworking, hcopied, fun passed houtside => ?_, ?_⟩
  · rw [hbeside passed houtside]
    exact hmakes.item?_cases passed
  · have hway : ∀ passed ∈ files.way target, next.item? passed = some .directory := by
      intro passed hpassed
      rcases hclear.goal passed hpassed with rfl | houtside
      · have hgoal := hcopied []
        rwa [List.append_nil, List.append_nil, hdirectory, Option.some_or] at hgoal
      · rw [hbeside passed houtside, hmakes.made passed hpassed]
    have hwalk := walk_of_directories hshort hway []
    rw [List.append_nil] at hwalk
    rw [hclear.locate_eq hlength hworking, hwalk]
    rfl

omit hfiles in
/-- A file is copied. -/
theorem Placing.copyDone {text name : String} {front : List String}
    (hplacing : Placing files made source target text front name) :
    CopyDone files (made.set (files.goal target) (.file text)) source target := by
  have hmakes := hplacing.makes
  have hgoal := hplacing.goal
  have hlaid : Overlays made (made.set (files.goal target) (.file text)) (files.goal source)
      (files.goal target) := by
    rw [hgoal]
    exact overlays_of_set name hmakes.wellFormed hplacing.item hplacing.parent
  have hcopied := hlaid.copied_of_clear hclear hapart hplacing.item_source hmakes fun _ =>
    hplacing.mem_way
  have hbeside : ∀ passed, ¬ files.goal target <+: passed →
      (made.set (files.goal target) (.file text)).item? passed = made.item? passed := fun _ =>
    hlaid.item?_beside hmakes.wellFormed (by rw [hgoal, List.dropLast_concat, hplacing.parent])
  have hnext : (made.set (files.goal target) (.file text)).WellFormed := by
    have hplain := hplacing.plain
    rw [hgoal] at hplain ⊢
    exact hmakes.wellFormed.set hplacing.isName hplacing.parent hplain _
  have hworking : (made.set (files.goal target) (.file text)).workingDirectory =
      files.workingDirectory := hmakes.workingDirectory
  refine ⟨hnext, hworking, hcopied, fun passed houtside => ?_, ?_⟩
  · rw [hbeside passed houtside]
    exact (hmakes.item?_cases passed).imp_right fun ⟨hmissing, hmade, hmem⟩ =>
      ⟨hmissing, hmade, hplacing.mem_way hmem⟩
  · have hway : ∀ passed ∈ Path.way (files.start target) front,
        (made.set (files.goal target) (.file text)).item? passed = some .directory := by
      intro passed hpassed
      have hmade := hmakes.made passed hpassed
      rcases hclear.goal passed (hplacing.mem_way hpassed) with rfl | houtside
      · exact absurd hmade hplacing.plain
      · rw [hbeside passed houtside, hmade]
    have hpresent := hcopied []
    rw [List.append_nil, List.append_nil, hplacing.item_source, Option.some_or] at hpresent
    rw [hclear.locate_eq hplacing.length hworking, hplacing.pieces,
      walk_of_directories hplacing.short hway [name], walk,
      if_neg (by simp [isDirectoryAt, hway _ Path.goal_mem_way]),
      if_neg (by rw [hplacing.isName.1]; exact Bool.false_ne_true), if_neg hplacing.isName.2,
      if_neg (Nat.not_lt.mpr hplacing.fits), ← hgoal]
    simp [hpresent, walk]

/-- A copy that ends well has laid its source over its target. -/
theorem Copied.copyDone (hcopied : Copied files source target next) :
    CopyDone files next source target := by
  cases hcopied with
  | directory hsource hmake hlocate hcourse =>
      exact copyDone_of_tree hfiles hclear hapart hsource hmake hlocate hcourse
  | file hparent hread hwritable hlocate =>
      obtain ⟨rfl, rfl, front, name, hplacing⟩ :=
        hparent.exists_placing hfiles hclear.start.1 hread hwritable hlocate
      have hother : files.goal source ≠ files.goal target := fun heq =>
        hapart.1 (heq ▸ List.prefix_rfl)
      rw [if_neg hother]
      exact hplacing.copyDone hclear hapart

end Clear

/-! ## Copies that cannot end well -/

/-- What is copied is there. -/
theorem Copied.isSome_source (hcopied : Copied files source target next) (hfiles : files.WellFormed)
    (hstart : files.item? (files.start target) = some .directory) :
    (files.item? (files.goal source)).isSome := by
  cases hcopied with
  | directory hsource hmake hlocate hcourse =>
      rw [isDirectory_eq_true hfiles hsource]
      rfl
  | file hparent hread hwritable hlocate =>
      obtain ⟨-, -, front, name, hplacing⟩ :=
        hparent.exists_placing hfiles hstart hread hwritable hlocate
      rw [hplacing.item_source]
      rfl

/-- Nothing is copied into a part of itself. -/
theorem Copied.not_inside (hcopied : Copied files source target next) (hfiles : files.WellFormed)
    (hstart : files.item? (files.start target) = some .directory)
    (hproper : files.goal source ≠ files.goal target) :
    ¬ files.goal source <+: files.goal target := by
  intro hinside
  cases hcopied with
  | @directory _ place origin made _ hsource hmake hlocate hcourse =>
      obtain ⟨rfl, -, -, hmakes⟩ := makeAll_eq_ok hfiles hstart hmake
      obtain ⟨rfl, -⟩ := locate_eq_ok hmakes.wellFormed hlocate
      rw [goal_congr hmakes.workingDirectory] at hcourse
      have hplace : made.item? (files.goal target) = some .directory :=
        hmakes.made _ Path.goal_mem_way
      have hnames := hmakes.wellFormed.names (by rw [hplace]; rfl)
      exact hcourse.fails_inside hmakes.wellFormed hnames
        (fun _ hmem => absurd hmem List.not_mem_nil) hinside hproper
        (fun _ hlist => nomatch hlist) rfl
  | @file place origin made text hparent hread hwritable hlocate =>
      obtain ⟨-, -, front, name, hplacing⟩ :=
        hparent.exists_placing hfiles hstart hread hwritable hlocate
      -- The file would be one of the directories above its copy.
      rw [hplacing.goal] at hinside hproper
      have habove := prefix_dropLast hinside hproper
      rw [List.dropLast_concat] at habove
      have hdirectory : made.item? (files.goal source) = some .directory := by
        by_cases hsame : files.goal source = Path.goal (files.start target) front
        · rw [hsame, hplacing.parent]
        · exact hplacing.makes.wellFormed.directory_of_prefix (by rw [hplacing.parent]; rfl)
            habove hsame
      cases hdirectory.symm.trans hplacing.item

end BuildPipeline.Files
