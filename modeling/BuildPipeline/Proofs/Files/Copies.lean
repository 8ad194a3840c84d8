import BuildPipeline.Proofs.Files.Ways

/-!
# Copies of trees

A directory is listed when the copy comes to it, in the very tree that the copy is changing, so what
is copied is no measure for the work.  The length of the path of the target is: it grows with every
nested call, and a path that is too long ends the copy.

* `Copying` is the course of a copy, with a bound on how deep its calls are nested.  `copying_run`
  finds one for every copy, `Copying.comesTo` says that there is only one outcome.
* `Copying.fails_inside`: a copy into a part of its own source never ends well.
* `Copying.lays`: a copy beside its source lays it over the target (`Overlays`).
-/

namespace BuildPipeline.Files

open BuildPipeline.Path (IsName)

/-- Why nothing is written for a file whose directory is there. -/
inductive Withheld (files : Files) (source target : Location) : FileError → Prop
  | unreadable {error : FileError} (hread : files.faults.read source = some error) :
      Withheld files source target error
  | occupied (hread : files.faults.read source = none)
      (hdirectory : files.item? target = some .directory) :
      Withheld files source target .isDirectory
  | unwritable {error : FileError} (hread : files.faults.read source = none)
      (hplain : files.item? target ≠ some .directory)
      (hwrite : files.faults.write target = some (none, error)) :
      Withheld files source target error

/-- The course of a copy, call by call.  With names it is that of copying these from one directory
into another; `depth` bounds how deep calls are nested. -/
inductive Copying : Nat → Location → Location → Option (List String) → Files →
    Except FileError Unit × Files → Prop
  /-- The path of the copy would be too long. -/
  | tooLong {depth : Nat} {source target : Location} {files : Files}
      (hlong : Path.longest < Location.byteLength target) :
      Copying depth source target none files (.error .nameTooLong, files)
  | missing {depth : Nat} {source target : Location} {files : Files}
      (hfits : ¬ Path.longest < Location.byteLength target) (hitem : files.item? source = none) :
      Copying depth source target none files (.error .notFound, files)
  /-- The directory that the file belongs into cannot be made. -/
  | fileRefused {depth : Nat} {source target : Location} {files made : Files} {text : String}
      {error : FileError} (hfits : ¬ Path.longest < Location.byteLength target)
      (hitem : files.item? source = some (.file text))
      (hmake : (makeFrom [] target.dropLast).run files = (.error error, made)) :
      Copying depth source target none files (.error error, made)
  | fileWithheld {depth : Nat} {source target parent : Location} {files made : Files}
      {text : String} {error : FileError}
      (hfits : ¬ Path.longest < Location.byteLength target)
      (hitem : files.item? source = some (.file text))
      (hmake : (makeFrom [] target.dropLast).run files = (.ok parent, made))
      (hwithheld : Withheld made source target error) :
      Copying depth source target none files (.error error, made)
  /-- Only the first characters of the file are written. -/
  | fileCut {depth : Nat} {source target parent : Location} {files made : Files}
      {text : String} {count : Nat} {error : FileError}
      (hfits : ¬ Path.longest < Location.byteLength target)
      (hitem : files.item? source = some (.file text))
      (hmake : (makeFrom [] target.dropLast).run files = (.ok parent, made))
      (hread : made.faults.read source = none)
      (hplain : made.item? target ≠ some .directory)
      (hwrite : made.faults.write target = some (some count, error)) :
      Copying depth source target none files
        (.error error,
          made.set target (.file (cutText count (if source = target then "" else text))))
  | file {depth : Nat} {source target parent : Location} {files made : Files} {text : String}
      (hfits : ¬ Path.longest < Location.byteLength target)
      (hitem : files.item? source = some (.file text))
      (hmake : (makeFrom [] target.dropLast).run files = (.ok parent, made))
      (hread : made.faults.read source = none)
      (hplain : made.item? target ≠ some .directory)
      (hwrite : made.faults.write target = none) :
      Copying depth source target none files
        (.ok (), made.set target (.file (if source = target then "" else text)))
  | directoryRefused {depth : Nat} {source target : Location} {files made : Files}
      {error : FileError} (hfits : ¬ Path.longest < Location.byteLength target)
      (hitem : files.item? source = some .directory)
      (hmake : (makeFrom [] target).run files = (.error error, made)) :
      Copying depth source target none files (.error error, made)
  /-- What is in the directory is listed when the copy has been made. -/
  | directory {depth : Nat} {source target place : Location} {files made : Files}
      {outcome : Except FileError Unit × Files}
      (hfits : ¬ Path.longest < Location.byteLength target)
      (hitem : files.item? source = some .directory)
      (hmake : (makeFrom [] target).run files = (.ok place, made))
      (hlist : made.faults.list source = none)
      (hchildren : Copying depth source target (some (made.childNames source)) made outcome) :
      Copying depth source target none files outcome
  /-- The listing breaks off, and what it has told until then is copied. -/
  | directoryCut {depth : Nat} {source target place : Location} {files made next : Files}
      {outcome : Except FileError Unit} {count : Nat} {error : FileError}
      (hfits : ¬ Path.longest < Location.byteLength target)
      (hitem : files.item? source = some .directory)
      (hmake : (makeFrom [] target).run files = (.ok place, made))
      (hlist : made.faults.list source = some (count, error))
      (hchildren : Copying depth source target (some ((made.childNames source).take count)) made
        (outcome, next)) :
      Copying depth source target none files (.error (FileChange.failure error outcome), next)
  | done {depth : Nat} {source target : Location} {files : Files} :
      Copying depth source target (some []) files (.ok (), files)
  | childFailed {depth : Nat} {source target : Location} {files next : Files} {name : String}
      {error : FileError} (rest : List String)
      (hchild : Copying depth (source ++ [name]) (target ++ [name]) none files
        (.error error, next)) :
      Copying (depth + 1) source target (some (name :: rest)) files (.error error, next)
  | child {depth : Nat} {source target : Location} {files middle : Files} {name : String}
      {rest : List String} {outcome : Except FileError Unit × Files}
      (hchild : Copying depth (source ++ [name]) (target ++ [name]) none files (.ok (), middle))
      (hrest : Copying (depth + 1) source target (some rest) middle outcome) :
      Copying (depth + 1) source target (some (name :: rest)) files outcome

section Courses

variable {depth : Nat} {source target : Location} {names : Option (List String)}
  {files : Files} {outcome : Except FileError Unit × Files}

theorem Copying.mono (hcopying : Copying depth source target names files outcome) {more : Nat}
    (hmore : depth ≤ more) : Copying more source target names files outcome := by
  induction hcopying generalizing more with
  | tooLong hlong => exact .tooLong hlong
  | missing hfits hitem => exact .missing hfits hitem
  | fileRefused hfits hitem hmake => exact .fileRefused hfits hitem hmake
  | fileWithheld hfits hitem hmake hwithheld => exact .fileWithheld hfits hitem hmake hwithheld
  | fileCut hfits hitem hmake hread hplain hwrite =>
      exact .fileCut hfits hitem hmake hread hplain hwrite
  | file hfits hitem hmake hread hplain hwrite => exact .file hfits hitem hmake hread hplain hwrite
  | directoryRefused hfits hitem hmake => exact .directoryRefused hfits hitem hmake
  | directory hfits hitem hmake hlist _ ih => exact .directory hfits hitem hmake hlist (ih hmore)
  | directoryCut hfits hitem hmake hlist _ ih =>
      exact .directoryCut hfits hitem hmake hlist (ih hmore)
  | done => exact .done
  | childFailed rest _ ih =>
      cases more with
      | zero => exact absurd hmore (Nat.not_succ_le_zero _)
      | succ more => exact .childFailed rest (ih (Nat.le_of_succ_le_succ hmore))
  | child _ _ ihChild ihRest =>
      cases more with
      | zero => exact absurd hmore (Nat.not_succ_le_zero _)
      | succ more => exact .child (ihChild (Nat.le_of_succ_le_succ hmore)) (ihRest hmore)

/-- What the calls come to. -/
def ComesTo (source target : Location) (names : Option (List String)) (files : Files)
    (outcome : Except FileError Unit × Files) : Prop :=
  match names with
  | none => (copyTree source target).run files = outcome
  | some names => ∀ hfits, (copyChildren source target hfits names).run files = outcome

/-- Nothing is written for a file that is withheld. -/
theorem Withheld.run {made : Files} {error : FileError}
    (hwithheld : Withheld made source target error) (text : String) :
    (do
      FileChange.raise (made.faults.read source)
      if made.isDirectoryAt target then throw .isDirectory
      overwrite source target text : FileChange Unit).run made = (.error error, made) := by
  cases hwithheld with
  | unreadable hread => rw [hread, FileChange.run_raise_some_bind]
  | occupied hread hdirectory =>
      rw [hread, FileChange.run_raise_none_bind, if_pos (isDirectoryAt_iff.mpr hdirectory)]
      rfl
  | unwritable hread hplain hwrite =>
      rw [hread, FileChange.run_raise_none_bind, if_neg (mt isDirectoryAt_iff.mp hplain),
        overwrite, FileChange.run_get_bind, hwrite]
      rfl

/-- A copy comes to what its course says. -/
theorem Copying.comesTo (hcopying : Copying depth source target names files outcome) :
    ComesTo source target names files outcome := by
  unfold ComesTo
  induction hcopying with
  | tooLong hlong =>
      rw [copyTree.eq_1, dif_pos hlong]
      rfl
  | missing hfits hitem =>
      rw [copyTree.eq_1, dif_neg hfits, FileChange.run_get_bind, hitem]
      rfl
  | fileRefused hfits hitem hmake =>
      rw [copyTree.eq_1, dif_neg hfits, FileChange.run_get_bind, hitem]
      exact FileChange.run_bind_of_error hmake
  | @fileWithheld _ _ _ _ _ _ text _ hfits hitem hmake hwithheld =>
      rw [copyTree.eq_1, dif_neg hfits, FileChange.run_get_bind, hitem]
      dsimp only
      rw [FileChange.run_bind_of_ok hmake, FileChange.run_get_bind]
      exact hwithheld.run text
  | fileCut hfits hitem hmake hread hplain hwrite =>
      rw [copyTree.eq_1, dif_neg hfits, FileChange.run_get_bind, hitem]
      dsimp only
      rw [FileChange.run_bind_of_ok hmake, FileChange.run_get_bind, hread,
        FileChange.run_raise_none_bind, if_neg (mt isDirectoryAt_iff.mp hplain), overwrite,
        FileChange.run_get_bind, hwrite]
      rfl
  | file hfits hitem hmake hread hplain hwrite =>
      rw [copyTree.eq_1, dif_neg hfits, FileChange.run_get_bind, hitem]
      dsimp only
      rw [FileChange.run_bind_of_ok hmake, FileChange.run_get_bind, hread,
        FileChange.run_raise_none_bind, if_neg (mt isDirectoryAt_iff.mp hplain), overwrite,
        FileChange.run_get_bind, hwrite]
      rfl
  | directoryRefused hfits hitem hmake =>
      rw [copyTree.eq_1, dif_neg hfits, FileChange.run_get_bind, hitem]
      exact FileChange.run_bind_of_error hmake
  | directory hfits hitem hmake hlist _ ih =>
      rw [copyTree.eq_1, dif_neg hfits, FileChange.run_get_bind, hitem]
      dsimp only
      rw [FileChange.run_bind_of_ok hmake, FileChange.run_get_bind, hlist]
      exact ih hfits
  | directoryCut hfits hitem hmake hlist _ ih =>
      rw [copyTree.eq_1, dif_neg hfits, FileChange.run_get_bind, hitem]
      dsimp only
      rw [FileChange.run_bind_of_ok hmake, FileChange.run_get_bind, hlist]
      exact FileChange.run_bind_throw (ih hfits) _
  | done =>
      intro hfits
      rw [copyChildren.eq_1]
      rfl
  | childFailed rest _ ih =>
      intro hfits
      rw [copyChildren.eq_2]
      exact FileChange.run_bind_of_error ih
  | child _ _ ihChild ihRest =>
      intro hfits
      rw [copyChildren.eq_2, FileChange.run_bind_of_ok ihChild]
      exact ihRest hfits

/-- Without faults a file is copied into a directory that is there. -/
theorem copying_of_file {parent : Location} {text : String}
    (hfits : ¬ Path.longest < Location.byteLength target)
    (hitem : files.item? source = some (.file text))
    (hmake : (makeFrom [] target.dropLast).run files = (.ok parent, files))
    (hfaults : files.faults = {}) (hplain : files.item? target = none) (hother : source ≠ target) :
    Copying depth source target none files (.ok (), files.set target (.file text)) := by
  have hcourse : Copying depth source target none files
      (.ok (), files.set target (.file (if source = target then "" else text))) :=
    .file hfits hitem hmake (by rw [hfaults]) (by rw [hplain]; exact fun heq => nomatch heq)
      (by rw [hfaults])
  rwa [if_neg hother] at hcourse

/-- The room that is left for paths below a location. -/
def room (target : Location) : Nat :=
  Path.longest + 1 - Location.byteLength target

/-- A course is that of what the copy comes to. -/
theorem copying_of_exists (hcourse : ∃ outcome, Copying depth source target none files outcome) :
    Copying depth source target none files ((copyTree source target).run files) := by
  obtain ⟨outcome, hcopying⟩ := hcourse
  have hrun : (copyTree source target).run files = outcome := hcopying.comesTo
  rwa [hrun]

/-- The copy of a file has a course. -/
theorem exists_copying_of_file (hfits : ¬ Path.longest < Location.byteLength target) {text : String}
    (hitem : files.item? source = some (.file text)) :
    ∃ outcome, Copying depth source target none files outcome := by
  rcases hmake : (makeFrom [] target.dropLast).run files with ⟨result, made⟩
  cases result with
  | error error => exact ⟨_, .fileRefused hfits hitem hmake⟩
  | ok parent =>
      cases hread : made.faults.read source with
      | some error => exact ⟨_, .fileWithheld hfits hitem hmake (.unreadable hread)⟩
      | none =>
          by_cases hplain : made.item? target = some .directory
          · exact ⟨_, .fileWithheld hfits hitem hmake (.occupied hread hplain)⟩
          · rcases hwrite : made.faults.write target with _ | ⟨count, error⟩
            · exact ⟨_, .file hfits hitem hmake hread hplain hwrite⟩
            · cases count with
              | none =>
                  exact ⟨_, .fileWithheld hfits hitem hmake (.unwritable hread hplain hwrite)⟩
              | some count => exact ⟨_, .fileCut hfits hitem hmake hread hplain hwrite⟩

/-- A copy has a course if that of what is listed in a directory has one. -/
theorem copying_of_children (hfits : ¬ Path.longest < Location.byteLength target)
    (hall : ∀ made, Copying depth source target (some (made.childNames source)) made
      ((copyChildren source target hfits (made.childNames source)).run made))
    (hfirst : ∀ made count, Copying depth source target
      (some ((made.childNames source).take count)) made
      ((copyChildren source target hfits ((made.childNames source).take count)).run made)) :
    Copying depth source target none files ((copyTree source target).run files) := by
  refine copying_of_exists ?_
  cases hitem : files.item? source with
  | none => exact ⟨_, .missing hfits hitem⟩
  | some entry =>
      cases entry with
      | file text => exact exists_copying_of_file hfits hitem
      | directory =>
          rcases hmake : (makeFrom [] target).run files with ⟨result, made⟩
          cases result with
          | error error => exact ⟨_, .directoryRefused hfits hitem hmake⟩
          | ok place =>
              rcases hlist : made.faults.list source with _ | ⟨count, error⟩
              · exact ⟨_, .directory hfits hitem hmake hlist (hall made)⟩
              · exact ⟨_, .directoryCut hfits hitem hmake hlist (hfirst made count)⟩

/-- One name is copied, and then the others if that went well. -/
theorem copying_cons (hfits : ¬ Path.longest < Location.byteLength target) {name : String}
    {rest : List String} (hchild : Copying depth (source ++ [name]) (target ++ [name]) none files
      ((copyTree (source ++ [name]) (target ++ [name])).run files))
    (hrest : ∀ middle, Copying (depth + 1) source target (some rest) middle
      ((copyChildren source target hfits rest).run middle)) :
    Copying (depth + 1) source target (some (name :: rest)) files
      ((copyChildren source target hfits (name :: rest)).run files) := by
  rw [copyChildren.eq_2]
  rcases hrun : (copyTree (source ++ [name]) (target ++ [name])).run files with ⟨result, middle⟩
  rw [hrun] at hchild
  cases result with
  | error error =>
      rw [FileChange.run_bind_of_error hrun]
      exact .childFailed rest hchild
  | ok done =>
      rw [FileChange.run_bind_of_ok hrun]
      exact .child hchild (hrest middle)

theorem room_append_lt (hfits : ¬ Path.longest < Location.byteLength target) (name : String) :
    room (target ++ [name]) < room target := by
  have hlonger := Location.byteLength_lt_append target name
  unfold room
  omega

/-- Every copy has a course, nested as deep as there is room for paths. -/
theorem copying_run (source target : Location) (files : Files) :
    Copying (room target) source target none files ((copyTree source target).run files) := by
  refine (copyTree.mutual_induct
    (fun source target => ∀ files,
      Copying (room target) source target none files ((copyTree source target).run files))
    (fun source target hfits names => ∀ files,
      Copying (room target) source target (some names) files
        ((copyChildren source target hfits names).run files)) ?_ ?_ ?_ ?_).1 source target files
  · intro source target hlong files
    rw [copyTree.eq_1, dif_pos hlong]
    exact .tooLong hlong
  · intro source target hfits ihAll ihFirst files
    exact copying_of_children hfits (fun made => ihAll made made)
      fun made count => ihFirst made count made
  · intro source target hfits files
    rw [copyChildren.eq_1]
    exact .done
  · intro source target hfits name rest ihChild ihRest files
    have hless := room_append_lt hfits name
    obtain ⟨depth, hdepth⟩ := Nat.exists_eq_add_of_lt (Nat.zero_lt_of_lt hless)
    rw [Nat.zero_add] at hdepth
    rw [hdepth] at hless ihRest ⊢
    exact copying_cons hfits ((ihChild files).mono (Nat.le_of_lt_succ hless)) ihRest

/-! ## What a copy keeps -/

/-- The directories at and above a location are made. -/
theorem makeFrom_names {target place : Location} {made : Files} (hfiles : files.WellFormed)
    (htarget : ∀ name ∈ target, IsName name)
    (hmake : (makeFrom [] target).run files = (.ok place, made)) :
    MakesDirectories files made (Path.way [] target) ∧
      ∀ passed, passed ∈ Path.way [] target ↔ passed <+: target := by
  obtain ⟨-, -, hmakes⟩ := makeFrom_eq_ok hfiles (item?_nil files) hmake
  refine ⟨hmakes, fun passed => ?_⟩
  rw [Path.mem_way_of_names htarget, List.nil_append, and_iff_right List.nil_prefix]

theorem MakesDirectories.item?_of_way {target : Location} {made : Files}
    (hmakes : MakesDirectories files made (Path.way [] target))
    (hway : ∀ passed, passed ∈ Path.way [] target ↔ passed <+: target) (place : Location) :
    made.item? place = if place <+: target then some .directory else files.item? place := by
  split
  · next hextends => exact hmakes.made place ((hway place).mpr hextends)
  · next houtside => exact hmakes.others place (mt (hway place).mp houtside)

theorem prefix_dropLast {above place : Location} (hextends : above <+: place)
    (hproper : above ≠ place) : above <+: place.dropLast := by
  obtain ⟨rest, rfl⟩ := hextends
  have hrest : rest ≠ [] := by
    rintro rfl
    exact hproper (List.append_nil above).symm
  rw [List.dropLast_append_of_ne_nil hrest]
  exact List.prefix_append _ _

theorem not_append_prefix_self {location rest : Location} (hrest : rest ≠ []) :
    ¬ location ++ rest <+: location := by
  intro hextends
  have hlength := hextends.length_le
  have hpositive := List.length_pos_iff.mpr hrest
  rw [List.length_append] at hlength
  omega

theorem isName_of_mem_childNames (hfiles : files.WellFormed) {location : Location} {name : String}
    (hname : name ∈ files.childNames location) : IsName name :=
  hfiles.name location name (mem_childNames.mp hname)

theorem forall_isName_dropLast {target : Location} (htarget : ∀ name ∈ target, IsName name) :
    ∀ name ∈ target.dropLast, IsName name :=
  fun name hname => htarget name (List.dropLast_subset target hname)

theorem forall_isName_concat {target : Location} {name : String}
    (htarget : ∀ piece ∈ target, IsName piece) (hname : IsName name) :
    ∀ piece ∈ target ++ [name], IsName piece :=
  List.forall_mem_append.mpr ⟨htarget, List.forall_mem_singleton.mpr hname⟩

theorem Copying.wellFormed (hcopying : Copying depth source target names files outcome)
    (hfiles : files.WellFormed) (htarget : ∀ name ∈ target, IsName name)
    (hnames : ∀ name ∈ names.getD [], IsName name) (hok : outcome.1 = .ok ()) :
    outcome.2.WellFormed ∧ outcome.2.workingDirectory = files.workingDirectory := by
  induction hcopying with
  | tooLong | missing | fileRefused | fileWithheld | fileCut | directoryRefused | directoryCut
  | childFailed => cases hok
  | @file _ _ target _ _ made _ hfits hitem hmake _ hplain _ =>
      obtain ⟨hmakes, hway⟩ := makeFrom_names hfiles (forall_isName_dropLast htarget) hmake
      cases target using List.reverseRecOn with
      | nil => exact absurd (item?_nil made) hplain
      | append_singleton parent name =>
          rw [List.dropLast_concat] at hway
          have hname : IsName name := htarget name (by simp)
          have hparent := hmakes.made parent (by simpa using (hway parent).mpr List.prefix_rfl)
          exact ⟨hmakes.wellFormed.set hname hparent hplain _, hmakes.workingDirectory⟩
  | directory hfits hitem hmake _ _ ih =>
      obtain ⟨hmakes, -⟩ := makeFrom_names hfiles htarget hmake
      obtain ⟨hnext, hworking⟩ := ih hmakes.wellFormed htarget
        (fun name hname => isName_of_mem_childNames hmakes.wellFormed hname) hok
      exact ⟨hnext, hworking.trans hmakes.workingDirectory⟩
  | done => exact ⟨hfiles, rfl⟩
  | child _ _ ihChild ihRest =>
      obtain ⟨hname, hrest⟩ := List.forall_mem_cons.mp hnames
      obtain ⟨hmiddle, hfirst⟩ := ihChild hfiles (forall_isName_concat htarget hname)
        (fun _ hmem => absurd hmem List.not_mem_nil) rfl
      obtain ⟨hnext, hworking⟩ := ihRest hmiddle htarget hrest hok
      exact ⟨hnext, hworking.trans hfirst⟩

/-! ## Copies into their own source -/

/-- A copy into a part of its own source fails: the target is among what is copied, so there is
always a copy below that still has to be made. -/
theorem Copying.fails_inside (hcopying : Copying depth source target names files outcome)
    (hfiles : files.WellFormed) (htarget : ∀ name ∈ target, IsName name)
    (hnames : ∀ name ∈ names.getD [], IsName name) (hinside : source <+: target)
    (hproper : source ≠ target)
    (hlisted : ∀ list ∈ names, ∃ name ∈ list, source ++ [name] <+: target) :
    outcome.1 ≠ .ok () := by
  -- Either a call is on a part of its own source, or one of the names still to be copied leads to
  -- the target.  A call makes its target before it lists its source, so such a name is listed.
  induction hcopying with
  | tooLong | missing | fileRefused | fileWithheld | fileCut | directoryRefused | directoryCut
  | childFailed =>
      exact fun hok => nomatch hok
  | file hfits hitem hmake _ _ _ =>
      obtain ⟨hmakes, hway⟩ := makeFrom_names hfiles (forall_isName_dropLast htarget) hmake
      have habove := (hway _).mpr (prefix_dropLast hinside hproper)
      rcases hmakes.clear _ habove with hmissing | hdirectory
      · cases hmissing.symm.trans hitem
      · cases hdirectory.symm.trans hitem
  | @directory _ source target _ _ made _ hfits hitem hmake _ _ ih =>
      obtain ⟨hmakes, hway⟩ := makeFrom_names hfiles htarget hmake
      refine ih hmakes.wellFormed htarget
        (fun name hname => isName_of_mem_childNames hmakes.wellFormed hname) hinside hproper ?_
      obtain ⟨rest, rfl⟩ := hinside
      cases rest with
      | nil => exact absurd (List.append_nil source).symm hproper
      | cons name rest =>
          have hextends : source ++ [name] <+: source ++ name :: rest :=
            (List.prefix_append_right_inj source).mpr ⟨rest, rfl⟩
          rintro list ⟨⟩
          refine ⟨name, mem_childNames.mpr ?_, hextends⟩
          rw [hmakes.made _ ((hway _).mpr hextends)]
          rfl
  | done =>
      obtain ⟨name, hmem, -⟩ := hlisted [] rfl
      exact absurd hmem List.not_mem_nil
  | @child _ source target _ _ first rest _ hchild _ ihChild ihRest =>
      obtain ⟨hfirst, hrest⟩ := List.forall_mem_cons.mp hnames
      obtain ⟨name, hmem, hextends⟩ := hlisted _ rfl
      have hnext := forall_isName_concat htarget hfirst
      rcases List.mem_cons.mp hmem with rfl | hlater
      · refine absurd rfl (ihChild hfiles hnext (fun _ hmem => absurd hmem List.not_mem_nil)
          (hextends.trans (List.prefix_append _ _)) ?_ (fun _ hlist => nomatch hlist))
        exact fun heq => hproper (List.append_cancel_right heq)
      · have hmiddle := (hchild.wellFormed hfiles hnext
          (fun _ hmem => absurd hmem List.not_mem_nil) rfl).1
        refine ihRest hmiddle htarget hrest hinside hproper ?_
        rintro list ⟨⟩
        exact ⟨name, hlater, hextends⟩

/-! ## Copies beside their source -/

/-- Neither location is at or below the other. -/
def Apart (first second : Location) : Prop :=
  ¬ first <+: second ∧ ¬ second <+: first

namespace Apart

variable {first second : Location}

theorem symm (hapart : Apart first second) : Apart second first :=
  ⟨hapart.2, hapart.1⟩

theorem not_prefix_append (hapart : Apart first second) (rest : Location) :
    ¬ second <+: first ++ rest := by
  intro hextends
  rcases List.prefix_or_prefix_of_prefix hextends (List.prefix_append first rest) with
    hsecond | hfirst
  · exact hapart.2 hsecond
  · exact hapart.1 hfirst

theorem not_append_prefix (hapart : Apart first second) (rest : Location) :
    ¬ first ++ rest <+: second :=
  fun hextends => hapart.1 ((List.prefix_append first rest).trans hextends)

theorem append (hapart : Apart first second) (rest other : Location) :
    Apart (first ++ rest) (second ++ other) :=
  ⟨fun hextends => hapart.symm.not_prefix_append other ((List.prefix_append _ _).trans hextends),
    fun hextends => hapart.not_prefix_append rest ((List.prefix_append _ _).trans hextends)⟩

end Apart

/-- The target holds what the source did, over what it held before, and elsewhere nothing is
different except for the directories above the target. -/
structure Overlays (files next : Files) (source target : Location) : Prop where
  copied : ∀ rest, next.item? (target ++ rest) =
    (files.item? (source ++ rest)).or (files.item? (target ++ rest))
  others : ∀ place, ¬ target <+: place → next.item? place =
    if place <+: target then some .directory else files.item? place

/-- The same for some names in directories that are there. -/
structure OverlaysNames (files next : Files) (source target : Location) (names : List String) :
    Prop where
  copied : ∀ name ∈ names, ∀ rest, next.item? (target ++ name :: rest) =
    (files.item? (source ++ name :: rest)).or (files.item? (target ++ name :: rest))
  others : ∀ place, (∀ name ∈ names, ¬ target ++ [name] <+: place) →
    next.item? place = files.item? place

/-- A file is put in its place. -/
theorem overlays_of_set {place : Location} {text : String} (name : String)
    (hfiles : files.WellFormed) (hitem : files.item? source = some (.file text))
    (hplace : files.item? place = some .directory) :
    Overlays files (files.set (place ++ [name]) (.file text)) source (place ++ [name]) := by
  have hset : ∀ other, (files.set (place ++ [name]) (.file text)).item? other =
      if other = place ++ [name] then some (.file text) else files.item? other :=
    fun other => item?_set (by simp) _
  constructor
  · intro rest
    rw [hset]
    cases rest with
    | nil => simp [hitem]
    | cons first rest =>
        have hbelow : files.item? (source ++ first :: rest) = none :=
          hfiles.item?_below (by rw [hitem]; exact fun heq => nomatch heq) (by simp)
        rw [if_neg (by simp), hbelow, Option.none_or]
  · intro other houtside
    have hother : other ≠ place ++ [name] := fun heq => houtside (heq ▸ List.prefix_rfl)
    rw [hset, if_neg hother]
    split
    · next hextends =>
        have habove := prefix_dropLast hextends hother
        rw [List.dropLast_concat] at habove
        by_cases hsame : other = place
        · rw [hsame, hplace]
        · exact hfiles.directory_of_prefix (by rw [hplace]; rfl) habove hsame
    · rfl

/-- What all names in a directory come to. -/
theorem overlays_of_names {next : Files} (hfiles : files.WellFormed)
    (hsource : files.item? source = some .directory)
    (htarget : files.item? target = some .directory)
    (hnames : OverlaysNames files next source target (files.childNames source)) :
    Overlays files next source target := by
  constructor
  · intro rest
    cases rest with
    | nil =>
        have hroot : ∀ name ∈ files.childNames source, ¬ target ++ [name] <+: target :=
          fun name _ => not_append_prefix_self (List.cons_ne_nil name [])
        rw [List.append_nil, List.append_nil, hnames.others target hroot, hsource, htarget]
        rfl
    | cons name rest =>
        by_cases hmem : name ∈ files.childNames source
        · exact hnames.copied name hmem rest
        · have hmissing : files.item? (source ++ [name]) = none :=
            Option.not_isSome_iff_eq_none.mp (mt mem_childNames.mpr hmem)
          have hnone : files.item? (source ++ name :: rest) = none :=
            hfiles.item?_of_absent hmissing ((List.prefix_append_right_inj source).mpr ⟨rest, rfl⟩)
          have hoff : ∀ other ∈ files.childNames source,
              ¬ target ++ [other] <+: target ++ name :: rest := by
            intro other hother hextends
            rw [List.prefix_append_right_inj, List.cons_prefix_cons] at hextends
            exact hmem (hextends.1 ▸ hother)
          rw [hnames.others _ hoff, hnone, Option.none_or]
  · intro place houtside
    have hoff : ∀ name ∈ files.childNames source, ¬ target ++ [name] <+: place :=
      fun name _ hextends => houtside ((List.prefix_append _ _).trans hextends)
    rw [hnames.others place hoff]
    split
    · next hextends =>
        by_cases hsame : place = target
        · rw [hsame, htarget]
        · exact hfiles.directory_of_prefix (by rw [htarget]; rfl) hextends hsame
    · rfl

/-- Directories that were made above the target, and the target as one, do not matter. -/
theorem Overlays.of_makes {made next : Files} {entry : FileEntry}
    (hoverlays : Overlays made next source target) (hapart : Apart source target)
    (hitem : files.item? source = some entry)
    (hmade : ∀ place, place ≠ target → made.item? place =
      if place <+: target then some .directory else files.item? place) :
    Overlays files next source target := by
  have hbeside : ∀ place, ¬ place <+: target → made.item? place = files.item? place := by
    intro place houtside
    have hother : place ≠ target := fun heq => houtside (heq ▸ List.prefix_rfl)
    rw [hmade place hother, if_neg houtside]
  constructor
  · intro rest
    rw [hoverlays.copied rest, hbeside _ (hapart.not_append_prefix rest)]
    cases rest with
    | nil => simp [hitem]
    | cons name rest => rw [hbeside _ (not_append_prefix_self (List.cons_ne_nil name rest))]
  · intro place houtside
    rw [hoverlays.others place houtside]
    split
    · rfl
    · next hextends => exact hbeside place hextends

/-- One name, and then the others. -/
theorem overlaysNames_cons {middle next : Files} {name : String} {rest : List String}
    (hfiles : files.WellFormed) (hapart : Apart source target)
    (hdirectory : files.item? target = some .directory)
    (hfirst : Overlays files middle (source ++ [name]) (target ++ [name]))
    (hrest : OverlaysNames middle next source target rest) :
    OverlaysNames files next source target (name :: rest) := by
  have hsame : ∀ place, ¬ target ++ [name] <+: place → middle.item? place = files.item? place := by
    intro place houtside
    rw [hfirst.others place houtside]
    split
    · next hextends =>
        have hother : place ≠ target ++ [name] := fun heq => houtside (heq ▸ List.prefix_rfl)
        have habove := prefix_dropLast hextends hother
        rw [List.dropLast_concat] at habove
        by_cases htarget : place = target
        · rw [htarget, hdirectory]
        · exact (hfiles.directory_of_prefix (by rw [hdirectory]; rfl) habove htarget).symm
    · rfl
  have hown : ∀ below, middle.item? (target ++ name :: below) =
      (files.item? (source ++ name :: below)).or (files.item? (target ++ name :: below)) := by
    intro below
    have hcopied := hfirst.copied below
    simpa using hcopied
  have hsource : ∀ below, middle.item? (source ++ below) = files.item? (source ++ below) := by
    intro below
    exact hsame _ fun hextends =>
      hapart.not_prefix_append below ((List.prefix_append _ _).trans hextends)
  constructor
  · intro other hmem below
    -- A name that is listed twice is copied twice, over its own copy.
    by_cases hlater : other ∈ rest
    · rw [hrest.copied other hlater below, hsource]
      by_cases hname : other = name
      · rw [hname, hown, ← Option.or_assoc, Option.or_self]
      · rw [hsame]
        rw [List.prefix_append_right_inj, List.cons_prefix_cons]
        exact fun heq => hname heq.1.symm
    · obtain rfl := (List.mem_cons.mp hmem).resolve_right hlater
      rw [hrest.others _ ?_, hown]
      intro later hmem hextends
      rw [List.prefix_append_right_inj, List.cons_prefix_cons] at hextends
      exact hlater (hextends.1 ▸ hmem)
  · intro place houtside
    obtain ⟨hfirst, hlater⟩ := List.forall_mem_cons.mp houtside
    rw [hrest.others place hlater, hsame place hfirst]

/-- What a copy is for. -/
def Lays (source target : Location) (names : Option (List String)) (files next : Files) : Prop :=
  match names with
  | none => Overlays files next source target
  | some names => files.item? target = some .directory →
      OverlaysNames files next source target names

/-- The copy of a file. -/
theorem overlays_of_file {parent : Location} {made : Files} {text : String}
    (hfiles : files.WellFormed) (htarget : ∀ name ∈ target, IsName name)
    (hapart : Apart source target) (hitem : files.item? source = some (.file text))
    (hmake : (makeFrom [] target.dropLast).run files = (.ok parent, made))
    (hplain : made.item? target ≠ some .directory) :
    Overlays files (made.set target (.file text)) source target := by
  obtain ⟨hmakes, hway⟩ := makeFrom_names hfiles (forall_isName_dropLast htarget) hmake
  cases target using List.reverseRecOn with
  | nil => exact absurd (item?_nil made) hplain
  | append_singleton above name =>
      rw [List.dropLast_concat] at hmakes hway
      have hsource : made.item? source = some (.file text) := by
        rw [hmakes.others _ (mt (hway _).mp ?_), hitem]
        exact fun hextends => hapart.1 (hextends.trans (List.prefix_append _ _))
      have hset : Overlays made (made.set (above ++ [name]) (.file text)) source
          (above ++ [name]) :=
        overlays_of_set name hmakes.wellFormed hsource
          (hmakes.made _ ((hway _).mpr List.prefix_rfl))
      refine hset.of_makes hapart hitem fun place hplace => ?_
      have hsame : place <+: above ++ [name] ↔ place <+: above := by
        refine ⟨fun hextends => ?_, fun hextends => hextends.trans (List.prefix_append _ _)⟩
        have habove := prefix_dropLast hextends hplace
        rwa [List.dropLast_concat] at habove
      simp only [hsame]
      exact hmakes.item?_of_way hway place

/-- The copy of a directory. -/
theorem overlays_of_directory {place : Location} {made next : Files} (hfiles : files.WellFormed)
    (htarget : ∀ name ∈ target, IsName name) (hapart : Apart source target)
    (hitem : files.item? source = some .directory)
    (hmake : (makeFrom [] target).run files = (.ok place, made))
    (hchildren : made.item? target = some .directory →
      OverlaysNames made next source target (made.childNames source)) :
    Overlays files next source target := by
  obtain ⟨hmakes, hway⟩ := makeFrom_names hfiles htarget hmake
  have hsource : made.item? source = some .directory := by
    rw [hmakes.others _ (mt (hway _).mp hapart.1), hitem]
  have hplace := hmakes.made _ ((hway _).mpr List.prefix_rfl)
  have hnames := overlays_of_names hmakes.wellFormed hsource hplace (hchildren hplace)
  exact hnames.of_makes hapart hitem fun place _ => hmakes.item?_of_way hway place

/-- A copy that ends well lays the source over the target. -/
theorem Copying.lays (hcopying : Copying depth source target names files outcome)
    (hfiles : files.WellFormed) (htarget : ∀ name ∈ target, IsName name)
    (hnames : ∀ name ∈ names.getD [], IsName name) (hapart : Apart source target)
    (hok : outcome.1 = .ok ()) : Lays source target names files outcome.2 := by
  induction hcopying with
  | tooLong | missing | fileRefused | fileWithheld | fileCut | directoryRefused | directoryCut
  | childFailed => cases hok
  | @file _ source target _ _ _ _ hfits hitem hmake _ hplain _ =>
      have hother : source ≠ target := fun heq => hapart.1 (heq ▸ List.prefix_rfl)
      rw [if_neg hother]
      exact overlays_of_file hfiles htarget hapart hitem hmake hplain
  | directory hfits hitem hmake _ _ ih =>
      obtain ⟨hmakes, -⟩ := makeFrom_names hfiles htarget hmake
      have hchildren := ih hmakes.wellFormed htarget
        (fun name hname => isName_of_mem_childNames hmakes.wellFormed hname) hapart hok
      exact overlays_of_directory hfiles htarget hapart hitem hmake hchildren
  | done => exact fun _ => ⟨fun _ hmem => absurd hmem List.not_mem_nil, fun _ _ => rfl⟩
  | @child _ source target _ middle name rest _ hchild _ ihChild ihRest =>
      intro hdirectory
      obtain ⟨hname, hrest⟩ := List.forall_mem_cons.mp hnames
      have hnext := forall_isName_concat htarget hname
      have hfirst : Overlays _ middle (source ++ [name]) (target ++ [name]) :=
        ihChild hfiles hnext (fun _ hmem => absurd hmem List.not_mem_nil)
          (hapart.append [name] [name]) rfl
      have hmiddle := (hchild.wellFormed hfiles hnext
        (fun _ hmem => absurd hmem List.not_mem_nil) rfl).1
      have hstill : middle.item? target = some .directory := by
        rw [hfirst.others target (not_append_prefix_self (List.cons_ne_nil name [])),
          if_pos (List.prefix_append _ _)]
      exact overlaysNames_cons hfiles hapart hdirectory hfirst
        (ihRest hmiddle htarget hrest hapart hok hstill)

end Courses

end BuildPipeline.Files
